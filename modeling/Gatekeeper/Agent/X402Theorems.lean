import Gatekeeper.Agent.X402

/-!
# What the client signs

Every signature of a run of `fetchWithMandate` is over the domain and the message that the
challenge of the run comes to (`Quotes`), and follows an approval of the action it comes to.
-/

namespace Gatekeeper.Agent

open Interaction Js

/-! ## What a challenge comes to -/

/-- What the client derives from a challenge before it asks or signs. -/
structure Quote where
  requirement : Value
  action : PayAction
  domain : Eip712Domain
  toAddress : String
  value : String

/-- The client has a challenge and a wallet, and can derive all of it. -/
structure Quotes (P : Platform) (opts : Options) (challenge : Value) (q : Quote) : Prop where
  present : challenge.truthy = true
  wallet : opts.wallet = true
  requirement : selectRequirement challenge opts.scheme opts.network = .ok q.requirement
  action : actionForRequirement P q.requirement opts.decimals = .ok q.action
  domain : eip712Domain P q.requirement = .ok q.domain
  toAddress : (q.requirement.get "payTo" >>= addressOf P) = .ok q.toAddress
  value : (q.requirement.get "amount" >>= Value.text) = .ok q.value

/-! ## What a run does -/

/-- The run was charged with this challenge. -/
def Charged (challenge : Value) (t : List ClientEvent) : Prop :=
  ∃ url res t', t = ⟨.fetch url none, .ok res⟩ :: t' ∧ res.status = 402 ∧
    readChallenge res = challenge

/-- The wallet signed this message. -/
def Signs (t : List ClientEvent) (domain : Eip712Domain) (authorization : Authorization) : Prop :=
  ∃ s : String, (⟨.signTypedData domain authorization, .ok s⟩ : ClientEvent) ∈ t

/-- The mandate approved this action, for a requirement of a challenge. -/
def Approves (t : List ClientEvent) (action : PayAction) (requirement challenge : Value) : Prop :=
  ∃ v : Value, (⟨.decide action requirement challenge, .ok v⟩ : ClientEvent) ∈ t ∧
    isApproval v = true

/-- A signature carries what the quote says. -/
structure SignedFor (q : Quote) (domain : Eip712Domain) (authorization : Authorization) : Prop where
  domain : domain = q.domain
  toAddress : authorization.toAddress = q.toAddress
  value : authorization.value = q.value

section Signing

variable {P : Platform} {url : String} {opts : Options} {challenge requirement resource : Value}
  {action : PayAction} {domain : Eip712Domain} {authorization : Authorization}
  {t : List ClientEvent} {s : String}

/-- A message over a requirement, as `signPayment` builds it. -/
structure Builds (P : Platform) (requirement : Value) (domain : Eip712Domain)
    (authorization : Authorization) : Prop where
  domain : eip712Domain P requirement = .ok domain
  toAddress : (requirement.get "payTo" >>= addressOf P) = .ok authorization.toAddress
  value : (requirement.get "amount" >>= Value.text) = .ok authorization.value

theorem signPayment_signs {r : Except Error Payment}
    (h : Emits (signPayment P requirement resource) t r)
    (hs : (⟨.signTypedData domain authorization, .ok s⟩ : ClientEvent) ∈ t) :
    Builds P requirement domain authorization := by
  obtain ⟨dm, _, t₁, -, h₁, h, hs⟩ := emits_bind_of_avoids h hs (avoids_ofExcept _ _)
  obtain ⟨now, _, t₂, -, _, h, hs⟩ := emits_bind_of_avoids h hs (avoids_perform nofun)
  obtain ⟨sender, _, t₃, -, _, h, hs⟩ := emits_bind_of_avoids h hs
    (avoids_bind (avoids_perform nofun) fun _ => avoids_ofExcept _ _)
  obtain ⟨payee, _, t₄, -, h₄, h, hs⟩ := emits_bind_of_avoids h hs (avoids_ofExcept _ _)
  obtain ⟨value, _, t₅, -, h₅, h, hs⟩ := emits_bind_of_avoids h hs (avoids_ofExcept _ _)
  obtain ⟨nonce, _, t₆, -, _, h, hs⟩ := emits_bind_of_avoids h hs (avoids_perform nofun)
  -- whether or not the wallet answers, its call is the last one
  have hlast : ∃ x, t₆ =
      [⟨.signTypedData dm (authorizationAt now sender payee value nonce), x⟩] := by
    rcases emits_bind.mp h with ⟨e, h, _⟩ | ⟨sig, _, _, rfl, h, h'⟩
    · obtain ⟨x, ht, _⟩ := emits_await.mp h
      exact ⟨x, ht⟩
    · obtain ⟨x, rfl, _⟩ := emits_await.mp h
      obtain ⟨rfl, _⟩ := emits_pure.mp h'
      exact ⟨x, rfl⟩
  obtain ⟨x, rfl⟩ := hlast
  cases List.mem_singleton.mp hs
  exact ⟨(emits_ofExcept.mp h₁).2.symm, (emits_ofExcept.mp h₄).2.symm,
    (emits_ofExcept.mp h₅).2.symm⟩

theorem payAndRetry_signs {r : Except Error FetchResult}
    (h : Emits (payAndRetry P url opts challenge requirement action) t r)
    (hs : (⟨.signTypedData domain authorization, .ok s⟩ : ClientEvent) ∈ t) :
    Builds P requirement domain authorization := by
  -- nothing after the payment is signed again
  have hrest : ∀ payment : Payment, Avoids
      (⟨.signTypedData domain authorization, .ok s⟩ : ClientEvent) (do
        let settlement ← settleIfAsked opts payment requirement
        let retry ← Prog.perform (ClientOp.fetch url (some payment)) >>= Prog.ofExcept
        return FetchResult.paid retry action requirement payment settlement retry.receipt) := by
    intro payment
    refine avoids_bind ?_ fun _ => avoids_bind (avoids_bind (avoids_perform nofun) fun _ =>
      avoids_ofExcept _ _) fun _ => avoids_ofExcept _ (.ok _)
    rw [settleIfAsked]
    split_ifs
    · exact avoids_bind (avoids_bind (avoids_perform nofun) fun _ => avoids_ofExcept _ _)
        fun _ => avoids_ofExcept _ (.ok _)
    · exact avoids_ofExcept _ (.ok _)
  rcases emits_bind.mp h with ⟨_, h₁, _⟩ | ⟨payment, t₁, t₂, rfl, h₁, h₂⟩
  · exact signPayment_signs h₁ hs
  · exact signPayment_signs h₁ ((List.mem_append.mp hs).resolve_right (hrest payment _ _ h₂))

theorem payIfApproved_signs {first : Response} {r : Except Error FetchResult}
    (h : Emits (payIfApproved P url opts first challenge requirement action) t r)
    (hs : (⟨.signTypedData domain authorization, .ok s⟩ : ClientEvent) ∈ t) :
    opts.wallet = true ∧ Approves t action requirement challenge ∧
      Builds P requirement domain authorization := by
  obtain ⟨verdict, t₁, t₂, ht, h₁, h₂, hs⟩ := emits_bind_of_avoids h hs
    (avoids_bind (avoids_perform nofun) fun _ => avoids_ofExcept _ _)
  obtain ⟨x, rfl, hx⟩ := emits_await.mp h₁
  split_ifs at h₂ with hverdict hwallet
  · refine ⟨hwallet, ⟨verdict, ?_, hverdict⟩, payAndRetry_signs h₂ hs⟩
    -- the approval is the first event of the trace
    rw [ht, hx]
    exact List.mem_cons_self
  -- without a wallet or an approval the run ends before it signs
  · obtain ⟨rfl, _⟩ := emits_fail.mp h₂
    cases hs
  · obtain ⟨rfl, _⟩ := emits_pure.mp h₂
    cases hs

theorem payChallenge_signs {first : Response} {r : Except Error FetchResult}
    (h : Emits (payChallenge P url opts first challenge) t r)
    (hs : (⟨.signTypedData domain authorization, .ok s⟩ : ClientEvent) ∈ t) :
    ∃ q, Quotes P opts challenge q ∧ Approves t q.action q.requirement challenge ∧
      SignedFor q domain authorization := by
  rw [payChallenge] at h
  split_ifs at h with hchallenge
  · obtain ⟨requirement, t₁, t', rfl, h₁, h', hs⟩ :=
      emits_bind_of_avoids h hs (avoids_ofExcept _ _)
    obtain ⟨action, t₂, t₃, rfl, h₂, h₃, hs⟩ := emits_bind_of_avoids h' hs (avoids_ofExcept _ _)
    obtain ⟨rfl, hrequirement⟩ := emits_ofExcept.mp h₁
    obtain ⟨rfl, haction⟩ := emits_ofExcept.mp h₂
    obtain ⟨hwallet, happroves, hbuilds⟩ := payIfApproved_signs h₃ hs
    exact ⟨⟨requirement, action, domain, authorization.toAddress, authorization.value⟩,
      ⟨hchallenge, hwallet, hrequirement.symm, haction.symm, hbuilds.domain, hbuilds.toAddress,
        hbuilds.value⟩,
      happroves, ⟨rfl, rfl, rfl⟩⟩
  · obtain ⟨rfl, _⟩ := emits_fail.mp h
    cases hs

/-- A run that signs was charged, had an approval of what the challenge comes to, and signs
that. -/
theorem signs_spec {r : Except Error FetchResult} (h : Emits (fetchWithMandate P url opts) t r)
    (hs : Signs t domain authorization) :
    ∃ challenge q, Charged challenge t ∧ Quotes P opts challenge q ∧
      Approves t q.action q.requirement challenge ∧ SignedFor q domain authorization := by
  obtain ⟨s, hs⟩ := hs
  obtain ⟨first, _, t₁, ht, h₁, h₂, hs⟩ := emits_bind_of_avoids h hs
    (avoids_bind (avoids_perform nofun) fun _ => avoids_ofExcept _ _)
  obtain ⟨x, rfl, hx⟩ := emits_await.mp h₁
  split_ifs at h₂ with hstatus
  · obtain ⟨rfl, _⟩ := emits_pure.mp h₂
    cases hs
  · obtain ⟨q, hq, ⟨v, hv, hv'⟩, hsigned⟩ := payChallenge_signs h₂ hs
    refine ⟨readChallenge first, q, ⟨url, first, t₁, ?_, not_not.mp hstatus, rfl⟩, hq,
      ⟨v, ?_, hv'⟩, hsigned⟩
    · rw [ht, hx]
      rfl
    · rw [ht]
      exact List.mem_cons_of_mem _ hv

end Signing

theorem charged_unique {c₁ c₂ : Value} {t : List ClientEvent} (h₁ : Charged c₁ t)
    (h₂ : Charged c₂ t) : c₁ = c₂ := by
  obtain ⟨_, _, _, rfl, _, rfl⟩ := h₁
  obtain ⟨_, _, _, h, _, rfl⟩ := h₂
  cases h
  rfl

/-! ## A run that signs -/

/-- Answers under which a client that is charged gets an approval and a signature. -/
structure Signing (P : Platform) (url : String) (opts : Options) (q : Quote)
    (first : Response) (answer : (op : ClientOp) → op.Res) (authorization : Authorization) :
    Prop where
  fetch : answer (.fetch url none) = .ok first
  approval : ∃ v, answer (.decide q.action q.requirement (readChallenge first)) = .ok v ∧
    isApproval v = true
  message : ∃ sender, answer .getAddress = .ok sender ∧
    authorization = authorizationAt (answer .nowSecs) sender q.toAddress q.value
      (answer .randomBytes)
  signature : ∃ s, answer (.signTypedData q.domain authorization) = .ok s

section Run

variable {P : Platform} {url : String} {opts : Options} {q : Quote} {first : Response}
  {resource : Value} {answer : (op : ClientOp) → op.Res} {authorization : Authorization}

theorem signs_run_signPayment (hq : Quotes P opts (readChallenge first) q)
    (h : Signing P url opts q first answer authorization) :
    Signs (run answer (signPayment P q.requirement resource)).1 q.domain authorization := by
  obtain ⟨sender, hsender, hauth⟩ := h.message
  obtain ⟨s, hs⟩ := h.signature
  refine ⟨s, ?_⟩
  rw [signPayment, run_ofExcept_bind hq.domain, run_perform_bind, run_await_bind hsender,
    run_ofExcept_bind hq.toAddress, run_ofExcept_bind hq.value, run_perform_bind, ← hauth,
    run_await_bind hs, hs]
  simp

/-- A challenge that the client can read, with a wallet, an approval and a signature, makes a
run that signs. -/
theorem signs_run (hq : Quotes P opts (readChallenge first) q)
    (hstatus : first.status = 402) (h : Signing P url opts q first answer authorization) :
    Charged (readChallenge first) (run answer (fetchWithMandate P url opts)).1 ∧
      Signs (run answer (fetchWithMandate P url opts)).1 q.domain authorization := by
  obtain ⟨v, hv, happroval⟩ := h.approval
  have hrun : run answer (fetchWithMandate P url opts) =
      (⟨.fetch url none, answer (.fetch url none)⟩ ::
        ⟨.decide q.action q.requirement (readChallenge first),
          answer (.decide q.action q.requirement (readChallenge first))⟩ ::
        (run answer (payAndRetry P url opts (readChallenge first) q.requirement q.action)).1,
        (run answer (payAndRetry P url opts (readChallenge first) q.requirement q.action)).2) := by
    rw [fetchWithMandate, run_await_bind h.fetch, if_neg (not_not.mpr hstatus), payChallenge,
      if_neg (not_not.mpr hq.present), run_ofExcept_bind hq.requirement,
      run_ofExcept_bind hq.action, payIfApproved, run_await_bind hv,
      if_neg (not_not.mpr happroval), if_neg (not_not.mpr hq.wallet)]
  have hsigns : Signs (run answer (signPayment P q.requirement
      ((readChallenge first).get? "resource"))).1 q.domain authorization :=
    signs_run_signPayment hq h
  obtain ⟨s, hs⟩ := hsigns
  rw [hrun]
  refine ⟨⟨url, first, _, by rw [h.fetch], hstatus, rfl⟩, s, ?_⟩
  exact List.mem_cons_of_mem _ (List.mem_cons_of_mem _ (mem_run_bind hs))

end Run

end Gatekeeper.Agent
