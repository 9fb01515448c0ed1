import Gatekeeper.Agent.Cents
import Gatekeeper.Agent.SamplePaywall

/-!
# What an approval allows and what is signed

A mandate limits cents; a signature moves token units. When the decimals are the ones the
server declares, exactly the sound challenges (`Sound`) are signed within every mandate.
-/

namespace Gatekeeper.Agent

open Interaction Js Gate

/-! ## Mandates with other limits -/

/-- The money limits of a mandate: the highest amount, and one for each limited counterparty. -/
structure Limits where
  maxAmountCents : UInt64
  counterparty : String → UInt64

/-- The mandate with these limits. Its lists, its window and the counterparties that it limits
stay as they are. -/
def withLimits (mandate : Mandate) (l : Limits) : Mandate :=
  { mandate with
    maxAmountCents := l.maxAmountCents
    counterpartyLimits := mandate.counterpartyLimits.map fun e => (e.1, l.counterparty e.1) }

/-- Limits that stop nothing. -/
def unlimited : Limits := ⟨18446744073709551615, fun _ => 18446744073709551615⟩

/-- The limits allow the action. -/
structure Allows (mandate : Mandate) (l : Limits) (a : Gate.Action) : Prop where
  max : a.amountCents ≤ l.maxAmountCents
  counterparty : ∀ cp, a.counterparty = some cp →
    cp.val ∈ mandate.counterpartyLimits.map Prod.fst → a.amountCents ≤ l.counterparty cp.val

theorem lookup_map_self {β : Type} (ks : List (String × β)) (f : String → UInt64) (k : String) :
    (ks.map fun e => (e.1, f e.1)).lookup k = if k ∈ ks.map Prod.fst then some (f k) else none := by
  induction ks with
  | nil => rfl
  | cons e ks ih =>
    by_cases h : k = e.1
    · simp [h]
    · have hbeq : (k == e.1) = false := by simpa using h
      simp only [List.map_cons, List.lookup_cons, hbeq, ih, List.mem_cons, h, false_or]

/-- The lists of a mandate decide apart from its limits. -/
theorem permitsBare_withLimits {mandate : Mandate} {l : Limits} {a : Gate.Action}
    {nowSecs : UInt64} :
    PermitsBare a (withLimits mandate l) nowSecs ↔
      PermitsBare a (withLimits mandate unlimited) nowSecs ∧ Allows mandate l a := by
  have hle : ∀ x : UInt64, x ≤ 18446744073709551615 := by
    intro x
    have := x.toNat_lt
    rw [UInt64.le_iff_toNat_le]
    show x.toNat ≤ 18446744073709551615
    omega
  constructor
  -- the limits only enter the last two rules
  · rintro ⟨h, hc, hk⟩
    refine ⟨⟨⟨h.active, h.unexpired, h.kind, h.asset, h.counterparty, h.issuer, hle _, ?_⟩, hc, hk⟩,
      h.amount, ?_⟩
    · intro cp limit _ hlimit
      rw [withLimits, lookup_map_self] at hlimit
      split_ifs at hlimit
      obtain rfl := Option.some.inj hlimit
      exact hle _
    · intro cp hcp hmem
      refine h.subLimit cp _ hcp ?_
      rw [withLimits, lookup_map_self, if_pos hmem]
  · rintro ⟨⟨h, hc, hk⟩, hmax, hcounter⟩
    refine ⟨⟨h.active, h.unexpired, h.kind, h.asset, h.counterparty, h.issuer, hmax, ?_⟩, hc, hk⟩
    intro cp limit hcp hlimit
    rw [withLimits, lookup_map_self] at hlimit
    split_ifs at hlimit with hmem
    obtain rfl := Option.some.inj hlimit
    exact hcounter cp hcp hmem

/-! ## The property -/

/-- The signature stays within the mandate: at the decimals `D` that tokens really have, its
value is within the highest amount and within every limit of its payee, and it pays the
counterparty of an approved action. -/
structure Within (P : Platform) (D : String → ℕ) (mandate : Mandate) (t : List ClientEvent)
    (domain : Eip712Domain) (authorization : Authorization) : Prop where
  value : ∃ value : ℕ, stringToBigInt authorization.value = some (value : ℤ) ∧
    value ≤ mandate.maxAmountCents.toNat * 10 ^ (D domain.verifyingContract - 2) ∧
    ∀ k limit, (k, limit) ∈ mandate.counterpartyLimits →
      P.getAddress k = some authorization.toAddress →
      value ≤ limit.toNat * 10 ^ (D domain.verifyingContract - 2)
  payee : ∃ action requirement challenge counterparty,
    Approves t action requirement challenge ∧ action.counterparty = .string counterparty ∧
      P.getAddress counterparty = some authorization.toAddress

/-! ## The condition -/

/-- What a challenge asks for, in numbers: the decimals it declares, its amount as the price
is computed from it and as the signature carries it, and whom it pays in which token. -/
structure Terms where
  decimals : ℕ
  price : ℕ
  value : ℕ
  contract : String
  counterparty : String
  payee : String

/-- The terms of a requirement and of what the client derives from it. -/
structure HasTerms (P : Platform) (q : Quote) (terms : Terms) : Prop where
  decimals : declaredDecimals ((q.requirement.get? "extra").get? "decimals") = some terms.decimals
  price : (q.requirement.get "amount" >>= Value.toBigInt) = .ok (terms.price : ℤ)
  value : stringToBigInt q.value = some (terms.value : ℤ)
  contract : q.domain.verifyingContract = terms.contract
  counterparty : q.action.counterparty = .string terms.counterparty
  payee : P.getAddress terms.counterparty = some terms.payee

/-- The client can pay the challenge on these terms, and the lists of the mandate permit it
at some time. -/
def Payable (P : Platform) (opts : Options) (mandate : Mandate) (challenge : Value)
    (terms : Terms) : Prop :=
  ∃ q a nowSecs, Quotes P opts challenge q ∧ HasTerms P q terms ∧ Encodable q.domain q.value ∧
    gateAction q.action = some a ∧ PermitsBare a (withLimits mandate unlimited) nowSecs

/-- The terms of a challenge whose signature stays within the limits of a mandate. -/
structure Sound (P : Platform) (D : String → ℕ) (mandate : Mandate) (terms : Terms) : Prop where
  /-- At most one real cent, or too few decimals declared, or the right number of them and a
  price that the gate reads in full. -/
  scale : terms.value ≤ 10 ^ (D terms.contract - 2) ∨ terms.decimals < D terms.contract ∨
    (terms.decimals = D terms.contract ∧
      wholeCents terms.value (10 ^ (terms.decimals - 2)) ≤
        shownCents terms.price (10 ^ (terms.decimals - 2)))
  /-- The mandate limits the payee under no other spelling of the address. -/
  spelling : terms.value = 0 ∨ ∀ k ∈ mandate.counterpartyLimits.map Prod.fst,
    P.getAddress k = some terms.payee → k = terms.counterparty

/-! ## From a run to its terms -/

section Terms

variable {C : Crates} {P : Platform} {opts : Options} {mandate : Mandate} {challenge : Value}
  {q : Quote} {terms : Terms} {a : Gate.Action}

/-- A payment that the wallet can encode has terms. -/
theorem exists_terms (hopts : opts.decimals = .undefined) (hq : Quotes P opts challenge q)
    (he : Encodable q.domain q.value) : ∃ terms, HasTerms P q terms := by
  have haction := hq.action
  rw [hopts] at haction
  obtain ⟨d, price, hd, hprice, _, hpayTo⟩ := actionForRequirement_spec haction
  obtain ⟨value, hvalue, _⟩ := he.value
  have hto := hq.toAddress
  rw [hpayTo] at hto
  obtain ⟨cp, payee, hcp, hpayee⟩ : ∃ cp payee, q.action.counterparty = .string cp ∧
      P.getAddress cp = some payee := by
    change addressOf P q.action.counterparty = _ at hto
    unfold addressOf at hto
    split at hto
    · split at hto
      · exact ⟨_, _, by assumption, by assumption⟩
      · cases hto
    · cases hto
  exact ⟨⟨d, price, value, q.domain.verifyingContract, cp, payee⟩,
    ⟨hd, hprice, hvalue, rfl, hcp, hpayee⟩⟩

/-- What the gate and the signature make of the terms. -/
structure Settled (q : Quote) (a : Gate.Action) (terms : Terms) : Prop where
  decimals : 2 ≤ terms.decimals
  near : Near terms.value terms.price
  cents : a.amountCents.toNat = shownCents terms.price (10 ^ (terms.decimals - 2))
  counterparty : ∃ cp : RString, a.counterparty = some cp ∧ cp.val = terms.counterparty
  payee : q.toAddress = terms.payee

theorem HasTerms.settled (ht : HasTerms P q terms) (hopts : opts.decimals = .undefined)
    (hq : Quotes P opts challenge q) (ha : gateAction q.action = some a) :
    Settled q a terms := by
  have haction := hq.action
  rw [hopts] at haction
  obtain ⟨d, price, hd, hprice, hcents, hpayTo⟩ := actionForRequirement_spec haction
  obtain rfl : d = terms.decimals := Option.some.inj (hd.symm.trans ht.decimals)
  obtain rfl : price = terms.price := by
    have h := hprice.symm.trans ht.price
    exact_mod_cast Except.ok.inj h
  obtain ⟨_, hamount, hcounterparty⟩ := gateAction_spec ha
  rw [hcents] at hamount
  obtain ⟨amount, hget, hbig⟩ := bind_eq_ok.mp ht.price
  obtain ⟨amount', hget', htext⟩ := bind_eq_ok.mp hq.value
  obtain rfl : amount = amount' := Except.ok.inj (hget.symm.trans hget')
  have hto := hq.toAddress
  rw [hpayTo, ht.counterparty] at hto
  change addressOf P (.string terms.counterparty) = _ at hto
  rw [addressOf, ht.payee] at hto
  exact ⟨two_le_of_declaredDecimals hd, near_toBigInt_text hbig htext ht.value,
    jsonU64_ofNat hamount, hcounterparty _ ht.counterparty, (Except.ok.inj hto).symm⟩

/-- The terms of an honest server are sound, for amounts that a text or a double shows in
full. -/
theorem HasTerms.sound_of_declared {D : String → ℕ} (ht : HasTerms P q terms)
    (hq : Quotes P opts challenge q) (hdecimals : terms.decimals = D terms.contract)
    (hcents : wholeCents terms.price (10 ^ (terms.decimals - 2)) < 2 ^ 53)
    (hamount : terms.price < 2 ^ 53 ∨ ∃ s, q.requirement.get "amount" = .ok (.string s))
    (hspelling : ∀ k ∈ mandate.counterpartyLimits.map Prod.fst,
      P.getAddress k = some terms.payee → k = terms.counterparty) :
    Sound P D mandate terms := by
  obtain ⟨amount, hget, hbig⟩ := bind_eq_ok.mp ht.price
  obtain ⟨amount', hget', htext⟩ := bind_eq_ok.mp hq.value
  obtain rfl : amount = amount' := Except.ok.inj (hget.symm.trans hget')
  have hread : terms.value = terms.price := by
    refine toBigInt_text_eq hbig htext ht.value (hamount.imp_right ?_)
    rintro ⟨s, hs⟩
    exact ⟨s, Except.ok.inj (hget.symm.trans hs)⟩
  refine ⟨.inr (.inr ⟨hdecimals, ?_⟩), .inr hspelling⟩
  rw [shownCents, printed_of_lt hcents, hread]

end Terms

/-! ## A run for every payable challenge -/

open Classical in
/-- A server that charges with `challenge`, a gate that approves what it may approve, and a
wallet that signs what it can encode. -/
noncomputable def obligingAnswer (C : Crates) (mandate : Mandate) (challenge : Value) :
    (op : ClientOp) → op.Res
  | .fetch _ none => .ok ⟨402, challenge, none, .null⟩
  | .fetch _ (some _) => .error .typeError
  | .decide action _ _ =>
    if h : ∃ v, GateAnswer C mandate action (.ok v) ∧ isApproval v = true then .ok h.choose
    else .error .typeError
  | .nowSecs => 0
  | .getAddress => .ok ""
  | .randomBytes => ""
  | .signTypedData domain authorization =>
    if Encodable domain authorization.value then .ok "" else .error .typeError
  | .settle _ _ => .error .typeError

theorem lawful_obligingAnswer (C : Crates) (mandate : Mandate) (challenge : Value)
    (op : ClientOp) : Lawful C mandate op (obligingAnswer C mandate challenge op) := by
  cases op with
  | decide action requirement challenge' =>
    show GateAnswer C mandate action
      (obligingAnswer C mandate challenge (.decide action requirement challenge'))
    rw [obligingAnswer]
    split_ifs with h
    · exact h.choose_spec.1
    · trivial
  | signTypedData domain authorization =>
    intro s hs
    rw [obligingAnswer] at hs
    split_ifs at hs with h
    exact h
  | fetch | nowSecs | getAddress | randomBytes | settle => trivial

theorem exists_signing_run {C : Crates} {P : Platform} {opts : Options} {mandate : Mandate}
    {challenge : Value} {q : Quote} {a : Gate.Action} {nowSecs : UInt64} (url : String)
    (hq : Quotes P opts challenge q) (he : Encodable q.domain q.value)
    (ha : gateAction q.action = some a) (hpermits : PermitsBare a mandate nowSecs) :
    ∃ t r authorization, Emits (fetchWithMandate P url opts) t r ∧ Charged challenge t ∧
      Gated C mandate t ∧ Signs t q.domain authorization ∧ authorization.value = q.value ∧
      authorization.toAddress = q.toAddress := by
  obtain ⟨first, hfirst⟩ : ∃ first : Response, first = ⟨402, challenge, none, .null⟩ := ⟨_, rfl⟩
  -- the challenge travels in the header, so it is what the client reads back
  have hread : readChallenge first = challenge := by
    rw [hfirst, readChallenge, if_pos hq.present]
  subst hread
  have hoffer := exists_approval C ha hpermits
  obtain ⟨authorization, hauth⟩ : ∃ authorization, authorization =
      authorizationAt 0 "" q.toAddress q.value "" := ⟨_, rfl⟩
  have hvalue : authorization.value = q.value := by rw [hauth, authorizationAt]
  have hsigning : Signing P url opts q first (obligingAnswer C mandate (readChallenge first))
      authorization := by
    refine ⟨by rw [obligingAnswer, ← hfirst], ?_, ⟨"", rfl, hauth⟩, "", ?_⟩
    · rw [obligingAnswer, dif_pos hoffer]
      exact ⟨_, rfl, hoffer.choose_spec.2⟩
    · rw [obligingAnswer, hvalue, if_pos he]
  obtain ⟨hcharged, hsigns⟩ := signs_run hq (by rw [hfirst]) hsigning
  refine ⟨_, _, authorization, emits_run _ _, hcharged, ?_, hsigns, hvalue,
    by rw [hauth, authorizationAt]⟩
  intro e he
  rw [agrees_run _ _ e he]
  exact lawful_obligingAnswer _ _ _ _

/-! ## The result -/

section Result

variable {C : Crates} {P : Platform} {url : String} {opts : Options} {D : String → ℕ}
  {mandate : Mandate} {challenge : Value} {terms : Terms} {t : List ClientEvent}
  {domain : Eip712Domain} {authorization : Authorization}

/-- An approval and a signature of a gated run come from a payable challenge. -/
theorem payable_of_signs {l : Limits} {r : Except Error FetchResult}
    (hopts : opts.decimals = .undefined) (h : Emits (fetchWithMandate P url opts) t r)
    (hcharged : Charged challenge t) (hgated : Gated C (withLimits mandate l) t)
    (hsigns : Signs t domain authorization) :
    ∃ q a terms nowSecs, Quotes P opts challenge q ∧ HasTerms P q terms ∧
      Encodable q.domain q.value ∧ gateAction q.action = some a ∧
      PermitsBare a (withLimits mandate l) nowSecs ∧
      Approves t q.action q.requirement challenge ∧ SignedFor q domain authorization := by
  obtain ⟨challenge', q, hcharged', hq, happroves, hsigned⟩ := signs_spec h hsigns
  obtain rfl := charged_unique hcharged hcharged'
  obtain ⟨v, hv, happroval⟩ := happroves
  obtain ⟨s, hs⟩ := hsigns
  have he : Encodable q.domain q.value := by
    have := hgated _ hs s rfl
    rwa [hsigned.domain, hsigned.value] at this
  obtain ⟨a, nowSecs, ha, hpermits⟩ := GateAnswer.permits (hgated _ hv) happroval
  obtain ⟨terms, hterms⟩ := exists_terms hopts hq he
  exact ⟨q, a, terms, nowSecs, hq, hterms, he, ha, hpermits, ⟨v, hv, happroval⟩, hsigned⟩

/-- Sound terms keep a signature within the limits that approved it. -/
theorem Sound.within {l : Limits} {q : Quote} {a : Gate.Action} (hD : ∀ c, 2 ≤ D c)
    (hsound : Sound P D mandate terms) (hterms : HasTerms P q terms) (hs : Settled q a terms)
    (hallows : Allows mandate l a)
    (happroves : ∃ requirement, Approves t q.action requirement challenge)
    (hsigned : SignedFor q domain authorization) :
    Within P D (withLimits mandate l) t domain authorization := by
  -- the cents that were approved cover the value, and every limit covers the cents
  have hcover : terms.value ≤ a.amountCents.toNat * 10 ^ (D terms.contract - 2) := by
    rw [hs.cents]
    exact (covers_iff hs.decimals (hD _) hs.near).mpr hsound.scale
  have hle : ∀ limit : UInt64, a.amountCents ≤ limit →
      terms.value ≤ limit.toNat * 10 ^ (D domain.verifyingContract - 2) := by
    intro limit hlimit
    rw [hsigned.domain, hterms.contract]
    exact hcover.trans (Nat.mul_le_mul_right _ (UInt64.le_iff_toNat_le.mp hlimit))
  have hto : authorization.toAddress = terms.payee := hsigned.toAddress.trans hs.payee
  refine ⟨⟨terms.value, by rw [hsigned.value, hterms.value], hle _ hallows.max, ?_⟩, ?_⟩
  · intro k limit hmem hk
    obtain ⟨e, he, heq⟩ := List.mem_map.mp hmem
    cases heq
    rcases hsound.spelling with hzero | hspelling
    · rw [hzero]
      exact Nat.zero_le _
    -- a limit of the payee is the limit of the counterparty that was approved
    · obtain ⟨cp, hcp, hval⟩ := hs.counterparty
      have hkey : e.1 = cp.val :=
        (hspelling e.1 (List.mem_map_of_mem he) (hto ▸ hk)).trans hval.symm
      rw [hkey]
      exact hle _ (hallows.counterparty cp hcp (hkey ▸ List.mem_map_of_mem he))
  · obtain ⟨requirement, happroves⟩ := happroves
    exact ⟨q.action, requirement, challenge, terms.counterparty, happroves, hterms.counterparty,
      by rw [hto, hterms.payee]⟩

/-- Payable terms that stay within every choice of limits are sound. -/
theorem sound_of_within (hD : ∀ c, 2 ≤ D c) {q : Quote} {a : Gate.Action}
    (hterms : HasTerms P q terms) (hs : Settled q a terms)
    (hwithin : ∀ l, Allows mandate l a → ∃ t authorization, authorization.value = q.value ∧
      authorization.toAddress = q.toAddress ∧
      Within P D (withLimits mandate l) t q.domain authorization) :
    Sound P D mandate terms := by
  have hvalue : ∀ {x : ℕ} {authorization : Authorization}, authorization.value = q.value →
      stringToBigInt authorization.value = some (x : ℤ) → x = terms.value := by
    intro x authorization hauth hx
    rw [hauth, hterms.value] at hx
    exact_mod_cast (Option.some.inj hx).symm
  refine ⟨?_, ?_⟩
  -- the tightest limits that still allow the action
  · obtain ⟨t, authorization, hauth, _, ⟨x, hx, hmax, _⟩, _⟩ :=
      hwithin ⟨a.amountCents, fun _ => a.amountCents⟩
        ⟨UInt64.le_refl _, fun _ _ _ => UInt64.le_refl _⟩
    obtain rfl := hvalue hauth hx
    rw [hterms.contract] at hmax
    rw [← covers_iff hs.decimals (hD _) hs.near, ← hs.cents]
    exact hmax
  · obtain ⟨cp, hcp, hval⟩ := hs.counterparty
    by_contra hnot
    obtain ⟨hne, hnot⟩ := not_or.mp hnot
    simp only [not_forall] at hnot
    obtain ⟨k, hk, hpayee, hother⟩ := hnot
    -- every other counterparty is limited to nothing
    obtain ⟨t, authorization, hauth, hto, ⟨x, hx, _, hlimits⟩, _⟩ :=
      hwithin ⟨a.amountCents, fun k => if k = terms.counterparty then a.amountCents else 0⟩
        ⟨UInt64.le_refl _, fun cp' hcp' _ => by
          obtain rfl : cp = cp' := Option.some.inj (hcp.symm.trans hcp')
          simp [hval]⟩
    obtain rfl := hvalue hauth hx
    obtain ⟨e, he, rfl⟩ := List.mem_map.mp hk
    have hzero := hlimits e.1 0 (List.mem_map.mpr ⟨e, he, by simp [hother]⟩)
      (by rw [hto, hs.payee, hpayee])
    rw [UInt64.toNat_zero, Nat.zero_mul, Nat.le_zero] at hzero
    exact hne hzero

/-- Whatever its limits, a mandate is kept by every signature for a challenge exactly when
every terms it lets the client pay the challenge on are sound. -/
theorem signed_within_iff (C : Crates) (P : Platform) (url : String) (opts : Options)
    (D : String → ℕ) (mandate : Mandate) (challenge : Value) (hopts : opts.decimals = .undefined)
    (hD : ∀ c, 2 ≤ D c) :
    (∀ l t r domain authorization, Emits (fetchWithMandate P url opts) t r →
        Charged challenge t → Gated C (withLimits mandate l) t → Signs t domain authorization →
        Within P D (withLimits mandate l) t domain authorization) ↔
      ∀ terms, Payable P opts mandate challenge terms → Sound P D mandate terms := by
  constructor
  -- limits that allow the action give a run that signs, and the run is within them
  · rintro h terms ⟨q, a, nowSecs, hq, hterms, he, ha, hpermits⟩
    refine sound_of_within hD hterms (hterms.settled hopts hq ha) fun l hallows => ?_
    obtain ⟨t, r, authorization, hemits, hcharged, hgated, hsigns, hvalue, hto⟩ :=
      exists_signing_run url hq he ha (permitsBare_withLimits.mpr ⟨hpermits, hallows⟩)
    exact ⟨t, authorization, hvalue, hto, h l t r _ _ hemits hcharged hgated hsigns⟩
  · intro h l t r domain authorization hemits hcharged hgated hsigns
    obtain ⟨q, a, terms, nowSecs, hq, hterms, he, ha, hpermits, happroves, hsigned⟩ :=
      payable_of_signs hopts hemits hcharged hgated hsigns
    obtain ⟨hfree, hallows⟩ := permitsBare_withLimits.mp hpermits
    exact (h terms ⟨q, a, nowSecs, hq, hterms, he, ha, hfree⟩).within hD hterms
      (hterms.settled hopts hq ha) hallows ⟨q.requirement, happroves⟩ hsigned

end Result

theorem signed_within_iff_sample :
    Payable samplePlatform {} paymentMandate honestCharge.challenge
        ⟨6, 10000, 10000, sepoliaUsdc, samplePayee, samplePayee⟩ ∧
      ((∀ l t r domain authorization,
          Emits (fetchWithMandate samplePlatform "https://api.example/quote" {}) t r →
          Charged honestCharge.challenge t → Gated sampleCrates (withLimits paymentMandate l) t →
          Signs t domain authorization →
          Within samplePlatform sampleDecimals (withLimits paymentMandate l) t domain
            authorization) ↔
        ∀ terms, Payable samplePlatform {} paymentMandate honestCharge.challenge terms →
          Sound samplePlatform sampleDecimals paymentMandate terms) := by
  refine ⟨⟨honestCharge.quote 1 84532, oneCent, 0,
    honestCharge_quotes, ⟨rfl, rfl, by decide, rfl, rfl, by decide⟩,
    Charge.encodable (by omega) (show _ = some ((10000 : ℕ) : ℤ) by decide) (by decide),
    gateAction_oneCent, ?_⟩, ?_⟩
  · have h : PermitsBare oneCent (withLimits paymentMandate ⟨5, fun _ => 5⟩) 0 :=
      paymentMandate_permits
    exact (permitsBare_withLimits.mp h).1
  · exact signed_within_iff sampleCrates samplePlatform "https://api.example/quote" {}
      sampleDecimals paymentMandate honestCharge.challenge rfl fun _ => (by decide : 2 ≤ 6)

/-- Five dollars of USDC, declared as a token with eighteen decimals. -/
def overcharge : Charge where
  asset := sepoliaUsdc
  network := "eip155:84532"
  amount := "5000000"
  decimals := smallNumber 18 (by omega)

theorem overcharge_quotes :
    Quotes samplePlatform {} overcharge.challenge (overcharge.quote 1 84532) :=
  Charge.quotes (by decide +kernel) (by decide) (by decide)

theorem overcharge_encodable :
    Encodable (overcharge.quote 1 84532).domain (overcharge.quote 1 84532).value :=
  Charge.encodable (by omega) (show _ = some ((5000000 : ℕ) : ℤ) by decide) (by decide)

/-- The mandate allows five cents, is shown one, and five dollars are signed. -/
theorem overcharge_not_within :
    ∃ t r domain authorization,
      Emits (fetchWithMandate samplePlatform "https://api.example/quote" {}) t r ∧
      Charged overcharge.challenge t ∧ Gated sampleCrates paymentMandate t ∧
      Signs t domain authorization ∧
      ¬ Within samplePlatform sampleDecimals paymentMandate t domain authorization := by
  obtain ⟨t, r, authorization, hemits, hcharged, hgated, hsigns, hvalue, _⟩ :=
    exists_signing_run "https://api.example/quote" overcharge_quotes overcharge_encodable
      gateAction_oneCent paymentMandate_permits
  refine ⟨t, r, _, authorization, hemits, hcharged, hgated, hsigns, ?_⟩
  rintro ⟨⟨value, hread, hmax, _⟩, _⟩
  have hfive : stringToBigInt authorization.value = some ((5000000 : ℕ) : ℤ) := by
    rw [hvalue]
    decide
  obtain rfl : value = 5000000 := by
    rw [hfive] at hread
    exact_mod_cast (Option.some.inj hread).symm
  exact absurd hmax (by decide)

end Gatekeeper.Agent
