import Gatekeeper.Gate.ExecuteTheorems
import Gatekeeper.Gate.SampleTenant

/-!
# What an approval authorises

What leaves the enclave compared across two requests: the content sent, where the
credential goes, and which actions one credential binding vouches for.
-/

namespace Gatekeeper.Gate

open Encoding Interaction Text

/-! ## The request that leaves -/

theorem payloadOf_injective : Function.Injective payloadOf := by
  intro b b' h
  unfold payloadOf at h
  split at h
  · rename_i hb
    split at h
    · rename_i hb'
      rw [hb, hb']
    · cases h
  · split at h
    · cases h
    · exact utf8_injective (Option.some.inj h)

/-- A call that left the enclave was made by a dispatch, with the request's own content. -/
theorem outbound_of_run {C : Crates} {answer : Answers} {req : ExecuteReq} {o : Request}
    (h : o ∈ outboundCalls (run answer (executeActionWasm C req)).1) :
    Dispatched C req (run answer (executeActionWasm C req)).1
        (run answer (executeActionWasm C req)).2 ∧
      ∃ headers, o = outboundRequest req headers := by
  have hd := dispatched_of_emits (emits_run answer (executeActionWasm C req))
    (List.ne_nil_of_mem h)
  obtain ⟨headers, hcalls⟩ := hd.one_call
  rw [hcalls, List.mem_singleton] at h
  exact ⟨hd, headers, h⟩

/-- What two requests send is the same exactly when the caller gave them the same body and
methods naming the same verb. The approved action has no part in it. -/
theorem outbound_content_eq_iff {C : Crates} {answer₁ answer₂ : Answers}
    {q₁ q₂ : ExecuteReq} {o₁ o₂ : Request}
    (h₁ : o₁ ∈ outboundCalls (run answer₁ (executeActionWasm C q₁)).1)
    (h₂ : o₂ ∈ outboundCalls (run answer₂ (executeActionWasm C q₂)).1) :
    (o₁.method = o₂.method ∧ o₁.payload = o₂.payload) ↔
      (verbOf q₁.method = verbOf q₂.method ∧ q₁.body = q₂.body) := by
  obtain ⟨-, headers₁, rfl⟩ := outbound_of_run h₁
  obtain ⟨-, headers₂, rfl⟩ := outbound_of_run h₂
  exact and_congr_right fun _ => payloadOf_injective.eq_iff

theorem sampleReq_sent : outboundRequest sampleReq sampleHeaders ∈
    outboundCalls (run sampleAnswers (executeActionWasm sampleCrates sampleReq)).1 :=
  sampleAction_sent rfl rfl (by decide) ⟨_, rfl⟩

theorem sampleReqOtherBody_sent : outboundRequest sampleReqOtherBody sampleHeaders ∈
    outboundCalls (run sampleAnswers (executeActionWasm sampleCrates sampleReqOtherBody)).1 :=
  sampleAction_sent rfl rfl (by decide) ⟨_, rfl⟩

theorem outbound_content_eq_iff_sample :
    ((outboundRequest sampleReq sampleHeaders).method =
        (outboundRequest sampleReqOtherBody sampleHeaders).method ∧
      (outboundRequest sampleReq sampleHeaders).payload =
        (outboundRequest sampleReqOtherBody sampleHeaders).payload) ↔
      (verbOf sampleReq.method = verbOf sampleReqOtherBody.method ∧
        sampleReq.body = sampleReqOtherBody.body) :=
  @outbound_content_eq_iff sampleCrates sampleAnswers sampleAnswers _ _ _ _
    sampleReq_sent sampleReqOtherBody_sent

/-- One action with one valid binding sends two different orders. -/
theorem outbound_content_not_fixed :
    ¬ ∀ (C : Crates) (answer : Answers) (q₁ q₂ : ExecuteReq) (b : CredentialBinding)
      (o₁ o₂ : Request), q₁.action = q₂.action → q₁.credential = some b →
      q₂.credential = some b → Binds C b q₁.action →
      o₁ ∈ outboundCalls (run answer (executeActionWasm C q₁)).1 →
      o₂ ∈ outboundCalls (run answer (executeActionWasm C q₂)).1 →
      o₁.method = o₂.method ∧ o₁.payload = o₂.payload := by
  intro h
  have hsame := h sampleCrates sampleAnswers sampleReq sampleReqOtherBody _
    (outboundRequest sampleReq sampleHeaders) (outboundRequest sampleReqOtherBody sampleHeaders)
    rfl rfl rfl (binds_bindingFor (by decide) rfl) sampleReq_sent sampleReqOtherBody_sent
  exact absurd hsame.2 (by decide)

/-! ## Where the credential goes -/

/-- Two requests send the tenant's credential to the same place exactly when the caller gave
them the same url: the mandate and the secrets do not fix the destination. -/
theorem credential_destination_eq_iff {C : Crates} {answer₁ answer₂ : Answers}
    {q₁ q₂ : ExecuteReq} {mandate : Mandate} {secret : String} {o₁ o₂ : Request}
    (hm₁ : answer₁.mandate C = .ok mandate) (hm₂ : answer₂.mandate C = .ok mandate)
    (hkey : mandate.credentialKey ≠ "")
    (hs₁ : answer₁.secret mandate.credentialKey = .ok (some (utf8 secret)))
    (hs₂ : answer₂.secret mandate.credentialKey = .ok (some (utf8 secret)))
    (h₁ : o₁ ∈ outboundCalls (run answer₁ (executeActionWasm C q₁)).1)
    (h₂ : o₂ ∈ outboundCalls (run answer₂ (executeActionWasm C q₂)).1) :
    o₁.headers = some [("Authorization", s!"Bearer {secret}")] ∧
      o₂.headers = some [("Authorization", s!"Bearer {secret}")] ∧
      (o₁.url = o₂.url ↔ q₁.url = q₂.url) := by
  -- each of the two requests carries the tenant's secret to its own url
  have hcarries : ∀ {answer : Answers} {q : ExecuteReq} {o : Request},
      answer.mandate C = .ok mandate →
      answer.secret mandate.credentialKey = .ok (some (utf8 secret)) →
      o ∈ outboundCalls (run answer (executeActionWasm C q)).1 →
      o = outboundRequest q (some [("Authorization", s!"Bearer {secret}")]) := by
    intro answer q o hm hs ho
    obtain ⟨headers, hcalls, -, hbearer⟩ :=
      (outbound_of_run ho).1.sends (agrees_run answer (executeActionWasm C q)) hm
    obtain ⟨v, hv, rfl⟩ := hbearer hkey
    rw [hs] at hv
    obtain rfl : secret = v := utf8_injective (Option.some.inj (Except.ok.inj hv))
    rw [hcalls, List.mem_singleton] at ho
    exact ho
  rw [hcarries hm₁ hs₁ h₁, hcarries hm₂ hs₂ h₂]
  exact ⟨rfl, rfl, Iff.rfl⟩

/-- The sample request aimed at another host. -/
def sampleReqOtherUrl : ExecuteReq := { sampleReq with url := "https://collector.example/" }

theorem sampleReqOtherUrl_sent : outboundRequest sampleReqOtherUrl sampleHeaders ∈
    outboundCalls (run sampleAnswers (executeActionWasm sampleCrates sampleReqOtherUrl)).1 :=
  sampleAction_sent rfl rfl (by decide) ⟨_, rfl⟩

theorem credential_destination_eq_iff_sample :
    sampleHeaders = some [("Authorization", "Bearer s3cret")] ∧
      sampleHeaders = some [("Authorization", "Bearer s3cret")] ∧
      ((outboundRequest sampleReq sampleHeaders).url =
          (outboundRequest sampleReqOtherUrl sampleHeaders).url ↔
        sampleReq.url = sampleReqOtherUrl.url) :=
  credential_destination_eq_iff sampleAnswers_mandate sampleAnswers_mandate (by decide)
    sampleAnswers_secret sampleAnswers_secret sampleReq_sent sampleReqOtherUrl_sent

/-- The caller can have the credential sent to a host of its own. -/
theorem credential_destination_not_fixed :
    ¬ ∀ (C : Crates) (answer : Answers) (q₁ q₂ : ExecuteReq) (mandate : Mandate)
      (o₁ o₂ : Request), answer.mandate C = .ok mandate → mandate.credentialKey ≠ "" →
      o₁ ∈ outboundCalls (run answer (executeActionWasm C q₁)).1 →
      o₂ ∈ outboundCalls (run answer (executeActionWasm C q₂)).1 →
      o₁.url = o₂.url := by
  intro h
  have hsame := h sampleCrates sampleAnswers sampleReq sampleReqOtherUrl sampleMandate _ _
    sampleAnswers_mandate (by decide) sampleReq_sent sampleReqOtherUrl_sent
  exact absurd hsame (by decide)

/-! ## What a binding vouches for -/

/-- An absent counterparty is hashed as the empty text. -/
def counterpartyText (action : Action) : String := (action.counterparty.map (·.val)).getD ""

/-- The fields of an action that its digest covers, read back from the digest's parts. -/
theorem fields_eq_of_actionParts {a₁ a₂ : Action} (h : actionParts a₁ = actionParts a₂) :
    a₁.kind = a₂.kind ∧ a₁.asset = a₂.asset ∧ a₁.amountCents = a₂.amountCents ∧
      counterpartyText a₁ = counterpartyText a₂ := by
  simp only [actionParts, List.cons.injEq, and_true] at h
  obtain ⟨hkind, hasset, hamount, hcounterparty⟩ := h
  exact ⟨RString.ext hkind, RString.ext hasset, toString_amount_inj hamount, hcounterparty⟩

/-- A binding cannot be moved to another action or issuer, and under a mandate that requires
one and names its issuers, every approval has a binding from one of them. -/
theorem binding_fixes_action (C : Crates) (mandate : Mandate)
    (hrequire : mandate.requireCredential = true) :
    (∀ (a₁ a₂ : Action) (b : CredentialBinding), CollisionFree C b a₁ a₂ →
      checkBinding C (some b) a₁ mandate.requireCredential = .ok () →
      checkBinding C (some b) a₂ mandate.requireCredential = .ok () →
      a₁.kind = a₂.kind ∧ a₁.asset = a₂.asset ∧ a₁.amountCents = a₂.amountCents ∧
      counterpartyText a₁ = counterpartyText a₂ ∧
      (∀ i, a₁.issuer = some i → i = b.issuer) ∧ (∀ i, a₂.issuer = some i → i = b.issuer)) ∧
    (mandate.allowedIssuers ≠ [] → "*" ∉ mandate.allowedIssuers →
      ∀ (answer : Answers) (req : ExecuteReq) (out : ExecuteOut),
      answer.mandate C = .ok mandate → (run answer (executeActionWasm C req)).2 = .ok out →
      out.decision = "approved" →
      ∃ b, req.credential = some b ∧ b.issuer.val ∈ mandate.allowedIssuers ∧
        b.commitment.val = expectedCommitment C b req.action) := by
  refine ⟨?_, ?_⟩
  · intro a₁ a₂ b hC h₁ h₂
    rw [checkBinding_some] at h₁ h₂
    have hparts := actionParts_eq_of_commitment hC (h₁.commitment.symm.trans h₂.commitment)
    obtain ⟨hkind, hasset, hamount, hcounterparty⟩ := fields_eq_of_actionParts hparts
    exact ⟨hkind, hasset, hamount, hcounterparty, h₁.issuer, h₂.issuer⟩
  -- the action names a listed issuer, and its binding names the same one
  · intro hissuers hwild answer req out hm hout hdecision
    have hexec := execution_of_emits (emits_run answer (executeActionWasm C req))
    rw [hout] at hexec
    have hpasses := (hexec.approved_iff (agrees_run answer _) hm).mp hdecision
    obtain ⟨iss, hiss, hlisted⟩ := hpasses.permitted.issuer hissuers
    have hbinding := hpasses.binding
    cases hcred : req.credential with
    | none =>
      rw [hcred, checkBinding_none, hrequire] at hbinding
      cases hbinding
    | some b =>
      rw [hcred, checkBinding_some] at hbinding
      refine ⟨b, rfl, ?_, hbinding.commitment⟩
      rw [← hbinding.issuer iss hiss]
      exact hlisted.resolve_left hwild

/-- The sample action without the name of its issuer, which no digest covers. -/
def sampleActionUnnamed : Action := { sampleAction with issuer := none }

def sampleBinding : CredentialBinding := bindingFor sampleCrates sampleNonce sampleAction

theorem binds_sampleAction : Binds sampleCrates sampleBinding sampleAction :=
  binds_bindingFor (by decide) rfl

theorem binds_sampleActionUnnamed : Binds sampleCrates sampleBinding sampleActionUnnamed where
  nonce := by decide
  commitment := by
    have hparts : actionParts sampleActionUnnamed = actionParts sampleAction := rfl
    rw [expectedCommitment, commitmentParts, actionDigest, hparts]
    exact binds_sampleAction.commitment
  issuer := by rintro i ⟨⟩

theorem collisionFree_sample :
    CollisionFree sampleCrates sampleBinding sampleAction sampleActionUnnamed := by
  have hset : bindingPreimages sampleCrates sampleBinding sampleActionUnnamed =
      bindingPreimages sampleCrates sampleBinding sampleAction := rfl
  rw [CollisionFree, hset, Set.union_self, bindingPreimages, Set.injOn_pair]
  intro h
  exact absurd h (by decide +kernel)

theorem binding_fixes_action_sample :
    (sampleAction.kind = sampleActionUnnamed.kind ∧
      sampleAction.asset = sampleActionUnnamed.asset ∧
      sampleAction.amountCents = sampleActionUnnamed.amountCents ∧
      counterpartyText sampleAction = counterpartyText sampleActionUnnamed ∧
      (∀ i, sampleAction.issuer = some i → i = sampleBinding.issuer) ∧
      (∀ i, sampleActionUnnamed.issuer = some i → i = sampleBinding.issuer)) ∧
    ∃ b, sampleReq.credential = some b ∧ b.issuer.val ∈ sampleMandate.allowedIssuers ∧
      b.commitment.val = expectedCommitment sampleCrates b sampleReq.action := by
  obtain ⟨out, hout, hdecision⟩ :=
    (@sampleAction_dispatched sampleReq _ rfl rfl (by decide) ⟨_, rfl⟩).approved
  have hfixes := binding_fixes_action sampleCrates sampleMandate rfl
  exact ⟨hfixes.1 _ _ _ collisionFree_sample (checkBinding_some.mpr binds_sampleAction)
      (checkBinding_some.mpr binds_sampleActionUnnamed),
    hfixes.2 (by decide) (by decide) _ _ _ sampleAnswers_mandate hout hdecision⟩

end Gatekeeper.Gate
