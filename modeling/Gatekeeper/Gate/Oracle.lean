import Gatekeeper.Gate.GateCli
import Gatekeeper.Gate.SampleTenant

/-!
# `gate_cli` as an oracle for the enclave

The contract and the host binary put the same checks together in two places. Their verdicts
are compared once, on the checks alone; what an invocation goes on to read, send or replay
does not touch the verdict it reports.
-/

namespace Gatekeeper.Gate

open Encoding Interaction

/-- What `gate_cli` is given for a request, under a mandate and at a time. -/
def ExecuteReq.toCli (req : ExecuteReq) (mandate : Mandate) (nowSecs : UInt64) : CliReq where
  action := req.action
  mandate := mandate
  nowSecs := nowSecs
  credential := req.credential
  idempotencyKey := req.idempotencyKey

/-- The reasons are collected in one order by both. -/
theorem cliVerdict_toCli (C : Crates) (req : ExecuteReq) (mandate : Mandate) (nowSecs : UInt64)
    (bindingErr : Option String) :
    cliVerdict C (req.toCli mandate nowSecs) bindingErr =
      ((judge C req mandate nowSecs bindingErr).approved,
        (judge C req mandate nowSecs bindingErr).reasons) := by
  unfold cliVerdict idemErr judge ExecuteReq.toCli
  dsimp only
  -- the binding failure comes first, then the key failure
  cases checkIdempotency req.idempotencyKey mandate.requireIdempotencyKey with
  | ok k => cases bindingErr <;> rfl
  | error e => cases bindingErr <;> rfl

/-- A verdict of the enclave is one `gate_cli` comes to. -/
theorem gateCli_of_assess {C : Crates} {req : ExecuteReq} {mandate : Mandate}
    {nowSecs : UInt64} {v : Verdict} (h : assess C req mandate nowSecs = .ok v) :
    ∃ bindingErr, gateCli C (req.toCli mandate nowSecs) =
        .ok (cliOut C (req.toCli mandate nowSecs) bindingErr) ∧
      cliVerdict C (req.toCli mandate nowSecs) bindingErr = (v.approved, v.reasons) := by
  unfold assess at h
  show ∃ bindingErr, (errText (checkBinding C req.credential req.action
    mandate.requireCredential)).map _ = _ ∧ _
  split at h
  · rename_i hb
    cases h
    exact ⟨none, by rw [hb]; rfl, cliVerdict_toCli C req mandate nowSecs none⟩
  · rename_i e hb
    cases h
    exact ⟨some e, by rw [hb]; rfl, cliVerdict_toCli C req mandate nowSecs (some e)⟩
  · cases h

/-- Whatever else an invocation does, it reports the verdict and the digests it started
with. -/
structure Reports (out base : ExecuteOut) : Prop where
  decision : out.decision = base.decision
  reasons : out.reasons = base.reasons
  actionDigest : out.actionDigest = base.actionDigest
  credentialCommitment : out.credentialCommitment = base.credentialCommitment

theorem Execution.reports {C : Crates} {req : ExecuteReq} {t : List HostEvent}
    {out : ExecuteOut} (h : Execution C req t (.ok out)) :
    ∃ tid nowSecs a mandate v l, Judged C req nowSecs a mandate v ∧
      t = opening tid nowSecs a ++ l ∧ Reports out (baseOut C req (hexEncode tid) nowSecs v) := by
  cases h with
  | rejected hj _ _ => exact ⟨_, _, _, _, _, _, hj, rfl, rfl, rfl, rfl, rfl⟩
  | replayed hj => exact ⟨_, _, _, _, _, _, hj, rfl, rfl, rfl, rfl, rfl⟩
  | dispatched hd =>
    obtain ⟨_, _, _, _, _, _, _, hj, rfl, rfl⟩ := hd.out_eq
    exact ⟨_, _, _, _, _, _, hj, rfl, rfl, rfl, rfl, rfl⟩

/-- `gate_cli` answers for the enclave: given the mandate and the time of an invocation that
returned, it prints the same decision, the same reasons and the same digest, and for an
approval the commitment the enclave accepted. -/
theorem gate_cli_is_oracle (C : Crates) (answer : Answers) {req : ExecuteReq}
    {mandate : Mandate} {out : ExecuteOut} (hm : answer.mandate C = .ok mandate)
    (hout : (run answer (executeActionWasm C req)).2 = .ok out) :
    ∃ printed, gateCli C (req.toCli mandate answer.nowSecs) = .ok printed ∧
      out.decision = printed.decision ∧ out.reasons = printed.reasons ∧
      out.actionDigest = printed.actionDigest ∧
      (out.decision = "approved" → out.credentialCommitment = printed.expectedCommitment) := by
  have hexec := execution_of_emits (emits_run answer (executeActionWasm C req))
  rw [hout] at hexec
  have hagrees := agrees_run answer (executeActionWasm C req)
  have hpasses := hexec.approved_iff hagrees hm
  obtain ⟨tid, nowSecs, a, mandate', v, l, hj, ht, hreports⟩ := hexec.reports
  rw [ht] at hagrees
  obtain rfl := hj.read_eq (agrees_append.mp hagrees).1 hm
  obtain ⟨-, rfl, -⟩ := agrees_opening (agrees_append.mp hagrees).1
  obtain ⟨bindingErr, hcli, hverdict⟩ := gateCli_of_assess hj.verdict
  refine ⟨_, hcli, ?_, ?_, hreports.actionDigest, ?_⟩
  · rw [hreports.decision, cliOut, hverdict]
    rfl
  · rw [hreports.reasons, cliOut, hverdict]
    rfl
  · intro happ
    have hbinding := (hpasses.mp happ).binding
    rw [hreports.credentialCommitment]
    show req.credential.map (·.commitment.val) =
      req.credential.map fun b => expectedCommitment C b req.action
    -- an approval accepted the binding, so the commitment in it is the expected one
    cases hc : req.credential with
    | none => rfl
    | some b =>
      rw [hc] at hbinding
      exact congrArg some (checkBinding_some.mp hbinding).commitment

/-- The sample order, approved in the enclave and by `gate_cli`. -/
theorem gate_cli_is_oracle_sample : ∃ out printed,
    (run sampleAnswers (executeActionWasm sampleCrates sampleReq)).2 = .ok out ∧
      out.decision = "approved" ∧
      gateCli sampleCrates (sampleReq.toCli sampleMandate sampleAnswers.nowSecs) = .ok printed ∧
      out.decision = printed.decision ∧ out.credentialCommitment = printed.expectedCommitment := by
  have hsent : Dispatched sampleCrates sampleReq _ _ :=
    sampleAction_dispatched rfl rfl (by decide) ⟨_, rfl⟩
  obtain ⟨out, hout, hdecision⟩ := hsent.approved
  obtain ⟨printed, hcli, hsame, -, -, hcommitment⟩ :=
    gate_cli_is_oracle sampleCrates sampleAnswers sampleAnswers_mandate hout
  exact ⟨out, printed, hout, hdecision, hcli, hsame, hcommitment hdecision⟩

end Gatekeeper.Gate
