import Gatekeeper.Gate.GateCli
import Gatekeeper.Gate.SampleTenant

/-!
# What a bad binding ends in

A binding that does not vouch for its action is answered with a rejection that carries the
reason, except where the message about it cuts the commitment inside a character: there the
check panics, and with it `gate_cli` and `execute_action`.
-/

namespace Gatekeeper.Gate

open Encoding Interaction Text

/-! ## When the check panics -/

/-- The expected commitment is hex, so it can be cut anywhere. -/
theorem isCharBoundary_expectedCommitment (C : Crates) (b : CredentialBinding)
    (action : Action) :
    IsCharBoundary (expectedCommitment C b action)
      (min 16 (expectedCommitment C b action).utf8ByteSize) := by
  have hsize : (expectedCommitment C b action).utf8ByteSize = 64 := by
    rw [expectedCommitment, sha256Hex, utf8ByteSize_hexEncode, C.length_sha256]
  apply isCharBoundary_of_ascii
  · intro c hc
    rw [expectedCommitment, sha256Hex, hexEncode, String.toList_ofList] at hc
    exact utf8Size_of_mem_hexChars hc
  · rw [hsize, expectedCommitment, sha256Hex, hexEncode, String.toList_ofList, length_hexChars,
      C.length_sha256]
    decide

theorem mismatchMessage_isSome_iff {C : Crates} {b : CredentialBinding} {action : Action} :
    (∃ message, mismatchMessage (expectedCommitment C b action) b.commitment = some message) ↔
      IsCharBoundary b.commitment (min 16 b.commitment.val.utf8ByteSize) := by
  obtain ⟨e, he⟩ := sliceTo_isSome_iff.mpr (isCharBoundary_expectedCommitment C b action)
  rw [← sliceTo_isSome_iff, mismatchMessage, he]
  cases sliceTo b.commitment.val (min 16 b.commitment.val.utf8ByteSize) <;> simp

/-- The commitments the check can answer for: no mismatch to report, or a commitment with a
character boundary where the message cuts it. -/
def Reportable (C : Crates) (b : CredentialBinding) (action : Action) : Prop :=
  b.nonce.val = "" ∨ b.commitment.val = expectedCommitment C b action ∨
    IsCharBoundary b.commitment (min 16 b.commitment.val.utf8ByteSize)

theorem checkBinding_ne_panic_iff {C : Crates} {b : CredentialBinding} {action : Action}
    {require : Bool} :
    checkBinding C (some b) action require ≠ .error .panic ↔ Reportable C b action := by
  rw [Reportable, ← mismatchMessage_isSome_iff]
  by_cases hnonce : b.nonce.val = ""
  · simp [checkBinding, hnonce]
  by_cases hcommitment : expectedCommitment C b action = b.commitment.val
  · simp only [checkBinding, if_neg hnonce, hcommitment, ne_eq, not_true_eq_false, if_false,
      true_or, or_true, iff_true]
    cases action.issuer with
    | none => simp
    | some i =>
      by_cases hi : i = b.issuer
      · simp [hi]
      · simp [hi]
  · simp only [checkBinding, if_pos hcommitment, hnonce, Ne.symm hcommitment, ne_eq, false_or]
    cases mismatchMessage (expectedCommitment C b action) b.commitment with
    | none => simp
    | some message => simp

/-- A binding that is not accepted gives a reason or panics. -/
theorem checkBinding_of_not_binds {C : Crates} {b : CredentialBinding} {action : Action}
    (require : Bool) (hbad : ¬ Binds C b action) (hreport : Reportable C b action) :
    ∃ reason, checkBinding C (some b) action require = .error (.err reason) := by
  have hpanic : checkBinding C (some b) action require ≠ .error .panic :=
    checkBinding_ne_panic_iff.mpr hreport
  cases hcheck : checkBinding C (some b) action require with
  | ok u => exact absurd (checkBinding_some.mp hcheck) hbad
  | error f =>
    cases f with
    | err reason => exact ⟨reason, rfl⟩
    | panic => exact absurd hcheck hpanic

/-! ## The two programs that check it -/

/-- `gate_cli` rejects with the reason of the check. -/
theorem gateCli_of_err (C : Crates) (req : CliReq) {reason : String}
    (h : checkBinding C req.credential req.action req.mandate.requireCredential =
      .error (.err reason)) :
    ∃ out, gateCli C req = .ok out ∧ out.decision = "rejected" ∧ reason ∈ out.reasons := by
  refine ⟨cliOut C req (some reason), by rw [gateCli, h]; rfl, ?_, ?_⟩
  · have hverdict : (cliVerdict C req (some reason)).1 ≠ true := by
      simp [cliVerdict, withErr_fst]
    exact if_neg hverdict
  · show reason ∈ (cliVerdict C req (some reason)).2
    simp [cliVerdict, withErr_snd]

theorem judge_of_err (C : Crates) (req : ExecuteReq) (mandate : Mandate) (nowSecs : UInt64)
    (reason : String) :
    (judge C req mandate nowSecs (some reason)).approved = false ∧
      reason ∈ (judge C req mandate nowSecs (some reason)).reasons := by
  unfold judge
  cases checkIdempotency req.idempotencyKey mandate.requireIdempotencyKey <;> simp

/-- So does `execute_action`, once it has read a mandate. -/
theorem executeAction_of_err {C : Crates} (req : ExecuteReq) {answer : Answers}
    {mandate : Mandate} {reason : String} (hm : answer.mandate C = .ok mandate)
    (h : checkBinding C req.credential req.action mandate.requireCredential =
      .error (.err reason)) :
    ∃ out, (run answer (executeActionWasm C req)).2 = .ok out ∧ out.decision = "rejected" ∧
      reason ∈ out.reasons := by
  have hassess : ∀ nowSecs, assess C req mandate nowSecs =
      .ok (judge C req mandate nowSecs (some reason)) := by
    intro nowSecs
    rw [assess, h]
  -- whatever was judged was judged with this reason, so nothing was approved
  have hjudged : ∀ {nowSecs a v}, Judged C req nowSecs a mandate v →
      v = judge C req mandate nowSecs (some reason) := by
    intro nowSecs a v hj
    have hv := hj.verdict
    rw [hassess] at hv
    exact (Except.ok.inj hv).symm
  have hrejected : ∀ {tid nowSecs a held v l}, Judged C req nowSecs a held v →
      Agrees answer (opening tid nowSecs a ++ l) → v.approved = true → False := by
    intro tid nowSecs a held v l hj hagrees happ
    obtain rfl := hj.read_eq (agrees_append.mp hagrees).1 hm
    rw [hjudged hj, (judge_of_err C req mandate nowSecs reason).1] at happ
    cases happ
  have hagrees := agrees_run answer (executeActionWasm C req)
  have hexec := execution_of_emits (emits_run answer (executeActionWasm C req))
  generalize (run answer (executeActionWasm C req)).1 = t at hagrees hexec
  generalize (run answer (executeActionWasm C req)).2 = r at hexec
  cases hexec with
  | unreadable hf =>
    obtain ⟨-, -, hread⟩ := agrees_opening hagrees
    rw [hread C, hm] at hf
    cases hf
  | trapped hread hf =>
    obtain ⟨-, -, hread'⟩ := agrees_opening hagrees
    rw [hread' C, hm] at hread
    cases hread
    rw [hassess] at hf
    cases hf
  | @rejected tid nowSecs a held v l hj happ hl =>
    obtain rfl := hj.read_eq (agrees_append.mp hagrees).1 hm
    refine ⟨_, rfl, if_neg (by simp [happ]), ?_⟩
    show reason ∈ v.reasons
    rw [hjudged hj]
    exact (judge_of_err C req mandate nowSecs reason).2
  | replayed hj happ => exact (hrejected hj hagrees happ).elim
  | unauthenticated hj happ => exact (hrejected hj hagrees happ).elim
  | dispatched hd =>
    cases hd with
    | intro hj happ => exact (hrejected hj hagrees happ).elim

/-- A bad binding is a recorded rejection: the check returns, and both programs that make it
answer `rejected` with its reason. -/
structure RecordsBadBinding (C : Crates) (b : CredentialBinding) (action : Action) : Prop where
  returns : ∀ require, checkBinding C (some b) action require ≠ .error .panic
  cli : ¬ Binds C b action → ∀ req : CliReq, req.credential = some b → req.action = action →
    ∃ out reason, gateCli C req = .ok out ∧ out.decision = "rejected" ∧ reason ∈ out.reasons ∧
      checkBinding C (some b) action req.mandate.requireCredential = .error (.err reason)
  execute : ¬ Binds C b action → ∀ req : ExecuteReq, req.credential = some b →
    req.action = action → ∀ (answer : Answers) (mandate : Mandate),
    answer.mandate C = .ok mandate →
    ∃ out reason, (run answer (executeActionWasm C req)).2 = .ok out ∧
      out.decision = "rejected" ∧ reason ∈ out.reasons ∧
      checkBinding C (some b) action mandate.requireCredential = .error (.err reason)

/-- It is one exactly when the commitment can be cut for the message. -/
theorem recordsBadBinding_iff (C : Crates) (b : CredentialBinding) (action : Action) :
    RecordsBadBinding C b action ↔ Reportable C b action := by
  constructor
  · intro h
    exact checkBinding_ne_panic_iff.mp (h.returns true)
  · intro h
    refine ⟨fun require => checkBinding_ne_panic_iff.mpr h, ?_, ?_⟩
    · intro hbad req hcredential haction
      obtain ⟨reason, hcheck⟩ := checkBinding_of_not_binds req.mandate.requireCredential hbad h
      obtain ⟨out, hout, hdecision, hreason⟩ :=
        gateCli_of_err C req (by rw [hcredential, haction, hcheck])
      exact ⟨out, reason, hout, hdecision, hreason, hcheck⟩
    · intro hbad req hcredential haction answer mandate hm
      obtain ⟨reason, hcheck⟩ := checkBinding_of_not_binds mandate.requireCredential hbad h
      obtain ⟨out, hout, hdecision, hreason⟩ :=
        executeAction_of_err req hm (by rw [hcredential, haction, hcheck])
      exact ⟨out, reason, hout, hdecision, hreason, hcheck⟩

/-! ## A commitment that cannot be cut -/

/-- The sample binding with fifteen letters and a two-byte one for its commitment: byte 16 is
inside the last. -/
def accentedBinding : CredentialBinding :=
  { bindingFor sampleCrates sampleNonce sampleAction with
    commitment := rstring "aaaaaaaaaaaaaaaé" }

theorem not_isCharBoundary_accented : ¬ IsCharBoundary "aaaaaaaaaaaaaaaé" 16 := by
  rw [← sliceTo_isSome_iff]
  have hslice : sliceTo "aaaaaaaaaaaaaaaé" 16 = none := by decide
  simp [hslice]

theorem checkBinding_panics :
    ¬ ∀ (C : Crates) (b : CredentialBinding) (action : Action), RecordsBadBinding C b action := by
  intro h
  have hreturns := (h sampleCrates accentedBinding sampleAction).returns true
  rw [checkBinding_ne_panic_iff, Reportable] at hreturns
  rcases hreturns with hnonce | hcommitment | hboundary
  · exact absurd hnonce (by decide)
  · -- the expected commitment is hex, four times as long
    have hsize := congrArg String.utf8ByteSize hcommitment
    rw [expectedCommitment, sha256Hex, utf8ByteSize_hexEncode, Crates.length_sha256] at hsize
    exact absurd hsize (by decide)
  · exact not_isCharBoundary_accented hboundary

end Gatekeeper.Gate
