import Gatekeeper.Gate.RulesTheorems

/-!
# `gate_cli`

The host build of the decision, on a request it has read: binding, key and mandate are
checked as `execute_action` checks them, with the mandate and the clock of the caller.
-/

namespace Gatekeeper.Gate

structure CliReq where
  action : Action
  mandate : Mandate
  nowSecs : UInt64
  credential : Option CredentialBinding
  idempotencyKey : Option String

/-- The object `gate_cli` prints. -/
structure CliOut where
  decision : String
  reasons : List String
  nowSecs : UInt64
  actionDigest : String
  expectedCommitment : Option String

/-- `.err()` of a check, or its panic. -/
def errText {α : Type} : Except Fault α → Except Fault (Option String)
  | .ok _ => .ok none
  | .error (.err e) => .ok (some e)
  | .error .panic => .error .panic

/-- `.err()` of the key check. -/
def idemErr (req : CliReq) : Option String :=
  match checkIdempotency req.idempotencyKey req.mandate.requireIdempotencyKey with
  | .ok _ => none
  | .error e => some e

/-- A failure is a rejection with one more reason. -/
def withErr (decided : Bool × List String) : Option String → Bool × List String
  | none => decided
  | some e => (false, decided.2 ++ [e])

/-- `approved` and `reasons`: the mandate decision, then the binding, then the key. -/
def cliVerdict (C : Crates) (req : CliReq) (bindingErr : Option String) : Bool × List String :=
  withErr (withErr (Gate.decide C req.action req.mandate req.nowSecs) bindingErr) (idemErr req)

def cliOut (C : Crates) (req : CliReq) (bindingErr : Option String) : CliOut where
  decision := if (cliVerdict C req bindingErr).1 then "approved" else "rejected"
  reasons := (cliVerdict C req bindingErr).2
  nowSecs := req.nowSecs
  actionDigest := actionDigest C req.action
  expectedCommitment := req.credential.map fun b => expectedCommitment C b req.action

def gateCli (C : Crates) (req : CliReq) : Except Fault CliOut :=
  (errText (checkBinding C req.credential req.action req.mandate.requireCredential)).map
    (cliOut C req)

/-! ## Without a credential and a key -/

/-- What a caller that brings neither a credential nor a key is approved for. -/
structure PermitsBare (action : Action) (mandate : Mandate) (nowSecs : UInt64) : Prop where
  permits : Permits action mandate nowSecs
  noCredential : mandate.requireCredential = false
  noKey : mandate.requireIdempotencyKey = false

@[simp] theorem withErr_fst {decided : Bool × List String} {e : Option String} :
    (withErr decided e).1 = true ↔ decided.1 = true ∧ e = none := by
  cases e <;> simp [withErr]

theorem errText_checkBinding_none {C : Crates} {action : Action} {require : Bool} :
    ∃ e, errText (checkBinding C none action require) = .ok e ∧ (e = none ↔ require = false) := by
  cases require
  · exact ⟨none, rfl, by simp⟩
  · exact ⟨some _, rfl, by simp⟩

/-- A request without credential and key is always answered, and approved exactly when the
mandate permits the action and asks for neither. -/
theorem gateCli_bare (C : Crates) {req : CliReq} (hc : req.credential = none)
    (hk : req.idempotencyKey = none) :
    ∃ out, gateCli C req = .ok out ∧
      (out.decision = "approved" ↔ PermitsBare req.action req.mandate req.nowSecs) := by
  obtain ⟨e, he, he'⟩ :=
    @errText_checkBinding_none C req.action req.mandate.requireCredential
  have hidem : idemErr req = none ↔ req.mandate.requireIdempotencyKey = false := by
    cases hr : req.mandate.requireIdempotencyKey <;>
      simp [idemErr, hk, hr, checkIdempotency, trimmedKey]
  have hverdict : (cliVerdict C req e).1 = true ↔
      PermitsBare req.action req.mandate req.nowSecs := by
    simp only [cliVerdict, withErr_fst, decide_iff_permits, he', hidem]
    constructor
    · rintro ⟨⟨h₁, h₂⟩, h₃⟩
      exact ⟨h₁, h₂, h₃⟩
    · rintro ⟨h₁, h₂, h₃⟩
      exact ⟨⟨h₁, h₂⟩, h₃⟩
  refine ⟨cliOut C req e, by rw [gateCli, hc, he, Except.map], ?_⟩
  rw [← hverdict, cliOut]
  split_ifs with h <;> simp [h]

/-- The reasons of a caller that supplies nothing, by the requirements of the mandate. -/
def demands (mandate : Mandate) : List String :=
  (if mandate.requireCredential then ["mandate requires a credential binding, none supplied"]
    else []) ++
  if mandate.requireIdempotencyKey then ["mandate requires an idempotency key, none supplied"]
  else []

/-- The decision that a list of reasons amounts to. -/
def verdictText (reasons : List String) : String :=
  if reasons.isEmpty then "approved" else "rejected"

theorem withErr_isEmpty {decided : Bool × List String} (h : decided.1 = decided.2.isEmpty)
    (e : Option String) : (withErr decided e).1 = (withErr decided e).2.isEmpty := by
  cases e with
  | none => exact h
  | some e => simp [withErr]

theorem withErr_snd (decided : Bool × List String) (e : Option String) :
    (withErr decided e).2 = decided.2 ++ e.toList := by
  cases e <;> simp [withErr]

/-- Without a credential and with a blank key `gate_cli` adds the mandate's requirements to the
reasons of `decide`. -/
theorem gateCli_unsupplied (C : Crates) {req : CliReq} (hc : req.credential = none)
    (hk : trimmedKey req.idempotencyKey = none) :
    ∃ out, gateCli C req = .ok out ∧
      out.reasons = (Gate.decide C req.action req.mandate req.nowSecs).2 ++ demands req.mandate ∧
      out.decision = verdictText out.reasons := by
  obtain ⟨e, he, htext⟩ : ∃ e,
      errText (checkBinding C none req.action req.mandate.requireCredential) = .ok e ∧
      e.toList = if req.mandate.requireCredential then
        ["mandate requires a credential binding, none supplied"] else [] := by
    cases req.mandate.requireCredential
    · exact ⟨none, rfl, rfl⟩
    · exact ⟨some _, rfl, rfl⟩
  have hidem : (idemErr req).toList = if req.mandate.requireIdempotencyKey then
      ["mandate requires an idempotency key, none supplied"] else [] := by
    unfold idemErr checkIdempotency
    rw [hk]
    cases req.mandate.requireIdempotencyKey <;> rfl
  refine ⟨cliOut C req e, by rw [gateCli, hc, he, Except.map], ?_, ?_⟩
  · show (cliVerdict C req e).2 = _
    rw [cliVerdict, withErr_snd, withErr_snd, htext, hidem, List.append_assoc]
    rfl
  · have hempty : (cliVerdict C req e).1 = (cliVerdict C req e).2.isEmpty :=
      withErr_isEmpty (withErr_isEmpty rfl e) _
    show (if (cliVerdict C req e).1 then "approved" else "rejected") = _
    rw [hempty]
    rfl

end Gatekeeper.Gate
