import Gatekeeper.Agent.X402
import Gatekeeper.Gate.GateCli

/-!
# The client under a mandate

The two calls of the client that matter for money: `decide` is `gate_cli` on a mandate, asked
without a credential and a key, and the wallet signs what `ethers` can encode.
-/

namespace Gatekeeper.Agent

open Interaction Js Gate

/-! ## The action as the gate reads it -/

def toRString (s : String) : Option RString :=
  if h : s.utf8ByteSize < 2 ^ 64 then some ⟨s, h⟩ else none

/-- A JSON number read as a `u64`: its text has digits only, and they fit. -/
def jsonU64 : Number → Option UInt64
  | .whole n =>
    if 0 ≤ n.val ∧ n.val < 10 ^ 21 ∧ Double.shortest n.val.natAbs < 2 ^ 64 then
      some (UInt64.ofNat (Double.shortest n.val.natAbs))
    else none
  | .other _ => none

def jsonString : Value → Option RString
  | .string s => toRString s
  | _ => none

/-- An optional text: a member that is left out or `null` is `None`. -/
def jsonOptString : Value → Option (Option RString)
  | .undefined | .null => some none
  | v => (jsonString v).map some

/-- The action that arrives at the gate, or `none` when the gate cannot read it. -/
def gateAction (a : PayAction) : Option Gate.Action := do
  let kind ← toRString a.kind
  let asset ← jsonString a.asset
  let amountCents ← jsonU64 a.amountCents
  let counterparty ← jsonOptString a.counterparty
  return { kind, asset, amountCents, counterparty, issuer := none }

theorem jsonString_eq_some {v : Value} {r : RString} (h : jsonString v = some r) :
    v = .string r.val := by
  unfold jsonString at h
  split at h
  · rw [toRString] at h
    split_ifs at h
    cases h
    rfl
  · cases h

theorem jsonU64_ofNat {n : ℕ} {u : UInt64} (h : jsonU64 (Number.ofNat n) = some u) :
    u.toNat = printed n := by
  rw [Number.ofNat] at h
  split_ifs at h with hlog
  -- the gate reads the printed digits
  · rw [jsonU64] at h
    split_ifs at h with hfits
    obtain ⟨_, _, hlt⟩ := hfits
    obtain rfl := Option.some.inj h
    exact UInt64.toNat_ofNat_of_lt' hlt
  · cases h

/-- What the gate reads of an action. -/
theorem gateAction_spec {action : PayAction} {a : Gate.Action} (h : gateAction action = some a) :
    action.asset = .string a.asset.val ∧
      jsonU64 action.amountCents = some a.amountCents ∧
      ∀ cp, action.counterparty = .string cp →
        ∃ r : RString, a.counterparty = some r ∧ r.val = cp := by
  simp only [gateAction, Option.bind_eq_bind, Option.bind_eq_some_iff] at h
  obtain ⟨kind, _, asset, hasset, amountCents, hamount, counterparty, hcounterparty, h⟩ := h
  cases h
  refine ⟨jsonString_eq_some hasset, hamount, fun cp hcp => ?_⟩
  simp only [hcp, jsonOptString, jsonString, toRString] at hcounterparty
  split_ifs at hcounterparty
  · cases hcounterparty
    exact ⟨_, rfl, rfl⟩
  · cases hcounterparty

/-! ## What the calls may answer -/

/-- The JSON that `gate_cli` prints, as a value. -/
def cliValue (out : CliOut) : Value :=
  .object
    [("action_digest", .string out.actionDigest),
     ("decision", .string out.decision),
     ("expected_commitment", (out.expectedCommitment.map Value.string).getD .null),
     ("now_secs", .number (Number.ofNat out.nowSecs.toNat)),
     ("reasons", .array (out.reasons.map Value.string))]

/-- The question `decide` puts to the gate at a time. -/
def payReq (mandate : Mandate) (nowSecs : UInt64) (a : Gate.Action) : CliReq where
  action := a
  mandate := mandate
  nowSecs := nowSecs
  credential := none
  idempotencyKey := none

/-- What `decide` may come back with: a failure to run the gate, its error for an action it
cannot read, or its decision at some time. -/
def GateAnswer (C : Crates) (mandate : Mandate) (action : PayAction) : Except Error Value → Prop
  | .error _ => True
  | .ok v =>
    (gateAction action = none ∧ ∃ e : String, v = .object [("error", .string s!"bad input: {e}")]) ∨
    ∃ a nowSecs out, gateAction action = some a ∧
      gateCli C (payReq mandate nowSecs a) = .ok out ∧ v = cliValue out

/-- What `ethers` can encode: the name is a text, the chain id a safe integer and the value a
`uint256`. -/
structure Encodable (domain : Eip712Domain) (value : String) : Prop where
  name : ∃ name, domain.name = .string name
  chainId : ∃ n : Whole, domain.chainId = .whole n ∧ n.val.natAbs < 2 ^ 53
  value : ∃ v : ℕ, stringToBigInt value = some (v : ℤ) ∧ v < 2 ^ 256

/-- The answers of a gate with this mandate and of a wallet; the other calls are free. -/
def Lawful (C : Crates) (mandate : Mandate) : (op : ClientOp) → op.Res → Prop
  | .decide action _ _, x => GateAnswer C mandate action x
  | .signTypedData domain authorization, x => ∀ s, x = .ok s → Encodable domain authorization.value
  | _, _ => True

/-- A run under a mandate. -/
def Gated (C : Crates) (mandate : Mandate) (t : List ClientEvent) : Prop :=
  ∀ e ∈ t, Lawful C mandate e.op e.res

/-! ## Approval -/

theorem isApproval_cliValue {out : CliOut} :
    isApproval (cliValue out) = true ↔ out.decision = "approved" := by
  have hget : (cliValue out).get? "decision" = .string out.decision := by
    simp [cliValue, Value.get?, List.lookup_cons]
  rw [isApproval, hget, Value.isString_iff, Value.string.injEq]

/-- An approval comes from a mandate that permits the action as the gate read it. -/
theorem GateAnswer.permits {C : Crates} {mandate : Mandate} {action : PayAction} {v : Value}
    (h : GateAnswer C mandate action (.ok v)) (hv : isApproval v = true) :
    ∃ a nowSecs, gateAction action = some a ∧ PermitsBare a mandate nowSecs := by
  -- an error object has no decision
  rcases h with ⟨_, e, rfl⟩ | ⟨a, nowSecs, out, ha, hout, rfl⟩
  · simp [isApproval, Value.get?, List.lookup_cons, Value.isString] at hv
  · obtain ⟨out', hout', hdecision⟩ := @gateCli_bare C (payReq mandate nowSecs a) rfl rfl
    obtain rfl : out' = out := Except.ok.inj (hout'.symm.trans hout)
    exact ⟨a, nowSecs, ha, hdecision.mp (isApproval_cliValue.mp hv)⟩

/-- A mandate that permits an action approves it. -/
theorem exists_approval (C : Crates) {mandate : Mandate} {action : PayAction} {a : Gate.Action}
    {nowSecs : UInt64} (ha : gateAction action = some a) (h : PermitsBare a mandate nowSecs) :
    ∃ v, GateAnswer C mandate action (.ok v) ∧ isApproval v = true := by
  obtain ⟨out, hout, hdecision⟩ := @gateCli_bare C (payReq mandate nowSecs a) rfl rfl
  exact ⟨cliValue out, Or.inr ⟨a, nowSecs, out, ha, hout, rfl⟩,
    isApproval_cliValue.mpr (hdecision.mpr h)⟩

end Gatekeeper.Agent
