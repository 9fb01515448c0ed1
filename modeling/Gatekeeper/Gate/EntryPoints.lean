import Gatekeeper.Gate.Execute
import Gatekeeper.Lib.Unsigned

/-!
# The other entry points

`evaluate` decides only, under a mandate of the caller or the one in KV. `spend` keeps a
running total a day in KV. `dispatch_action` makes an outbound call and decides nothing.
-/

namespace Gatekeeper.Gate

open Encoding Interaction Unsigned

/-! ## `evaluate` -/

structure EvaluateReq where
  action : Action
  mandate : Option Mandate

structure AuditRow where
  kind : String
  asset : String
  amountCents : UInt64
  maxAmountCents : UInt64
  counterparty : Option String

structure Decision where
  decision : String
  reasons : List String
  evaluatedAtSecs : UInt64
  mandateSource : String
  tenantDid : String
  audit : AuditRow

def buildDecision (C : Crates) (action : Action) (mandate : Mandate) (nowSecs : UInt64)
    (source tenantDid : String) : Decision :=
  let decided := Gate.decide C action mandate nowSecs
  { decision := if decided.1 then "approved" else "rejected"
    reasons := decided.2
    evaluatedAtSecs := nowSecs
    mandateSource := source
    tenantDid := tenantDid
    audit := {
      kind := action.kind
      asset := action.asset
      amountCents := action.amountCents
      maxAmountCents := mandate.maxAmountCents
      counterparty := action.counterparty.map (·.val) } }

/-- The mandate to decide by, and where it comes from. -/
def mandateAndSource (C : Crates) (tidHex : String) (req : EvaluateReq) :
    Guest (Mandate × String) :=
  match req.mandate with
  | some m => pure (m, "inline")
  | none => do
    let m ← readMandate C tidHex
    pure (m, "kv")

def evaluateWasm (C : Crates) (req : EvaluateReq) : Guest Decision := do
  let tid ← Prog.perform HostOp.tenantDid
  let tidHex := hexEncode tid
  let nowSecs ← Prog.perform HostOp.clusterTimestampSecs
  let (mandate, source) ← mandateAndSource C tidHex req
  let decision := buildDecision C req.action mandate nowSecs source s!"did:t3n:{tidHex}"
  let _ ← logInfo (s!"gate evaluate: kind={req.action.kind.val} asset={req.action.asset.val} " ++
    s!"amount_cents={req.action.amountCents} source={source} -> {decision.decision}")
  pure decision

/-! ## `spend` -/

structure SpendReq where
  action : Action
  dailyLimitCents : UInt64
  window : String

/-- The JSON object `spend` returns. -/
structure SpendOut where
  decision : String
  spentBefore : UInt64
  spentAfter : UInt64
  dailyLimitCents : UInt64
  remaining : UInt64
  window : String
  windowRequested : String
deriving DecidableEq

def spentMap (tidHex : String) : String := s!"z:{tidHex}:spent"

/-- The window a call counts in: the UTC day of the cluster clock. -/
def dayBucket (nowSecs : UInt64) : String := s!"d{nowSecs / 86400}"

/-- The number an entry spells, if it spells one. -/
def entryTotal (bytes : Bytes) : Option UInt64 := (ofUtf8 bytes).bind parseU64

/-- `before` once the host has answered. An entry that is no number counts as 0. -/
def totalOf : Except String (Option Bytes) → Except Fault UInt64
  | .error e => .error (.err s!"kv get: {e}")
  | .ok (some b) => .ok ((entryTotal b).getD 0)
  | .ok none => .ok 0

/-- The write of a new total. -/
def putTotal (tidHex : String) (key : Bytes) (total : UInt64) : Guest Unit := do
  let answer ← kvPut (spentMap tidHex) key (utf8 (toString total))
  match answer with
  | .ok () => pure ()
  | .error e => Prog.fail (.err s!"kv put: {e}")

/-- Whether the day's total stays within the caller's limit. -/
def admitsSpend (req : SpendReq) (before : UInt64) : Bool :=
  saturatingAdd before req.action.amountCents ≤ req.dailyLimitCents

/-- A rejected call writes nothing. -/
def recordSpend (tidHex : String) (key : Bytes) (req : SpendReq) (before : UInt64) : Guest Unit :=
  if admitsSpend req before then
    putTotal tidHex key (saturatingAdd before req.action.amountCents)
  else pure ()

/-- The total after the call. -/
def settled (req : SpendReq) (before : UInt64) : UInt64 :=
  if admitsSpend req before then saturatingAdd before req.action.amountCents else before

def spendDecision (req : SpendReq) (before : UInt64) : String :=
  if admitsSpend req before then "approved" else "rejected"

def spendOut (req : SpendReq) (nowSecs before : UInt64) : SpendOut where
  decision := spendDecision req before
  spentBefore := before
  spentAfter := settled req before
  dailyLimitCents := req.dailyLimitCents
  remaining := saturatingSub req.dailyLimitCents (settled req before)
  window := dayBucket nowSecs
  windowRequested := req.window

def spendWasm (req : SpendReq) : Guest SpendOut := do
  let tid ← Prog.perform HostOp.tenantDid
  let tidHex := hexEncode tid
  let nowSecs ← Prog.perform HostOp.clusterTimestampSecs
  let key := utf8 (dayBucket nowSecs)
  let answer ← kvGet (spentMap tidHex) key
  let before ← Prog.ofExcept (totalOf answer)
  recordSpend tidHex key req before
  let _ ← logInfo (s!"spend window={dayBucket nowSecs} amount={req.action.amountCents} " ++
    s!"before={before} -> {spendDecision req before}")
  pure (spendOut req nowSecs before)

/-! ## `dispatch_action` -/

structure DispatchReq where
  url : String
  method : String
  body : String

/-- The request goes out without headers. -/
def dispatchRequest (req : DispatchReq) : Request where
  method := verbOf req.method
  url := req.url
  headers := none
  payload := payloadOf req.body

def dispatchActionWasm (C : Crates) (req : DispatchReq) : Guest Json.Value := do
  let json ← callHttp (dispatchRequest req)
  let _ ← logInfo s!"dispatch_action url={req.url} -> {C.valueToString json}"
  pure json

end Gatekeeper.Gate
