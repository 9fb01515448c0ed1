import Gatekeeper.Gate.Host
import Gatekeeper.Gate.Rules

/-!
# `execute_action`

The entry point that decides and acts in one invocation: it reads the mandate from KV,
checks binding, key and mandate, replays a recorded outcome or makes the outbound call, and
records what came back.
-/

namespace Gatekeeper.Gate

open Encoding Interaction Text

structure ExecuteReq where
  action : Action
  url : String
  method : String
  body : String
  credential : Option CredentialBinding
  idempotencyKey : Option String
deriving DecidableEq

/-- The JSON object `execute_action` returns. The members the code adds only on some paths
are optional. -/
structure ExecuteOut where
  decision : String
  reasons : List String
  dispatched : Bool
  mandateSource : String
  evaluatedAtSecs : UInt64
  credentialCommitment : Option String
  actionDigest : String
  evaluatedAtSecsSource : String
  tenantDid : String
  replayed : Option Bool
  idempotencyKey : Option String
  dispatchVia : Option String
  response : Option Json.Value

/-! ## Reading the tenant's maps -/

/-- `read_mandate` once the host has answered. -/
def mandateOf (C : Crates) : Except String (Option Bytes) → Except Fault Mandate
  | .error e => .error (.err s!"kv read: {e}")
  | .ok none =>
    .error (.err
      "no mandate provisioned in z:<tid>:mandate[default] — seed it via the tenant SDK")
  | .ok (some bytes) =>
    match C.mandateFromSlice bytes with
    | .error e => .error (.err s!"mandate parse: {e}")
    | .ok m => .ok m

def readMandate (C : Crates) (tidHex : String) : Guest Mandate := do
  let answer ← kvGet (mandateMap tidHex) (utf8 "default")
  Prog.ofExcept (mandateOf C answer)

/-- A record that cannot be read counts as no record. -/
def readDispatchRecord (tidHex key : String) : Guest (Option String) := do
  let answer ← kvGet (dispatchedMap tidHex) (utf8 key)
  match answer with
  | .ok (some bytes) => pure (some (fromUtf8Lossy bytes))
  | .ok none => pure none
  | .error e => do
    let _ ← logInfo s!"idempotency unavailable: {e}"
    pure none

def writeDispatchRecord (tidHex key value : String) : Guest (Except String Unit) := do
  let answer ← kvPut (dispatchedMap tidHex) (utf8 key) (utf8 value)
  match answer with
  | .ok () => pure (.ok ())
  | .error e => pure (.error s!"idempotency record write failed: {e}")

/-- `read_secret` once the host has answered. -/
def secretOf : Except String (Option Bytes) → Except Fault (Option String)
  | .ok (some bytes) =>
    match ofUtf8 bytes with
    | some v => .ok (some v)
    | none => .error (.err "secret is not valid UTF-8")
  | .ok none => .ok none
  | .error e => .error (.err s!"secrets read: {e}")

def readSecret (tidHex key : String) : Guest (Option String) := do
  let answer ← kvGet (secretsMap tidHex) (utf8 key)
  Prog.ofExcept (secretOf answer)

/-! ## Building the request -/

def authHeaders (credentialKey : String) (secret : Option String) :
    Except Fault (Option (List (String × String))) :=
  if credentialKey = "" then .ok none
  else
    match secret.filter (fun v => v ≠ "") with
    | some v => .ok (some [("Authorization", s!"Bearer {v}")])
    | none =>
      .error (.err
        s!"mandate names credential '{credentialKey}' but z:<tid>:secrets has no such entry")

def verbOf (method : String) : Verb :=
  match toAsciiUppercase method with
  | "POST" => .post
  | "PUT" => .put
  | "PATCH" => .patch
  | "DELETE" => .delete
  | _ => .get

def payloadOf (body : String) : Option Bytes := if body = "" then none else some (utf8 body)

def describeHwpError : HttpError → String
  | .egressDenied h => s!"egress_denied: {h}"
  | .placeholderDenied m => s!"placeholder_denied: {m}"
  | .placeholderUnknown f => s!"placeholder_unknown: {f}"
  | .placeholderNoUserContext => "placeholder_no_user_context"
  | .upstreamError r => s!"upstream_error: {r}"

/-- What is reported, and recorded, of an outbound call: its status and the length of the
body, or why it failed. -/
def outcomeJson : Except String Response → Json.Value
  | .ok resp => .object
      [("body_len", .number (.posInt (UInt64.ofNat resp.payload.length))),
       ("code", .number (.posInt resp.code.toUInt64)),
       ("ok", .bool true)]
  | .error e => .object [("error", .string e), ("ok", .bool false)]

def callHttp (request : Request) : Guest Json.Value := do
  let answer ← Prog.perform (HostOp.httpCall request)
  pure (outcomeJson answer)

def callPlaceholders (request : Request) : Guest Json.Value := do
  let answer ← Prog.perform (HostOp.hwpCall request)
  match answer with
  | .ok resp => pure (outcomeJson (.ok resp))
  | .error e => pure (outcomeJson (.error (describeHwpError e)))

/-! ## The invocation -/

/-- `approved`, `reasons` and `idem_key` after every check. -/
structure Verdict where
  approved : Bool
  reasons : List String
  idemKey : Option String

/-- The mandate decision, then the binding failure, then the key failure. -/
def judge (C : Crates) (req : ExecuteReq) (mandate : Mandate) (nowSecs : UInt64)
    (bindingErr : Option String) : Verdict :=
  let decided := Gate.decide C req.action mandate nowSecs
  let bound :=
    match bindingErr with
    | some e => (false, decided.2 ++ [e])
    | none => decided
  match checkIdempotency req.idempotencyKey mandate.requireIdempotencyKey with
  | .ok k => ⟨bound.1, bound.2, k⟩
  | .error e => ⟨false, bound.2 ++ [e], none⟩

/-- Every check of an invocation, or the panic of the binding check. -/
def assess (C : Crates) (req : ExecuteReq) (mandate : Mandate) (nowSecs : UInt64) :
    Except Fault Verdict :=
  match checkBinding C req.credential req.action mandate.requireCredential with
  | .ok () => .ok (judge C req mandate nowSecs none)
  | .error (.err e) => .ok (judge C req mandate nowSecs (some e))
  | .error .panic => .error .panic

/-- The output before anything is replayed or sent. -/
def baseOut (C : Crates) (req : ExecuteReq) (tidHex : String) (nowSecs : UInt64) (v : Verdict) :
    ExecuteOut where
  decision := if v.approved then "approved" else "rejected"
  reasons := v.reasons
  dispatched := false
  mandateSource := "kv"
  evaluatedAtSecs := nowSecs
  credentialCommitment := req.credential.map (·.commitment.val)
  actionDigest := actionDigest C req.action
  evaluatedAtSecsSource := "cluster"
  tenantDid := s!"did:t3n:{tidHex}"
  replayed := none
  idempotencyKey := none
  dispatchVia := none
  response := none

/-- The output of a replay: the first outcome under the key, and no call. -/
def replayOut (C : Crates) (out : ExecuteOut) (k prev : String) : ExecuteOut :=
  { out with
    dispatched := false
    replayed := some true
    idempotencyKey := some k
    response := some ((C.valueFromStr prev).getD (.string prev)) }

/-- The record under the request's key, when the action is approved and carries one. -/
def readPrevious (tidHex : String) (v : Verdict) : Guest (Option (String × String)) :=
  match v.approved, v.idemKey with
  | true, some k => do
    let prev ← readDispatchRecord tidHex k
    pure (prev.map fun p => (k, p))
  | _, _ => pure none

/-- The credential the mandate names, as headers. -/
def outboundHeaders (tidHex : String) (mandate : Mandate) :
    Guest (Option (List (String × String))) := do
  let secret ←
    if mandate.credentialKey = "" then pure none else readSecret tidHex mandate.credentialKey
  Prog.ofExcept (authHeaders mandate.credentialKey secret)

def outboundRequest (req : ExecuteReq) (headers : Option (List (String × String))) : Request where
  method := verbOf req.method
  url := req.url
  headers := headers
  payload := payloadOf req.body

/-- The name of the interface the call goes through. -/
def dispatchVia (req : ExecuteReq) : String :=
  if needsPlaceholders req.body then "http-with-placeholders" else "http"

/-- The outbound call, through the interface the body asks for. -/
def sendOut (req : ExecuteReq) (request : Request) : Guest Json.Value :=
  if needsPlaceholders req.body then callPlaceholders request else callHttp request

/-- The dispatch branch: credential, call, record. The record is written after the call, and
a write that fails is ignored. -/
def dispatch (C : Crates) (req : ExecuteReq) (tidHex : String) (mandate : Mandate)
    (idemKey : Option String) (out : ExecuteOut) : Guest ExecuteOut := do
  let headers ← outboundHeaders tidHex mandate
  let response ← sendOut req (outboundRequest req headers)
  let sent := { out with
    dispatched := true, dispatchVia := some (dispatchVia req), response := some response }
  match idemKey with
  | none => pure sent
  | some k => do
    let _ ← writeDispatchRecord tidHex k (C.valueToString response)
    pure { sent with idempotencyKey := some k }

def dispatchIfApproved (C : Crates) (req : ExecuteReq) (tidHex : String) (mandate : Mandate)
    (v : Verdict) (out : ExecuteOut) : Guest ExecuteOut :=
  if v.approved then dispatch C req tidHex mandate v.idemKey out else pure out

def executeActionWasm (C : Crates) (req : ExecuteReq) : Guest ExecuteOut := do
  let tid ← Prog.perform HostOp.tenantDid
  let nowSecs ← Prog.perform HostOp.clusterTimestampSecs
  let tidHex := hexEncode tid
  let mandate ← readMandate C tidHex
  let v ← Prog.ofExcept (assess C req mandate nowSecs)
  let out := baseOut C req tidHex nowSecs v
  let previous ← readPrevious tidHex v
  match previous with
  | some (k, prev) => do
    let _ ← logInfo s!"execute_action replayed idempotency_key={k}"
    pure (replayOut C out k prev)
  | none => do
    let out ← dispatchIfApproved C req tidHex mandate v out
    let _ ← logInfo (s!"execute_action kind={req.action.kind.val} " ++
      s!"amount={req.action.amountCents} url={req.url} -> {out.decision} " ++
      s!"dispatched={v.approved}")
    pure out

end Gatekeeper.Gate
