import Gatekeeper.Gate.EntryPoints
import Gatekeeper.Agent.GateInput

/-!
# The two decision engines

`decideWith` of `engine.mjs`: `gate_cli`, the Rust host build, behind a process, and the
component behind a host in JavaScript, both asked with the same arguments.
-/

namespace Gatekeeper.Agent

open Encoding Interaction Js Gate

/-! ## The host of the engines -/

/-- What the two engines run on. -/
structure EngineHost where
  /-- `gateCliPath()` finds a binary. -/
  cliBuilt : Bool
  buildHint : String
  /-- The process ends in time and its output is read. -/
  cliAnswers : Bool
  /-- What `execFile` reports of a process without output. -/
  cliFailure : Error
  /-- How `serde_json` describes an input of `gate_cli` or of `evaluate` that it cannot read. -/
  cliError : Value → String
  evaluateError : Value → String
  /-- What a component that traps raises. -/
  trap : Error
  /-- The KV store of the component's host. -/
  kv : Kv
  /-- `Math.floor(Date.now() / 1000)` at the call. -/
  clock : ℕ

/-- The arguments of `decideWith` next to the engine. One that is not given is `undefined`. -/
structure DecideArgs where
  action : Value
  mandate : Value
  nowSecs : Value
  credential : Value
  idempotencyKey : Value

def EngineHost.now (H : EngineHost) : Value := .number (Number.ofNat H.clock)

/-! ## `gate_cli` -/

/-- The time `gate_cli` is asked about. -/
def cliNow (H : EngineHost) (args : DecideArgs) : Value := args.nowSecs.ifUndefined H.now

/-- The members that `decide` of `gate-cli.mjs` writes to the process. -/
def cliMembers (H : EngineHost) (args : DecideArgs) : List (String × Value) :=
  [("action", args.action), ("mandate", args.mandate), ("now_secs", cliNow H args),
   ("credential", args.credential.ifUndefined .null),
   ("idempotency_key", args.idempotencyKey.ifUndefined .null)]

def cliInput (H : EngineHost) (args : DecideArgs) : Value :=
  (Value.object (cliMembers H args)).toJson

/-- `Option<T>` of a member. -/
def jsonOption {α : Type} (read : Value → Option α) : Value → Option (Option α)
  | .undefined | .null => some none
  | v => (read v).map some

/-- The `Req` of `gate_cli` that an object stands for. -/
def jsonCliReq (v : Value) : Option CliReq := do
  let action ← jsonAction (v.get? "action")
  let mandate ← jsonMandate (v.get? "mandate")
  let nowSecs ← orDefault 0 jsonAmount (v.get? "now_secs")
  let credential ← jsonOption jsonBinding (v.get? "credential")
  let idempotencyKey ← jsonOption jsonText (v.get? "idempotency_key")
  return { action, mandate, nowSecs, credential, idempotencyKey }

/-- What the process prints, read back. A panic prints nothing. -/
def cliPrints (C : Crates) (H : EngineHost) (input : Value) : Except Error Value :=
  match jsonCliReq input with
  | none => .ok (.object [("error", .string s!"bad input: {H.cliError input}")])
  | some req =>
    match gateCli C req with
    | .ok out => .ok (cliValue out)
    | .error _ => .error H.cliFailure

/-- `decide` of `gate-cli.mjs`, when the binary is there. -/
def decideCli (C : Crates) (H : EngineHost) (args : DecideArgs) : Except Error Value :=
  if H.cliAnswers then cliPrints C H (cliInput H args) else .error H.cliFailure

/-! ## The component -/

/-- `toUint64`: the low 64 bits of a big integer. -/
def toUint64 (n : ℤ) : UInt64 := UInt64.ofNat (n % 2 ^ 64).toNat

/-- How the JavaScript host answers. Its two HTTP imports throw; `evaluate` calls neither. -/
def localAnswers (H : EngineHost) (nowSecs : UInt64) : Answers
  | .tenantDid => List.replicate 20 0
  | .clusterTimestampSecs => nowSecs
  | .kvGet mapName key => .ok (H.kv mapName key)
  | .kvPut _ _ _ => .ok ()
  | .httpCall _ => .error "outbound HTTP is the enclave's job"
  | .hwpCall _ => .error (.upstreamError "outbound HTTP is the enclave's job")
  | .logInfo _ => .ok ()

/-- The members that `evaluate` of `gate-wasm.mjs` hands to the component. -/
def evaluateMembers (args : DecideArgs) : List (String × Value) :=
  if args.mandate.truthy then [("action", args.action), ("mandate", args.mandate)]
  else [("action", args.action)]

def evaluateInput (args : DecideArgs) : Value := (Value.object (evaluateMembers args)).toJson

/-- The `EvaluateReq` that an object stands for. -/
def jsonEvaluateReq (v : Value) : Option EvaluateReq := do
  let action ← jsonAction (v.get? "action")
  let mandate ← jsonOption jsonMandate (v.get? "mandate")
  return { action, mandate }

/-- The time the component is told. -/
def hostNow (H : EngineHost) (args : DecideArgs) : Except Error UInt64 := do
  let n ← (args.nowSecs.orElse H.now).toBigInt
  return toUint64 n

def refusedInput (message : String) : Error :=
  .error s!"the contract refused the input: {message}"

/-- The verdict `decideWith` makes of the component's decision. -/
def componentVerdict (d : Decision) : Value :=
  .object
    [("decision", .string d.decision), ("reasons", .array (d.reasons.map Value.string)),
     ("now_secs", .number (Number.ofNat d.evaluatedAtSecs.toNat)), ("engine", .string "component")]

/-- `evaluate` on the component, and what `decideWith` returns of it. -/
def decideComponent (C : Crates) (H : EngineHost) (args : DecideArgs) : Except Error Value :=
  match jsonEvaluateReq (evaluateInput args) with
  | none =>
    .error (refusedInput s!"evaluate: bad input: {H.evaluateError (evaluateInput args)}")
  | some req => do
    let nowSecs ← hostNow H args
    match (run (localAnswers H nowSecs) (evaluateWasm C req)).2 with
    | .ok d => return componentVerdict d
    | .error (.err e) => throw (refusedInput e)
    | .error .panic => throw H.trap

/-! ## `decideWith` -/

/-- `{ ...v, engine: "gate_cli" }`. -/
def withCliName : Value → Value
  | .object ms => .object (ms ++ [("engine", .string "gate_cli")])
  | _ => .object [("engine", .string "gate_cli")]

def notBuilt (H : EngineHost) : Error :=
  .error (s!"gate_cli is not built. Build it with: {H.buildHint}, or pass engine: \"component\"")

def uncheckable (H : EngineHost) : Error :=
  .error ("credential bindings and idempotency keys are checked by execute_action, which the " ++
    s!"component host does not expose; use engine \"gate_cli\" ({H.buildHint})")

/-- The request goes to `gate_cli`. -/
def usesCli (H : EngineHost) (engine : Value) : Bool :=
  engine.isString "gate_cli" || (engine.isString "auto" && H.cliBuilt)

def decideWith (C : Crates) (H : EngineHost) (engine : Value) (args : DecideArgs) :
    Except Error Value :=
  let engine := engine.ifUndefined (.string "auto")
  if usesCli H engine then
    if H.cliBuilt then (decideCli C H args).map withCliName else .error (notBuilt H)
  else if engine.isString "component" || engine.isString "auto" then
    if args.credential.truthy || args.idempotencyKey.truthy then .error (uncheckable H)
    else decideComponent C H args
  else do
    let name ← engine.text
    throw (.error s!"unknown engine '{name}' (one of auto, gate_cli, component)")

end Gatekeeper.Agent
