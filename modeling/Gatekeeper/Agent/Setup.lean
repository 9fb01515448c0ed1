import Gatekeeper.Gate.Component
import Gatekeeper.Agent.Attempts
import Gatekeeper.Agent.GateInput

/-!
# `setup.mjs`: provisioning a tenant

One run registers the contract, points the access lists of the four maps at it, and seeds the
mandate and the broker's credential. The control plane of the node is the host; a call that fails
may have taken effect.
-/

namespace Gatekeeper.Agent

open Interaction Js Gate
open Text (isLineEnd)

/-! ## The environment -/

/-- `process.env`. -/
abbrev Env : Type := String → Option String

/-- `!env[name]` is false. -/
def Env.has (env : Env) (name : String) : Bool := (env name).any fun v => v ≠ ""

/-- `[A-Z0-9_]`. -/
def isNameChar (c : Char) : Bool := ('A' ≤ c && c ≤ 'Z') || c.isDigit || c == '_'

/-- `/^([A-Z0-9_]+)=(.*)$/` on a line. -/
def matchLine (line : List Char) : Option (String × String) :=
  match line.takeWhile isNameChar, line.dropWhile isNameChar with
  | c :: cs, '=' :: value =>
    if value.any isLineEnd then none else some (String.ofList (c :: cs), String.ofList value)
  | _, _ => none

/-- `split(/\r?\n/)`: a carriage return right before a line feed goes with it. -/
def fileLines (text : String) : List (List Char) :=
  let pieces := text.toList.splitOn '\n'
  (pieces.dropLast.map fun p => if p.getLast? = some '\r' then p.dropLast else p) ++
    pieces.getLast?.toList

/-- One turn of the loop of `loadEnv`: what is set already stays. -/
def setVariable (env : Env) (line : List Char) : Env :=
  match matchLine line with
  | some (name, value) => if env.has name then env else Function.update env name (some value)
  | none => env

def loadEnv (text : String) (env : Env) : Except Error Env :=
  let loaded := (fileLines text).foldl setVariable env
  if loaded.has "T3N_API_KEY" && loaded.has "DID" then .ok loaded
  else .error (.error "Set T3N_API_KEY and DID in agent/.env (see .env.example)")

/-! ## The mandate -/

def credentialKey : String := "broker_api_key"

theorem fits_usdc : "USDC".utf8ByteSize < 2 ^ 64 := by decide

def usdc : RString := ⟨"USDC", fits_usdc⟩

def rwaBuy : RString := rstring "rwa.buy"

/-- `(process.env.TRUSTED_ISSUERS ?? "").split(",").filter(Boolean)`. -/
def trustedIssuers (env : Env) : List String :=
  ((((env "TRUSTED_ISSUERS").getD "").toList.splitOn ',').filter (· ≠ [])).map String.ofList

theorem isDouble_natAbs {n : ℕ} (h : n < 2 ^ 53) : Double.IsDouble (n : ℤ).natAbs :=
  Double.isDouble_of_lt (by simpa using h)

def wholeNumber (n : ℕ) (h : n < 2 ^ 53) : Value := .number (.whole ⟨n, isDouble_natAbs h⟩)

def mandateNaming (issuers : List String) (key : String) : Value :=
  .object [("max_amount_cents", wholeNumber 500000 (by decide)),
    ("allowed_assets", .array [.string "USDC", .string "USD"]),
    ("allowed_kinds", .array [.string "rwa.buy"]),
    ("allowed_issuers", .array (issuers.map Value.string)),
    ("expires_at_secs", wholeNumber 0 (by decide)), ("credential_key", .string key),
    ("require_credential", .bool true), ("require_idempotency_key", .bool true)]

/-- `MANDATE`, a constant of `lib.mjs`: `env` is what the process started with. -/
def defaultMandate (env : Env) : Value :=
  mandateNaming (trustedIssuers env) (if env.has "BROKER_API_KEY" then credentialKey else "")

/-! ## The control plane -/

/-- Whom an access list lets in: every contract, or those with one of these ids. -/
inductive Grant where
  | all
  | only (ids : List ℕ)
deriving DecidableEq

def Grant.Allows : Grant → ℕ → Prop
  | .all, _ => True
  | .only ids, id => id ∈ ids

structure Acl where
  readers : Grant
  writers : Grant
deriving DecidableEq

inductive ControlOp where
  /-- The session of `connect`, after `loadEnv`. -/
  | openSession
  | readWasm
  | register (tail : String)
  | create (tail : String) (acl : Acl)
  | update (tail : String) (acl : Acl)
  | entrySet (tail key value : String)
  | submitUserInput
  | grantEgress (hosts : List String)
  /-- Calls of the contract through `executeContract`. -/
  | dispatchAction (req : DispatchReq)
  | executeAction (req : ExecuteReq)

/-- `register` answers with the `contract_id`, if it names one. -/
@[reducible] def ControlOp.Res : ControlOp → Type
  | .register _ => Except Error (Option ℕ)
  | .dispatchAction _ => Except Thrown Json.Value
  | .executeAction _ => Except Thrown ExecuteOut
  | _ => Except Error Unit

abbrev Control (α : Type) : Type := Prog ControlOp ControlOp.Res Error α

abbrev ControlEvent : Type := Event ControlOp ControlOp.Res

/-! ## The script -/

/-- `contractId`, where it is set: zero is not. -/
def contractIdOf : Except Error (Option ℕ) → Option ℕ
  | .ok (some id) => if id = 0 then none else some id
  | _ => none

def contractOnly : Option ℕ → Grant
  | some id => .only [id]
  | none => .all

def nobody : Grant := .only []

/-- Create, then update: the first run has nothing to update, and every later run has nothing to
create. -/
def ensureMap (contractId : Option ℕ) (tail : String) (acl : Acl) : Control Unit := do
  let created ← Prog.perform (.create tail acl)
  match (created : Except Error Unit) with
  | .ok _ => pure ()
  | .error _ =>
    if contractId.isNone then pure ()
    else do
      let _ ← Prog.perform (.update tail acl)
      pure ()

/-- A seed that fails is reported, and the script goes on. -/
def seed (tail key value : String) : Control Unit := do
  let _ ← Prog.perform (.entrySet tail key value)
  pure ()

/-- The access list that each map is given. -/
def aclOf (tail : String) (contract : Grant) : Acl :=
  if tail = "spent" ∨ tail = "dispatched" then ⟨contract, contract⟩ else ⟨contract, nobody⟩

/-- The script from the registration on. -/
def provision (contractId : Option ℕ) (imported env : Env) : Control Unit := do
  let contract := contractOnly contractId
  ensureMap contractId "mandate" ⟨contract, nobody⟩
  seed "mandate" "default" (defaultMandate imported).json
  ensureMap contractId "spent" ⟨contract, contract⟩
  ensureMap contractId "dispatched" ⟨contract, contract⟩
  ensureMap contractId "secrets" ⟨contract, nobody⟩
  if env.has "BROKER_API_KEY" then
    seed "secrets" credentialKey ((env "BROKER_API_KEY").getD "")
  else pure ()

/-- What a run starts with: the environment that `lib.mjs` is imported in, and `agent/.env`. -/
structure SetupRun where
  imported : Env
  file : String

def setup (run : SetupRun) : Control Unit := do
  let env ← Prog.ofExcept (loadEnv run.file run.imported)
  let opened ← Prog.perform .openSession
  Prog.ofExcept opened
  let wasm ← Prog.perform .readWasm
  Prog.ofExcept wasm
  let registered ← Prog.perform (.register "gate")
  provision (contractIdOf registered) run.imported env

/-! ## The tenant -/

structure Tenant where
  acl : String → Option Acl
  entries : String → String → Option String

def Tenant.empty : Tenant := ⟨fun _ => none, fun _ _ => none⟩

def Tenant.setAcl (s : Tenant) (tail : String) (acl : Acl) : Tenant :=
  { s with acl := Function.update s.acl tail (some acl) }

def Tenant.setEntry (s : Tenant) (tail key value : String) : Tenant :=
  let inMap := Function.update (s.entries tail) key (some value)
  { s with entries := Function.update s.entries tail inMap }

/-- Calls of the contract leave the access lists, the mandate and the secrets. -/
def contractRuns (s s' : Tenant) : Prop :=
  s'.acl = s.acl ∧ s'.entries "mandate" = s.entries "mandate" ∧
    s'.entries "secrets" = s.entries "secrets"

/-- What a call does that succeeds. -/
def Effect : ControlOp → Tenant → Tenant → Prop
  | .create tail acl, s, s' => s.acl tail = none ∧ s' = s.setAcl tail acl
  | .update tail acl, s, s' => s.acl tail ≠ none ∧ s' = s.setAcl tail acl
  | .entrySet tail key value, s, s' => s' = s.setEntry tail key value
  | .dispatchAction _, s, s' => contractRuns s s'
  | .executeAction _, s, s' => contractRuns s s'
  | _, s, s' => s' = s

/-- The call succeeded. -/
def Succeeded : (op : ControlOp) → op.Res → Prop
  | .register _, x => ∃ id, x = .ok id
  | .openSession, x => x = .ok ()
  | .readWasm, x => x = .ok ()
  | .create _ _, x => x = .ok ()
  | .update _ _, x => x = .ok ()
  | .entrySet _ _ _, x => x = .ok ()
  | .submitUserInput, x => x = .ok ()
  | .grantEgress _, x => x = .ok ()
  | .dispatchAction _, x => ∃ out, x = .ok out
  | .executeAction _, x => ∃ out, x = .ok out

/-- A call that does not succeed does nothing, or its answer was lost. -/
def controlPlane : HostRel ControlOp ControlOp.Res Tenant := fun op s x s' =>
  Effect op s s' ∨ (¬ Succeeded op x ∧ s' = s)

end Gatekeeper.Agent
