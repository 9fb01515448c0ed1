import Gatekeeper.Lib.Interaction
import Gatekeeper.Gate.Basic

/-!
# The host the contract runs on

The host interfaces the component imports (`tenant-context`, `kv-store`, `http`,
`http-with-placeholders` and `logging`), as operations of a program, and the tenant's KV
maps as the state those operations read and write.
-/

namespace Gatekeeper.Gate

open Encoding Interaction

inductive Verb where
  | get
  | post
  | put
  | patch
  | delete
deriving DecidableEq

/-- `request` of `http` and of `http-with-placeholders`, which declare the same record. -/
structure Request where
  method : Verb
  url : String
  headers : Option (List (String × String))
  payload : Option Bytes
deriving DecidableEq

structure Response where
  code : UInt16
  payload : Bytes
deriving DecidableEq

/-- `http-error` of `http-with-placeholders`. -/
inductive HttpError where
  | egressDenied (host : String)
  | placeholderDenied (marker : String)
  | placeholderUnknown (field : String)
  | placeholderNoUserContext
  | upstreamError (reason : String)
deriving DecidableEq

/-- The host calls the contract makes. -/
inductive HostOp where
  | tenantDid
  | clusterTimestampSecs
  | kvGet (mapName : String) (key : Bytes)
  | kvPut (mapName : String) (key value : Bytes)
  | httpCall (request : Request)
  | hwpCall (request : Request)
  | logInfo (message : String)
deriving DecidableEq

/-- What each call answers. -/
@[reducible] def HostOp.Res : HostOp → Type
  | tenantDid => Bytes
  | clusterTimestampSecs => UInt64
  | kvGet _ _ => Except String (Option Bytes)
  | kvPut _ _ _ => Except String Unit
  | httpCall _ => Except String Response
  | hwpCall _ => Except HttpError Response
  | logInfo _ => Except String Unit

/-- A contract function while it runs. -/
abbrev Guest (α : Type) : Type := Prog HostOp HostOp.Res Fault α

/-- A host call with its answer. -/
abbrev HostEvent : Type := Event HostOp HostOp.Res

/-- A behaviour of the host during one invocation: its answer to each call. -/
abbrev Answers : Type := (op : HostOp) → op.Res

/-- Every call has some answer. -/
def anyAnswer : Answers
  | .tenantDid => []
  | .clusterTimestampSecs => 0
  | .kvGet _ _ => .ok none
  | .kvPut _ _ _ => .ok ()
  | .httpCall _ => .error ""
  | .hwpCall _ => .error (.upstreamError "")
  | .logInfo _ => .ok ()

def kvGet (mapName : String) (key : Bytes) : Guest (Except String (Option Bytes)) :=
  Prog.perform (HostOp.kvGet mapName key)

def kvPut (mapName : String) (key value : Bytes) : Guest (Except String Unit) :=
  Prog.perform (HostOp.kvPut mapName key value)

def logInfo (message : String) : Guest (Except String Unit) := Prog.perform (HostOp.logInfo message)

/-! ## Calls that leave the enclave -/

/-- The request an outbound call sends. -/
def HostOp.outbound : HostOp → Option Request
  | httpCall request => some request
  | hwpCall request => some request
  | _ => none

/-- The requests that left the enclave, in order. -/
def outboundCalls (t : List HostEvent) : List Request := t.filterMap fun e => e.op.outbound

@[simp] theorem outboundCalls_append (t₁ t₂ : List HostEvent) :
    outboundCalls (t₁ ++ t₂) = outboundCalls t₁ ++ outboundCalls t₂ := List.filterMap_append

theorem outboundCalls_cons (e : HostEvent) (t : List HostEvent) :
    outboundCalls (e :: t) = e.op.outbound.toList ++ outboundCalls t := by
  cases h : e.op.outbound <;> simp [outboundCalls, h]

/-! ## The KV store -/

/-- The tenant's maps. -/
abbrev Kv : Type := String → Bytes → Option Bytes

def Kv.put (s : Kv) (mapName : String) (key value : Bytes) : Kv :=
  fun m k => if m = mapName ∧ k = key then some value else s m k

@[simp] theorem Kv.put_self (s : Kv) (mapName : String) (key value : Bytes) :
    s.put mapName key value mapName key = some value := by simp [Kv.put]

theorem Kv.put_of_ne_key (s : Kv) (mapName : String) {key k : Bytes} (value : Bytes)
    (h : k ≠ key) : s.put mapName key value mapName k = s mapName k := by simp [Kv.put, h]

/-- How the host of tenant `tid` answers. A read that succeeds returns what is stored and a
write that succeeds stores its value; either may fail, and a failed write may or may not
have stored it. Clock, outbound calls and log answer as they like. -/
def kvHost (tid : Bytes) : HostRel HostOp HostOp.Res Kv
  | .tenantDid, s, x, s' => x = tid ∧ s' = s
  | .kvGet mapName key, s, x, s' => s' = s ∧ ∀ v, x = .ok v → v = s mapName key
  | .kvPut mapName key value, s, x, s' =>
      s' = s.put mapName key value ∨ (s' = s ∧ ∃ e, x = .error e)
  | _, s, _, s' => s' = s

/-! ## The maps of a tenant -/

def mandateMap (tidHex : String) : String := s!"z:{tidHex}:mandate"

def dispatchedMap (tidHex : String) : String := s!"z:{tidHex}:dispatched"

def secretsMap (tidHex : String) : String := s!"z:{tidHex}:secrets"

/-- The three maps of a tenant are different maps. -/
theorem mandateMap_ne_secretsMap (tidHex : String) : mandateMap tidHex ≠ secretsMap tidHex := by
  intro h
  have hchars := congrArg String.toList h
  simp [mandateMap, secretsMap, toString] at hchars

theorem mandateMap_ne_dispatchedMap (tidHex : String) :
    mandateMap tidHex ≠ dispatchedMap tidHex := by
  intro h
  have hchars := congrArg String.toList h
  simp [mandateMap, dispatchedMap, toString] at hchars

theorem secretsMap_ne_dispatchedMap (tidHex : String) :
    secretsMap tidHex ≠ dispatchedMap tidHex := by
  intro h
  have hchars := congrArg String.toList h
  simp [secretsMap, dispatchedMap, toString] at hchars

end Gatekeeper.Gate
