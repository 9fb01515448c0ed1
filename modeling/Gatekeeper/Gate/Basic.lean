import Gatekeeper.Lib.Json
import Gatekeeper.Lib.Text

/-!
# The data of `gate.rs`

The records the contract reads and writes, and the third-party crates it calls. Record
fields keep the source's names, in camel case.
-/

namespace Gatekeeper.Gate

open Encoding

/-- A Rust `String` that is hashed. Its length in bytes fits the `u64` it is hashed with, as
the length of every Rust `String` does. -/
structure RString where
  val : String
  fits : val.utf8ByteSize < 2 ^ 64
deriving DecidableEq

instance : Coe RString String := ⟨RString.val⟩

@[ext] theorem RString.ext {s t : RString} (h : s.val = t.val) : s = t := by
  cases s
  cases t
  cases h
  rfl

structure Action where
  kind : RString
  asset : RString
  amountCents : UInt64
  counterparty : Option RString
  issuer : Option RString
deriving DecidableEq

structure CredentialBinding where
  issuer : RString
  subject : RString
  claimsDigest : RString
  nonce : RString
  commitment : RString
deriving DecidableEq

/-- The tenant's limits. `counterpartyLimits` lists the entries of the `BTreeMap`. -/
structure Mandate where
  maxAmountCents : UInt64
  allowedAssets : List String
  allowedKinds : List String
  allowedCounterparties : List String
  allowedIssuers : List String
  counterpartyLimits : List (String × UInt64)
  expiresAtSecs : UInt64
  validAfterSecs : UInt64
  credentialKey : String
  requireCredential : Bool
  requireIdempotencyKey : Bool
deriving DecidableEq

/-- What a call to a contract function ends in when it does not return a value: the `Err`
text it returns, or a panic, which traps the component. -/
inductive Fault where
  | err (message : String)
  | panic
deriving DecidableEq

/-- The crates the contract calls, by what it asks of them: `sha2`, `serde_json` on the
types it is used at, and the Unicode tables behind `{:?}`. -/
structure Crates where
  sha256 : Bytes → Bytes
  length_sha256 : ∀ b, (sha256 b).length = 32
  /-- `serde_json::from_slice::<Mandate>`. -/
  mandateFromSlice : Bytes → Except String Mandate
  /-- `serde_json::from_str::<Value>(..).ok()`. -/
  valueFromStr : String → Option Json.Value
  /-- `Value::to_string`. -/
  valueToString : Json.Value → String
  /-- The characters `{:?}` shows by their code point. -/
  escapesInDebug : Char → Bool

attribute [simp] Crates.length_sha256

end Gatekeeper.Gate
