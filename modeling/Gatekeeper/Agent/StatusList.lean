import Gatekeeper.Lib.Base64
import Gatekeeper.Lib.Bitstring
import Gatekeeper.Lib.JsNumber

/-!
# `status-list.mjs`: bitstring status lists

Reading and writing the bits of a list, publishing one, and checking a `credentialStatus` entry
against the list it names. Node's `zlib` and `Buffer` are the platform's; what a fetch comes
back with is the caller's.
-/

namespace Gatekeeper.Agent

open Encoding Js

/-! ## The platform -/

/-- What the module uses of Node. -/
structure Node where
  gzipSync : Bytes → Bytes
  gunzipSync : Bytes → Except Error Bytes
  /-- `Buffer.from(.., "base64url")`. -/
  fromBase64Url : String → Bytes
  /-- The message of an error that the language raises. -/
  message : Error → String

/-- The documented behaviour that a published list rests on. -/
structure Node.Lawful (N : Node) : Prop where
  gunzip_gzip : ∀ b, N.gunzipSync (N.gzipSync b) = .ok b
  gzip_magic : ∀ b, ∃ rest, N.gzipSync b = 0x1f :: 0x8b :: rest
  fromBase64Url : ∀ b, N.fromBase64Url (base64UrlEncode b) = b

def Node.errorText (N : Node) : Error → String
  | .error message => message
  | e => N.message e

/-! ## Bits -/

/-- `ToInt32`. -/
def toInt32 (n : ℤ) : ℤ := n.bmod (2 ^ 32)

/-- `bytes[i]` of a typed array; an index outside it reads `undefined`. -/
def typedGet (bytes : Bytes) (i : ℤ) : Option UInt8 := if 0 ≤ i then bytes[i.toNat]? else none

/-- `bytes[i] = x`, which an index outside the array makes no difference to. -/
def typedSet (bytes : Bytes) (i : ℤ) (x : UInt8) : Bytes :=
  if 0 ≤ i then bytes.set i.toNat x else bytes

/-- `index >> 3`. -/
def byteOf (index : Whole) : ℤ := toInt32 index.val / 8

/-- `7 - (index & 7)`. -/
def shiftOf (index : Whole) : ℕ := 7 - (toInt32 index.val % 8).toNat

def pastEnd (index : Whole) : Error :=
  .error s!"status index {(Number.whole index).text} is past the end of the list"

/-- Read one status bit. `undefined` counts as zero in `>>` and `&`. -/
def getBit (bytes : Bytes) (index : Number) : Except Error ℕ :=
  match index with
  | .other text => .error (.error s!"invalid status index {text}")
  | .whole n =>
    if n.val < 0 then .error (.error s!"invalid status index {(Number.whole n).text}")
    else if (bytes.length : ℤ) ≤ byteOf n then .error (pastEnd n)
    else .ok (Bitstring.bit ((typedGet bytes (byteOf n)).getD 0) (shiftOf n))

/-- Set or clear one status bit. -/
def setBit (bytes : Bytes) (index : Whole) (on : Bool) : Except Error Bytes :=
  if (bytes.length : ℤ) ≤ byteOf index then .error (pastEnd index)
  else
    .ok (typedSet bytes (byteOf index)
      (Bitstring.assign ((typedGet bytes (byteOf index)).getD 0) (shiftOf index) on))

/-! ## The encoded list -/

def encodeList (N : Node) (bytes : Bytes) : String := "u" ++ base64UrlEncode (N.gzipSync bytes)

def decodeList (N : Node) : Value → Except Error Bytes
  | .string s =>
    if (utf16 s).length < 2 then .error (.error "encodedList is empty")
    else
      match s.toList with
      | 'u' :: rest => N.gunzipSync (N.fromBase64Url (String.ofList rest))
      | _ =>
        .error (.error
          (s!"unsupported multibase prefix {unitJson ((utf16 s).headD 0)} — " ++
            "expected \"u\" (base64url)"))
  | _ => .error (.error "encodedList is empty")

/-! ## Publishing -/

def minimumEntries : ℕ := 131072

structure StatusListOptions where
  id : String
  issuer : Value := .undefined
  revoked : List Whole := []
  length : ℕ := minimumEntries
  statusPurpose : Value := .string "revocation"
  validFrom : Value := .undefined

/-- The loop over the revoked indices. -/
def markRevoked (length : ℕ) : List Whole → Bytes → Except Error Bytes
  | [], bytes => .ok bytes
  | i :: revoked, bytes =>
    if (length : ℤ) ≤ i.val then
      .error (.error s!"revoked index {(Number.whole i).text} is outside a list of {length}")
    else do
      let bytes ← setBit bytes i true
      markRevoked length revoked bytes

def statusListSubject (N : Node) (o : StatusListOptions) (bytes : Bytes) : Value :=
  .object [("id", .string s!"{o.id}#list"), ("type", .string "BitstringStatusList"),
    ("statusPurpose", o.statusPurpose), ("encodedList", .string (encodeList N bytes))]

def statusListDocument (N : Node) (o : StatusListOptions) (bytes : Bytes) : Value :=
  .object
    ([("@context", .array [.string "https://www.w3.org/ns/credentials/v2"]),
      ("id", .string o.id),
      ("type", .array [.string "VerifiableCredential", .string "BitstringStatusListCredential"]),
      ("issuer", o.issuer)] ++
    (if o.validFrom.truthy then [("validFrom", o.validFrom)] else []) ++
    [("credentialSubject", statusListSubject N o bytes)])

def buildStatusList (N : Node) (o : StatusListOptions) : Except Error Value :=
  if o.length < minimumEntries then
    .error (.error
      (s!"status list must hold at least {minimumEntries} entries (got {o.length}) — " ++
        "a short list identifies its holders"))
  else do
    let bytes ← markRevoked o.length o.revoked (List.replicate ((o.length + 7) / 8) 0)
    return statusListDocument N o bytes

/-! ## Checking -/

/-- A response to the fetch of a list. -/
structure ListResponse where
  ok : Bool
  status : ℕ
  json : Except Error Value

/-- What fetching a URL comes back with. -/
abbrev FetchList : Type := Value → Except Error ListResponse

structure StatusReport where
  checked : Bool
  revoked : Bool
  reason : Option String := none
  index : Option Whole := none
  statusPurpose : Option Value := none
  listEntries : Option ℕ := none

def unchecked (reason : String) : StatusReport where
  checked := false
  revoked := false
  reason := some reason

/-- `v === w`, for values of two documents: an object of one is no object of the other. -/
def strictEq : Value → Value → Bool
  | .undefined, .undefined => true
  | .null, .null => true
  | .bool b, .bool c => b == c
  | .number x, .number y => x == y
  | .string s, .string t => s == t
  | _, _ => false

/-- The document under a URL, or the reason why there is none. -/
def fetchList (N : Node) (fetch : FetchList) (url : Value) : Except Error (Except String Value) :=
  let attempt : Except Error (Except String Value) := do
    let res ← fetch url
    if res.ok then
      let list ← res.json
      return .ok list
    else
      let shown ← url.text
      return .error s!"status list {shown}: HTTP {res.status}"
  match attempt with
  | .ok r => .ok r
  | .error e => do
    let shown ← url.text
    return .error s!"status list {shown}: {N.errorText e}"

/-- The answer of a list that has been fetched. -/
def readList (N : Node) (entry list : Value) (index : Whole) : Except Error StatusReport :=
  let subject := list.get? "credentialSubject"
  let asked := entry.get? "statusPurpose"
  let served := subject.get? "statusPurpose"
  if ¬ (subject.get? "type").isString "BitstringStatusList" then
    .ok (unchecked "fetched document is not a BitstringStatusList")
  else if asked.truthy ∧ served.truthy ∧ strictEq asked served = false then do
    let a ← asked.text
    let s ← served.text
    return unchecked s!"statusPurpose mismatch: entry says {a}, list says {s}"
  else
    match (do
      let bytes ← decodeList N (subject.get? "encodedList")
      let b ← getBit bytes (.whole index)
      return (bytes, b)) with
    | .ok (bytes, b) => .ok {
        checked := true
        revoked := b == 1
        index := some index
        statusPurpose := some (served.orElse (asked.orElse (.string "revocation")))
        listEntries := some (bytes.length * 8) }
    | .error e => .ok (unchecked (N.errorText e))

/-- The entry that is checked: of several, the first. -/
def entryOf : Value → Value
  | .array xs => xs.headD .undefined
  | v => v

/-- Check a `credentialStatus` against its published list. -/
def checkStatus (N : Node) (fetch : FetchList) (credentialStatus : Value) :
    Except Error StatusReport :=
  let entry := entryOf credentialStatus
  if ¬ entry.truthy then .ok (unchecked "credential carries no credentialStatus")
  else if ¬ (entry.get? "type").isString "BitstringStatusListEntry" then do
    let shown ← (entry.get? "type").text
    return unchecked s!"unsupported credentialStatus type {shown}"
  else do
    let index ← (entry.get? "statusListIndex").toNumber
    let url := entry.get? "statusListCredential"
    match url.truthy, index.toWhole with
    | true, some n => do
      let fetched ← fetchList N fetch url
      match fetched with
      | .ok list => readList N entry list n
      | .error reason => return unchecked reason
    | _, _ => return unchecked "entry is missing statusListCredential or statusListIndex"

end Gatekeeper.Agent
