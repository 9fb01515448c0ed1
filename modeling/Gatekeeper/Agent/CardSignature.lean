import Gatekeeper.Lib.Base64
import Gatekeeper.Lib.Text
import Gatekeeper.Lib.EcmaOps
import Gatekeeper.Lib.KeyOrder

/-!
# Signed agent cards

The functions of `card-signature.mjs` that sign a card and verify the signatures on one:
canonical JSON, the payload, and the loop over the signatures of a card. Ed25519, the import
of keys and base64url are the platform's.
-/

namespace Gatekeeper.Agent

open Ecma Encoding
open Js (Error)

/-! ## Canonical JSON -/

mutual

/-- `canonicalize`: the members of an object in the order of their keys. -/
def canonicalize : Value → List Char
  | .array xs => bracket '[' ']' (canonicalElements xs)
  | .object ms =>
    bracket '\x7b' '\x7d' ((sortMembers (canonicalMembers ms)).map fun m => writeMember m.1 m.2)
  | v => v.write

def canonicalElements : List Value → List (List Char)
  | [] => []
  | x :: xs => canonicalize x :: canonicalElements xs

/-- The canonical text under each key. -/
def canonicalMembers : List (Str × Value) → List (Str × List Char)
  | [] => []
  | (k, x) :: ms => (k, canonicalize x) :: canonicalMembers ms

end

/-! ## The platform -/

structure CardPlatform where
  Key : Type
  PrivateKey : Type
  publicKey : PrivateKey → Key
  /-- `sign(null, ..)` and `verify(null, ..)` of `node:crypto`. -/
  sign : PrivateKey → Bytes → Bytes
  verify : Key → Bytes → Bytes → Bool
  /-- The key that the `x` of a JWK stands for. -/
  importKey : Value → Except Error Key
  /-- `Buffer.from(.., "base64url")`, which throws for most values that are no text. -/
  fromBase64Url : Option Value → Except Error Bytes

/-- What a resolver of keys does: it answers, or it rejects with any value. -/
abbrev KeyResolver := Value → Except (Option Value) (Option Value)

variable (P : CardPlatform)

/-! ## Signing -/

def b64u (text : String) : String := base64UrlEncode (utf8 text)

/-- The members of a card without its signatures. -/
def withoutSignatures : Value → Value
  | .object ms => .object (ms.filter fun m => m.1 ≠ ofString "signatures")
  | v => v

def cardPayload (card : Value) : String :=
  b64u (String.ofList (canonicalize (withoutSignatures card)))

/-- The header that names the key. -/
def protectedHeader (kid : Str) : Value :=
  .object [(ofString "alg", .string (ofString "EdDSA")), (ofString "kid", .string kid),
    (ofString "typ", .string (ofString "a2a-agent-card+jws"))]

def protectedText (kid : Str) : String := b64u (String.ofList (protectedHeader kid).write)

/-- What is signed. -/
def signingInput (protectedPart : Str) (payload : String) : Bytes :=
  bytesOf (protectedPart ++ ofString s!".{payload}")

/-- The entry that `signCard` adds. -/
def signatureEntry (sk : P.PrivateKey) (kid : Str) (card : Value) : Value :=
  let input := signingInput (ofString (protectedText kid)) (cardPayload card)
  .object [(ofString "protected", .string (ofString (protectedText kid))),
    (ofString "signature", .string (ofString (base64UrlEncode (P.sign sk input))))]

def signCard (sk : P.PrivateKey) (kid : Str) : Value → Value
  | .object ms => .object (setMember ms (ofString "signatures")
      (.array [signatureEntry P sk kid (.object ms)]))
  | card => card

/-! ## Verifying -/

/-- What the loop makes of one signature. -/
inductive EntryOutcome where
  | verified
  | problem (text : Str)
deriving DecidableEq

def publicKeyFromJwk (jwk : Value) : Except Error P.Key :=
  if isText (jwk.get? "kty") "OKP" && isText (jwk.get? "crv") "Ed25519" &&
      truthy (jwk.get? "x") then
    P.importKey ((jwk.get? "x").getD .null)
  else .error (.error "expected an Ed25519 OKP JWK")

/-- The header of a signature, if it can be decoded. -/
def headerOf (s : Value) : Option Value :=
  match s with
  | .null => none
  | s =>
    match P.fromBase64Url (s.get? "protected") with
    | .ok bytes => jsonParse (Text.fromUtf8Lossy bytes)
    | .error _ => none

/-- `e.message` of what was thrown. -/
def messageOf : Option Value → Except Error (Option Value)
  | none | some .null => .error .typeError
  | some e => .ok (e.get? "message")

def entryLabel (i : ℕ) : Str := ofString s!"signatures[{i}]: "

/-- Whether the key signed this entry for the payload. -/
def verifies (payload : String) (s jwk : Value) : Except Error Bool := do
  let protectedPart ← template (s.get? "protected")
  let key ← publicKeyFromJwk P jwk
  let signature ← P.fromBase64Url (s.get? "signature")
  return P.verify key (signingInput protectedPart payload) signature

/-- The body of the loop, for an entry whose header is decoded. -/
def checkHeader (resolve : KeyResolver) (payload : String) (i : ℕ) (s header : Value) :
    Except Error EntryOutcome :=
  let alg := header.get? "alg"
  let kid := header.get? "kid"
  if !isText alg "EdDSA" then do
    let t ← template alg
    return .problem (entryLabel i ++ ofString "alg " ++ t ++ ofString " is not EdDSA")
  else if !truthy kid then
    .ok (.problem (entryLabel i ++ ofString "no kid"))
  else
    match resolve (kid.getD .null) with
    | .error e => do
      let message ← messageOf e
      let t ← template message
      return .problem (entryLabel i ++ t)
    | .ok jwk =>
      if !truthy jwk then do
        let t ← template kid
        return .problem (entryLabel i ++ ofString "kid " ++ t ++ ofString " did not resolve")
      else do
        let ok ← verifies P payload s (jwk.getD .null)
        if ok then return .verified
        else
          let t ← template kid
          return .problem (entryLabel i ++ ofString "signature does not verify for " ++ t)

/-- The body of the loop over the signatures. -/
def checkEntry (resolve : KeyResolver) (payload : String) (i : ℕ) (s : Value) :
    Except Error EntryOutcome :=
  match headerOf P s with
  | none => .ok (.problem (entryLabel i ++ ofString "protected header is not base64url JSON"))
  | some .null => .error .typeError
  | some header => checkHeader P resolve payload i s header

def checkEntries (resolve : KeyResolver) (payload : String) (i : ℕ) :
    List Value → Except Error (List EntryOutcome)
  | [] => .ok []
  | s :: ss => do
    let o ← checkEntry P resolve payload i s
    let os ← checkEntries resolve payload (i + 1) ss
    return o :: os

structure CardReport where
  verified : ℕ
  problems : List Str
deriving DecidableEq

/-- The report on some outcomes. -/
def cardReport (os : List EntryOutcome) : CardReport where
  verified := os.countP (· = .verified)
  problems := os.filterMap fun
    | .verified => none
    | .problem t => some t

/-- `card?.signatures`, where it is an array. -/
def signaturesOf (card : Value) : List Value :=
  match card.get? "signatures" with
  | some (.array ss) => ss
  | _ => []

/-- What the loop makes of each signature of a card. -/
def outcomes (resolve : KeyResolver) (card : Value) : Except Error (List EntryOutcome) :=
  checkEntries P resolve (cardPayload card) 0 (signaturesOf card)

def verifyCard (resolve : KeyResolver) (card : Value) : Except Error CardReport :=
  if (signaturesOf card).isEmpty then .ok ⟨0, [ofString "card carries no signatures"]⟩
  else (outcomes P resolve card).map cardReport

end Gatekeeper.Agent
