import Gatekeeper.Agent.X402
import Gatekeeper.Lib.Base64
import Gatekeeper.Lib.EcmaOps
import Gatekeeper.Lib.Text

/-!
# `x402.mjs`: a payment between its two sides

The payment as the JSON value that travels in a header: the codec of the headers, the domain and
the message that are signed, signing, and the check of the server. `ethers` is the platform's.
`ModelAgreement` relates the signing to that of `X402`.
-/

namespace Gatekeeper.Agent.Exchange

open Ecma Encoding
open Js (Error Numeric)

/-! ## What is signed -/

structure Eip712Domain where
  name : Value
  version : Str
  chainId : Numeric
  verifyingContract : String

/-- The fields of a `TransferWithAuthorization` as they stand in a payload. -/
structure Authorization where
  fromAddress : Option Value
  toAddress : Option Value
  value : Option Value
  validAfter : Option Value
  validBefore : Option Value
  nonce : Option Value

/-- The message that they stand for. -/
structure Transfer where
  fromAddress : String
  toAddress : String
  value : ℕ
  validAfter : ℕ
  validBefore : ℕ
  nonce : Bytes
deriving DecidableEq

/-- `ethers`, and the base64 decoder of `Buffer`. -/
structure Ethers where
  Wallet : Type
  address : Wallet → String
  getAddress : Option Value → Except Error String
  /-- The number that a field of type `uint256` is encoded as. -/
  uint256 : Option Value → Except Error ℕ
  bytes32 : Option Value → Except Error Bytes
  sign : Wallet → Eip712Domain → Transfer → Except Error String
  /-- The address that a signature recovers to. -/
  recover : Eip712Domain → Transfer → Value → Except Error String
  /-- `String(e.shortMessage ?? e.message)`. -/
  message : Error → Str
  fromBase64 : String → Bytes

variable (E : Ethers)

def transferOf (a : Authorization) : Except Error Transfer := do
  let fromAddress ← E.getAddress a.fromAddress
  let toAddress ← E.getAddress a.toAddress
  let value ← E.uint256 a.value
  let validAfter ← E.uint256 a.validAfter
  let validBefore ← E.uint256 a.validBefore
  let nonce ← E.bytes32 a.nonce
  return { fromAddress, toAddress, value, validAfter, validBefore, nonce }

def signTypedData (wallet : E.Wallet) (domain : Eip712Domain) (a : Authorization) :
    Except Error String := do
  let m ← transferOf E a
  E.sign wallet domain m

def verifyTypedData (domain : Eip712Domain) (a : Authorization) (signature : Value) :
    Except Error String := do
  let m ← transferOf E a
  E.recover domain m signature

/-! ## The header codec -/

def encodeHeader (obj : Value) : String := base64Encode (utf8 (String.ofList obj.write))

def decodeHeader : Option String → Value
  | none => .null
  | some value =>
    if value = "" then .null
    else (jsonParse (Text.fromUtf8Lossy (E.fromBase64 value))).getD .null

def headerSignature : String := "payment-signature"

def legacySignatureHeaders : List String := ["x-payment"]

/-- The first header with a payment, or `null`. -/
def readPaymentHeader (headers : String → Option String) : Value :=
  (((headerSignature :: legacySignatureHeaders).map fun name => decodeHeader E (headers name)).find?
    fun decoded => truthy (some decoded)).getD .null

/-! ## The domain -/

/-- `requirement?.extra?.name`. -/
def extra (requirement : Value) (name : String) : Option Value :=
  (requirement.get? "extra").bind fun e => e.get? name

/-- `JSON.stringify(v)` in a template. -/
def jsonText : Option Value → String
  | none => "undefined"
  | some v => String.ofList v.write

def chainIdFor (network : Option Value) : Except Error Numeric := do
  let s ← template (match network with
    | none | some .null => some (.string [])
    | network => network)
  match caipChain (plain s) with
  | some n => return .ofRat n
  | none =>
    .error (.error
      s!"x402: unsupported network {jsonText network} — expected CAIP-2 eip155:<chainId>")

def eip712Domain (requirement : Value) : Except Error Eip712Domain :=
  let name := extra requirement "name"
  let version := extra requirement "version"
  if !(truthy name && truthy version) then
    .error (.error "x402: requirement.extra must carry the token's EIP-712 `name` and `version`")
  else do
    let version ← template version
    let chainId ← chainIdFor (requirement.get? "network")
    let verifyingContract ← E.getAddress (requirement.get? "asset")
    return { name := name.getD .null, version, chainId, verifyingContract }

/-! ## Signing -/

def textOf (s : String) : Value := .string (ofString s)

/-- `String(x)` of a number. -/
def numberText (x : Numeric) : String := String.ofList x.text

/-- The `authorization` that is signed. `validAfter` allows for a minute between two clocks. -/
def authorizationAt (now validForSecs : Numeric) (fromAddress toAddress : String) (value : Str)
    (nonce : String) : Value :=
  .object [(ofString "from", textOf fromAddress), (ofString "to", textOf toAddress),
    (ofString "value", .string value),
    (ofString "validAfter", textOf (numberText (now.sub (.ofRat 60)))),
    (ofString "validBefore", textOf (numberText (now.add validForSecs))),
    (ofString "nonce", textOf nonce)]

/-- The fields that are read off an `authorization`. -/
def authorizationOf (auth : Option Value) : Authorization where
  fromAddress := auth.bind fun a => a.get? "from"
  toAddress := auth.bind fun a => a.get? "to"
  value := auth.bind fun a => a.get? "value"
  validAfter := auth.bind fun a => a.get? "validAfter"
  validBefore := auth.bind fun a => a.get? "validBefore"
  nonce := auth.bind fun a => a.get? "nonce"

def resourceMember (resource : Option Value) : List (Str × Value) :=
  if truthy resource then [(ofString "resource", resource.getD .null)] else []

/-- The payment payload. -/
def paymentOf (requirement : Value) (resource : Option Value) (signature : String)
    (authorization : Value) : Value :=
  .object ((ofString "x402Version", .number (.ofRat 2)) :: resourceMember resource ++
    [(ofString "accepted", requirement),
      (ofString "payload", .object [(ofString "signature", textOf signature),
        (ofString "authorization", authorization)])])

def signPayment (requirement : Value) (resource : Option Value) (wallet : E.Wallet)
    (nonce : String) (now validForSecs : Numeric) : Except Error Value := do
  let domain ← eip712Domain E requirement
  let toAddress ← E.getAddress (requirement.get? "payTo")
  let value ← template (requirement.get? "amount")
  let authorization := authorizationAt now validForSecs (E.address wallet) toAddress value nonce
  let signature ← signTypedData E wallet domain (authorizationOf (some authorization))
  return paymentOf requirement resource signature authorization

/-! ## The check of the server -/

structure Report where
  isValid : Bool
  invalidReason : Option Str
  payer : Option String
deriving DecidableEq

def fail (invalidReason : Str) (payer : Option String) : Report :=
  ⟨false, some invalidReason, payer⟩

/-- The time is in the window of the authorization. -/
def checkWindow (a : Authorization) (payer : String) (now : Numeric) : Except Error Report := do
  let validAfter ← toNumber a.validAfter
  if now.lt validAfter then
    return fail (ofString "authorization is not valid yet") (some payer)
  else
    let validBefore ← toNumber a.validBefore
    if validBefore.le now then return fail (ofString "authorization has expired") (some payer)
    else return ⟨true, none, some payer⟩

def checkAmount (a : Authorization) (requirement : Value) (payer : String) (now : Numeric) :
    Except Error Report := do
  let value ← toBigInt a.value
  let amount ← toBigInt (requirement.get? "amount")
  if value < amount then
    let authorised ← template a.value
    let required ← template (requirement.get? "amount")
    return fail (ofString "authorises " ++ authorised ++ ofString ", less than the required " ++
      required) (some payer)
  else checkWindow a payer now

/-- The signature is valid for something. These checks decide whether it is for this request. -/
def checkRequest (a : Authorization) (requirement : Value) (payer : String) (now : Numeric) :
    Except Error Report := do
  let signer ← E.getAddress (some (textOf payer))
  let fromAddress ← E.getAddress a.fromAddress
  if signer ≠ fromAddress then
    return fail (ofString "signature was not produced by authorization.from") (some payer)
  else
    let toAddress ← E.getAddress a.toAddress
    let payTo ← E.getAddress (requirement.get? "payTo")
    if toAddress ≠ payTo then
      let paid ← template a.toAddress
      let expected ← template (requirement.get? "payTo")
      return fail (ofString "pays " ++ paid ++ ofString ", but this resource is paid at " ++
        expected) (some payer)
    else checkAmount a requirement payer now

/-- A field of `paymentPayload?.payload`. -/
def payloadField (paymentPayload : Value) (name : String) : Option Value :=
  (paymentPayload.get? "payload").bind fun p => p.get? name

def verifyPayment (paymentPayload requirement : Value) (now : Numeric) : Except Error Report :=
  let version := paymentPayload.get? "x402Version"
  let auth := payloadField paymentPayload "authorization"
  let signature := payloadField paymentPayload "signature"
  if !isNumber version (.ofRat 2) then do
    let t ← template version
    return fail (ofString "unsupported x402Version " ++ t) none
  else if !(truthy auth && truthy signature) then
    .ok (fail (ofString "payload is missing signature or authorization") none)
  else if !(truthy (extra requirement "name") && truthy (extra requirement "version")) then
    .ok (fail (ofString
      "server requirement has no EIP-712 domain (extra.name / extra.version)") none)
  else
    match (do
      let domain ← eip712Domain E requirement
      verifyTypedData E domain (authorizationOf auth) (signature.getD .null)) with
    | .error e =>
      .ok (fail (ofString "signature does not recover: " ++ (E.message e).take 120) none)
    | .ok payer => checkRequest E (authorizationOf auth) requirement payer now

end Gatekeeper.Agent.Exchange
