import Gatekeeper.Lib.Interaction
import Gatekeeper.Lib.JsValue

/-!
# `x402.mjs`: paying for a resource

The client side of a 402 payment: read the challenge, pick a requirement, price it, ask the
mandate, sign. Headers and bodies appear as the values they decode to.
-/

namespace Gatekeeper.Agent

open Interaction Js

/-! ## What the client calls -/

/-- `ethers.getAddress` (`none` where it throws) and the largest power of ten the engine
computes as a big integer. -/
structure Platform where
  getAddress : String → Option String
  maxPow : ℕ
  maxPow_lt : maxPow < 2 ^ 53

/-- The `Action` a payment requirement becomes. -/
structure PayAction where
  kind : String
  asset : Value
  amountCents : Number
  counterparty : Value

structure Eip712Domain where
  name : Value
  version : String
  chainId : Number
  verifyingContract : String

/-- The message of a `TransferWithAuthorization`. -/
structure Authorization where
  fromAddress : String
  toAddress : String
  value : String
  validAfter : String
  validBefore : String
  nonce : String
deriving DecidableEq

/-- The payment payload. `resource` is there when the challenge names one. -/
structure Payment where
  x402Version : ℕ
  resource : Option Value
  accepted : Value
  signature : String
  authorization : Authorization

/-- A response, with its two x402 headers decoded. `body` is `none` when it is not JSON. -/
structure Response where
  status : ℕ
  required : Value
  body : Option Value
  receipt : Value

/-- The calls of the client. `fetch` carries the payment of its signature header. -/
inductive ClientOp where
  | fetch (url : String) (payment : Option Payment)
  | decide (action : PayAction) (requirement challenge : Value)
  | nowSecs
  | getAddress
  | randomBytes
  | signTypedData (domain : Eip712Domain) (authorization : Authorization)
  | settle (payment : Payment) (requirement : Value)

@[reducible] def ClientOp.Res : ClientOp → Type
  | fetch _ _ => Except Error Response
  | decide _ _ _ => Except Error Value
  | nowSecs => ℕ
  | getAddress => Except Error String
  | randomBytes => String
  | signTypedData _ _ => Except Error String
  | settle _ _ => Except Error Value

/-- A client function while it runs. -/
abbrev Client (α : Type) : Type := Prog ClientOp ClientOp.Res Error α

abbrev ClientEvent : Type := Event ClientOp ClientOp.Res

/-! ## Reading the challenge -/

/-- Header first, body as the fallback, `null` when there is none. -/
def readChallenge (res : Response) : Value :=
  if res.required.truthy then res.required
  else
    match res.body with
    | some body => if (body.get? "x402Version").truthy then body else .null
    | none => .null

/-! ## Networks and units -/

/-- The digits of a CAIP-2 name `eip155:<digits>`, as a number. -/
def caipChain (s : String) : Option ℕ :=
  if "eip155:".toList.isPrefixOf s.toList then digits 10 (s.toList.drop 7) else none

def chainIdFor (network : Value) : Except Error Number := do
  let s ← (network.orElse (.string "")).text
  match caipChain s with
  | some n => return Number.ofNat n
  | none =>
    .error (.error
      s!"x402: unsupported network {network.json} — expected CAIP-2 eip155:<chainId>")

/-- The decimals an asset declares, when they are a whole number from 2 up. -/
def declaredDecimals : Value → Option ℕ
  | .number (.whole d) => if d.val < 2 then none else some d.val.toNat
  | _ => none

/-- `10n ** BigInt(e)`. -/
def pow10 (P : Platform) (e : ℕ) : Except Error ℕ :=
  if e ≤ P.maxPow then .ok (10 ^ e) else .error .rangeError

/-- The division of `amountToCents`, which rounds up. -/
def wholeCents (atomic perCent : ℕ) : ℕ := (atomic + perCent - 1) / perCent

/-- Atomic token units in cents. -/
def amountToCents (P : Platform) (amount decimals : Value) : Except Error Number :=
  match declaredDecimals decimals with
  | none => do
    let shown ← decimals.text
    .error (.error
      s!"x402: refusing to price an asset with unknown decimals ({shown}) — set extra.decimals")
  | some d => do
    let atomic ← amount.toBigInt
    if atomic < 0 then .error (.error "x402: negative amount")
    else
      let perCent ← pow10 P (d - 2)
      return Number.ofNat (wholeCents atomic.toNat perCent)

def paymentKind : String := "x402.pay"

def actionForRequirement (P : Platform) (requirement decimals : Value) :
    Except Error PayAction := do
  let extra := requirement.get? "extra"
  let amount ← requirement.get "amount"
  let cents ← amountToCents P amount (decimals.orElse (extra.get? "decimals"))
  let payTo ← requirement.get "payTo"
  return {
    kind := paymentKind
    asset := (extra.get? "name").orElse ((requirement.get? "asset").orElse (.string ""))
    amountCents := cents
    counterparty := payTo }

/-! ## Picking a requirement -/

/-- The client can satisfy this requirement. An empty `network` asks for none. -/
def isUsable (scheme : String) (network : Option String) (a : Value) : Except Error Bool := do
  let s ← a.get "scheme"
  if s.isString scheme then
    match network.filter (· ≠ "") with
    | none => return true
    | some n => do
      let w ← a.get "network"
      return w.isString n
  else return false

def usable (scheme : String) (network : Option String) : List Value → Except Error (List Value)
  | [] => .ok []
  | a :: accepts => do
    let keep ← isUsable scheme network a
    let rest ← usable scheme network accepts
    return if keep then a :: rest else rest

/-- `scheme/network` of a requirement that was offered. -/
def offer (a : Value) : Except Error String := do
  let s ← a.get "scheme" >>= Value.text
  let n ← a.get "network" >>= Value.text
  return s!"{s}/{n}"

/-- The error when nothing offered is usable. -/
def noRequirement (scheme : String) (network : Option String) (accepts : List Value) :
    Except Error Value := do
  let offers ← accepts.mapM offer
  let asked := ((network.filter (· ≠ "")).map fun n => s!" network={n}").getD ""
  let offered := if ", ".intercalate offers = "" then "none" else ", ".intercalate offers
  .error (.error s!"x402: no requirement matches scheme={scheme}{asked} (offered: {offered})")

def selectRequirement (challenge : Value) (scheme : String) (network : Option String) :
    Except Error Value :=
  match (challenge.get? "accepts").orElse (.array []) with
  | .array accepts => do
    match ← usable scheme network accepts with
    | requirement :: _ => return requirement
    | [] => noRequirement scheme network accepts
  | _ => .error .typeError

/-! ## Signing -/

/-- `ethers.getAddress` of any value; only a text is an address. -/
def addressOf (P : Platform) : Value → Except Error String
  | .string s =>
    match P.getAddress s with
    | some a => .ok a
    | none => .error .typeError
  | _ => .error .typeError

def eip712Domain (P : Platform) (requirement : Value) : Except Error Eip712Domain := do
  let name := (requirement.get? "extra").get? "name"
  let version := (requirement.get? "extra").get? "version"
  if ¬ (name.truthy ∧ version.truthy) then
    .error (.error "x402: requirement.extra must carry the token's EIP-712 `name` and `version`")
  else
    let version ← version.text
    let chainId ← requirement.get "network" >>= chainIdFor
    let verifyingContract ← requirement.get "asset" >>= addressOf P
    return { name, version, chainId, verifyingContract }

def validForSecs : ℕ := 600

/-- The message that is signed. `validAfter` allows for a minute between two clocks. -/
def authorizationAt (now : ℕ) (fromAddress toAddress value nonce : String) : Authorization where
  fromAddress := fromAddress
  toAddress := toAddress
  value := value
  validAfter := toString ((now : ℤ) - 60)
  validBefore := toString (now + validForSecs)
  nonce := nonce

def signPayment (P : Platform) (requirement resource : Value) : Client Payment := do
  let domain ← Prog.ofExcept (eip712Domain P requirement)
  let now ← Prog.perform ClientOp.nowSecs
  let fromAddress ← Prog.perform ClientOp.getAddress >>= Prog.ofExcept
  let toAddress ← Prog.ofExcept (requirement.get "payTo" >>= addressOf P)
  let value ← Prog.ofExcept (requirement.get "amount" >>= Value.text)
  let nonce ← Prog.perform ClientOp.randomBytes
  let authorization := authorizationAt now fromAddress toAddress value nonce
  let signature ←
    Prog.perform (ClientOp.signTypedData domain authorization) >>= Prog.ofExcept
  return {
    x402Version := 2
    resource := if resource.truthy then some resource else none
    accepted := requirement
    signature, authorization }

/-! ## The whole flow -/

/-- The options of `fetchWithMandate` apart from the calls it makes. -/
structure Options where
  wallet : Bool := true
  scheme : String := "exact"
  network : Option String := none
  decimals : Value := .undefined
  settleWith : Bool := false

inductive FetchResult where
  | notRequired (response : Response)
  | refused (response : Response) (action : PayAction) (requirement decision : Value)
  | paid (response : Response) (action : PayAction) (requirement : Value) (payment : Payment)
      (settlement : Option Value) (receipt : Value)

/-- `settle`, when the caller asks for it. -/
def settleIfAsked (opts : Options) (payment : Payment) (requirement : Value) :
    Client (Option Value) :=
  if opts.settleWith then do
    let settlement ← Prog.perform (ClientOp.settle payment requirement) >>= Prog.ofExcept
    return some settlement
  else return none

/-- Sign, settle, and fetch again with the payment. -/
def payAndRetry (P : Platform) (url : String) (opts : Options) (challenge requirement : Value)
    (action : PayAction) : Client FetchResult := do
  let payment ← signPayment P requirement (challenge.get? "resource")
  let settlement ← settleIfAsked opts payment requirement
  let retry ← Prog.perform (ClientOp.fetch url (some payment)) >>= Prog.ofExcept
  return .paid retry action requirement payment settlement retry.receipt

def isApproval (verdict : Value) : Bool := (verdict.get? "decision").isString "approved"

/-- The mandate decides, and an approved payment is made. -/
def payIfApproved (P : Platform) (url : String) (opts : Options) (first : Response)
    (challenge requirement : Value) (action : PayAction) : Client FetchResult := do
  let verdict ← Prog.perform (ClientOp.decide action requirement challenge) >>= Prog.ofExcept
  if ¬ isApproval verdict then
    return .refused first action requirement verdict
  else if ¬ opts.wallet then
    Prog.fail (.error
      "x402: the mandate approved this payment but no wallet is configured (set X402_PRIVATE_KEY)")
  else payAndRetry P url opts challenge requirement action

/-- Pick, price and ask, for a challenge that is there. -/
def payChallenge (P : Platform) (url : String) (opts : Options) (first : Response)
    (challenge : Value) : Client FetchResult := do
  if ¬ challenge.truthy then
    Prog.fail (.error "x402: 402 response carried no payment requirements")
  else
    let requirement ← Prog.ofExcept (selectRequirement challenge opts.scheme opts.network)
    let action ← Prog.ofExcept (actionForRequirement P requirement opts.decimals)
    payIfApproved P url opts first challenge requirement action

def fetchWithMandate (P : Platform) (url : String) (opts : Options) : Client FetchResult := do
  let first ← Prog.perform (ClientOp.fetch url none) >>= Prog.ofExcept
  if first.status ≠ 402 then return .notRequired first
  else payChallenge P url opts first (readChallenge first)

end Gatekeeper.Agent
