import Gatekeeper.Gate.Basic

/-!
# The rules of the gate

The host-independent functions of `gate.rs`: the idempotency key check, the routing test
for bodies, the credential binding and the mandate decision.
-/

namespace Gatekeeper.Gate

open Encoding Text

/-! ## Idempotency -/

def maxIdempotencyKeyLen : ℕ := 128

/-- The characters a key may be made of. -/
def isKeyChar (c : Char) : Bool := c.isAlphanum || c == '-' || c == '_' || c == ':'

/-- The key of a request: trimmed, and none when nothing is left. -/
def trimmedKey (key : Option String) : Option String :=
  (key.map trim).filter fun k => k ≠ ""

def checkIdempotency (key : Option String) (require : Bool) : Except String (Option String) :=
  match trimmedKey key with
  | none =>
    if require then .error "mandate requires an idempotency key, none supplied" else .ok none
  | some k =>
    if k.utf8ByteSize > maxIdempotencyKeyLen then
      .error s!"idempotency key longer than {maxIdempotencyKeyLen} characters"
    else if ¬ k.toList.all isKeyChar then
      .error "idempotency key may contain only letters, digits, '-', '_' and ':'"
    else .ok (some k)

def needsPlaceholders (body : String) : Bool := contains body "\x7b\x7bprofile."

/-! ## Credential binding -/

def bindingDomain : String := "t3-gatekeeper/cred-binding/v1"

/-- The bytes `sha256_hex` feeds to the hash. -/
def preimage (parts : List String) : Bytes := frames (parts.map utf8)

def sha256Hex (C : Crates) (parts : List String) : String :=
  hexEncode (C.sha256 (preimage parts))

/-- The fields of an action that its digest covers. -/
def actionParts (action : Action) : List String :=
  [action.kind, action.asset, toString action.amountCents,
    (action.counterparty.map (·.val)).getD ""]

def actionDigest (C : Crates) (action : Action) : String := sha256Hex C (actionParts action)

/-- The fields the commitment covers. -/
def commitmentParts (C : Crates) (binding : CredentialBinding) (action : Action) : List String :=
  [bindingDomain, binding.issuer, binding.subject, binding.claimsDigest, actionDigest C action,
    binding.nonce]

def expectedCommitment (C : Crates) (binding : CredentialBinding) (action : Action) : String :=
  sha256Hex C (commitmentParts C binding action)

/-- The text of a commitment mismatch, or `none` where slicing the commitment panics. -/
def mismatchMessage (expected commitment : String) : Option String := do
  let e ← sliceTo expected (min 16 expected.utf8ByteSize)
  let c ← sliceTo commitment (min 16 commitment.utf8ByteSize)
  return s!"credential binding does not match this action (expected {e}, got {c})"

def checkBinding (C : Crates) (binding : Option CredentialBinding) (action : Action)
    (require : Bool) : Except Fault Unit :=
  match binding with
  | none =>
    if require then .error (.err "mandate requires a credential binding, none supplied")
    else .ok ()
  | some b =>
    if b.nonce.val = "" then .error (.err "credential binding has an empty nonce")
    else if expectedCommitment C b action ≠ b.commitment then
      match mismatchMessage (expectedCommitment C b action) b.commitment with
      | some message => .error (.err message)
      | none => .error .panic
    else
      match action.issuer with
      | some i =>
        if i ≠ b.issuer then
          .error (.err (s!"action issuer {i.val} is not the issuer in the credential binding " ++
            s!"({b.issuer.val})"))
        else .ok ()
      | none => .ok ()

/-! ## The mandate decision -/

/-- Deny by default: an empty list permits nothing, `"*"` permits everything. -/
def listAllows (list : List String) (value : String) : Bool :=
  list.any fun x => x == "*" || x == value

/-- The reason of a list that is only enforced when it is not empty. -/
def optInReason (list : List String) (value : Option RString) (missing : String)
    (unlisted : String → String) : Option String :=
  if list.isEmpty then none
  else
    match value with
    | some v => if listAllows list v then none else some (unlisted v)
    | none => some missing

def validAfterReason (mandate : Mandate) (nowSecs : UInt64) : Option String :=
  if mandate.validAfterSecs ≠ 0 ∧ nowSecs < mandate.validAfterSecs then
    some s!"mandate not active until {mandate.validAfterSecs} (now {nowSecs})"
  else none

def expiryReason (mandate : Mandate) (nowSecs : UInt64) : Option String :=
  if mandate.expiresAtSecs ≠ 0 ∧ nowSecs > mandate.expiresAtSecs then
    some s!"mandate expired at {mandate.expiresAtSecs} (now {nowSecs})"
  else none

def kindReason (C : Crates) (action : Action) (mandate : Mandate) : Option String :=
  if listAllows mandate.allowedKinds action.kind then none
  else
    let allowed := debugStrs C.escapesInDebug mandate.allowedKinds
    some s!"action kind '{action.kind.val}' not permitted (allowed_kinds={allowed})"

def assetReason (C : Crates) (action : Action) (mandate : Mandate) : Option String :=
  if listAllows mandate.allowedAssets action.asset then none
  else
    let allowed := debugStrs C.escapesInDebug mandate.allowedAssets
    some s!"asset '{action.asset.val}' not permitted (allowed_assets={allowed})"

def counterpartyReason (C : Crates) (action : Action) (mandate : Mandate) : Option String :=
  let allowed := debugStrs C.escapesInDebug mandate.allowedCounterparties
  optInReason mandate.allowedCounterparties action.counterparty
    "counterparty required by mandate but none supplied"
    fun cp => s!"counterparty '{cp}' not permitted (allowed_counterparties={allowed})"

def issuerReason (C : Crates) (action : Action) (mandate : Mandate) : Option String :=
  let allowed := debugStrs C.escapesInDebug mandate.allowedIssuers
  optInReason mandate.allowedIssuers action.issuer
    "credential issuer required by mandate but none supplied"
    fun iss => s!"credential issuer '{iss}' not trusted (allowed_issuers={allowed})"

def amountReason (action : Action) (mandate : Mandate) : Option String :=
  if action.amountCents > mandate.maxAmountCents then
    some s!"amount {action.amountCents} exceeds mandate max {mandate.maxAmountCents}"
  else none

/-- `counterparty_limits.get(cp)`. -/
def subLimit (mandate : Mandate) (action : Action) : Option UInt64 :=
  action.counterparty.bind fun cp => mandate.counterpartyLimits.lookup cp.val

def subLimitReason (action : Action) (mandate : Mandate) : Option String :=
  match subLimit mandate action with
  | some limit =>
    if action.amountCents > limit then
      let cp := (action.counterparty.map (·.val)).getD ""
      some s!"amount {action.amountCents} exceeds the per-counterparty limit {limit} for '{cp}'"
    else none
  | none => none

/-- What each check of `decide` pushes, in the order it is made. -/
def checks (C : Crates) (action : Action) (mandate : Mandate) (nowSecs : UInt64) :
    List (Option String) :=
  [validAfterReason mandate nowSecs, expiryReason mandate nowSecs, kindReason C action mandate,
    assetReason C action mandate, counterpartyReason C action mandate,
    issuerReason C action mandate, amountReason action mandate, subLimitReason action mandate]

/-- `decide`: whether every check passed, and the reasons of those that did not. -/
protected def decide (C : Crates) (action : Action) (mandate : Mandate) (nowSecs : UInt64) :
    Bool × List String :=
  let reasons := (checks C action mandate nowSecs).reduceOption
  (reasons.isEmpty, reasons)

end Gatekeeper.Gate
