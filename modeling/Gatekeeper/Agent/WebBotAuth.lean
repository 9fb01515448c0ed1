import Gatekeeper.Lib.Base64
import Gatekeeper.Lib.JsValue
import Gatekeeper.Lib.Pattern

/-!
# HTTP message signatures

The functions of `web-bot-auth.mjs`: the signature base, signing, verifying, and the key
directory. URLs, Ed25519, SHA-256 and the import of keys are the platform's.
-/

namespace Gatekeeper.Agent

open Encoding Js Pattern Text

/-! ## The platform -/

/-- A URL that `new URL(..)` has read. `scheme` is its protocol without the colon. -/
structure Url where
  scheme : String
  host : String
  hostname : String
  pathname : String
  origin : String
deriving DecidableEq

/-- What the signatures rest on. -/
structure SigPlatform where
  Key : Type
  PrivateKey : Type
  publicKey : PrivateKey → Key
  /-- `sign(null, ..)` and `verify(null, ..)` of `node:crypto`. -/
  sign : PrivateKey → Bytes → Bytes
  verify : Key → Bytes → Bytes → Bool
  /-- The key that the `x` of a JWK stands for. -/
  importKey : Value → Except Error Key
  sha256 : Bytes → Bytes
  /-- `Buffer.from(.., "base64")`. -/
  fromBase64 : String → Bytes
  parseUrl : String → Option Url
  /-- What a plain object inherits under a name, as text. -/
  inherited : String → Option String
  /-- The message of an error that the language raises. -/
  message : Error → String

variable (P : SigPlatform)

def errorMessage : Error → String
  | .error message => message
  | e => P.message e

/-! ## The signature base -/

def baseComponents : List String := ["@method", "@authority", "@path"]

def contentDigest (body : Bytes) : String := s!"sha-256=:{base64Encode (P.sha256 body)}:"

/-- What the values of components are taken from. `header` reads the headers object. -/
structure Context where
  method : String
  url : String
  contentDigestValue : Option String
  header : String → Option String

def toLowercase (s : String) : String := String.ofList (s.toList.map Char.toLower)

/-- The value of a component, or `none` where it throws. -/
def componentValue (ctx : Context) (component : String) : Option String := do
  let u ← P.parseUrl ctx.url
  if component = "@method" then some (toAsciiUppercase ctx.method)
  else if component = "@authority" then some u.host
  else if component = "@path" then some (if u.pathname = "" then "/" else u.pathname)
  else if component = "content-digest" then some (ctx.contentDigestValue.getD "undefined")
  else if component.toList.head? = some '@' then none
  else
    let v ← (ctx.header component).or (ctx.header (toLowercase component))
    some (String.ofList (trimWhite v.toList))

/-- The line of a component with its value. -/
def componentLine (component value : String) : String := s!"\"{component}\": {value}"

def componentLines (ctx : Context) (components : List String) : Option (List String) :=
  components.mapM fun c => (componentValue P ctx c).map (componentLine c)

/-- The text that is signed: a line for each component, and the parameters. -/
def signatureBase (lines : List String) (sigParamsValue : String) : String :=
  joinLines (lines ++ [componentLine "@signature-params" sigParamsValue])

/-! ## Signing -/

structure SigningParams where
  keyid : String
  created : ℕ
  expires : ℕ
  nonce : String

def sigParamsText (components : List String) (params : SigningParams) : String :=
  let inner := " ".intercalate (components.map fun c => s!"\"{c}\"")
  s!"({inner});created={params.created};expires={params.expires}" ++
    s!";keyid=\"{params.keyid}\";alg=\"ed25519\";nonce=\"{params.nonce}\";tag=\"web-bot-auth\""

structure OutRequest where
  method : String
  url : String
  body : String

structure SignedHeaders where
  signatureInput : String
  signature : String
  contentDigest : Option String
deriving DecidableEq

/-- The body digest is covered when there is a body. -/
def coveredComponents (req : OutRequest) : List String :=
  if req.body = "" then baseComponents else baseComponents ++ ["content-digest"]

def signingContext (req : OutRequest) : Context where
  method := req.method
  url := req.url
  contentDigestValue := if req.body = "" then none else some (contentDigest P (utf8 req.body))
  header := fun _ => none

/-- `signRequest`, or `none` where the URL cannot be read. -/
def signRequest (sk : P.PrivateKey) (req : OutRequest) (params : SigningParams) :
    Option SignedHeaders := do
  let components := coveredComponents req
  let lines ← componentLines P (signingContext P req) components
  let sigParamsValue := sigParamsText components params
  let sig := base64Encode (P.sign sk (utf8 (signatureBase lines sigParamsValue)))
  return {
    signatureInput := s!"sig1={sigParamsValue}"
    signature := s!"sig1=:{sig}:"
    contentDigest := (signingContext P req).contentDigestValue }

/-! ## Reading a signature -/

def isLabelChar (c : Char) : Bool := c.isAlphanum || c == '_' || c == '-'

/-- `^([A-Za-z0-9_-]+)=(.+)$`. -/
def labelledValue (s : String) : Option (String × String) :=
  let label := s.toList.takeWhile isLabelChar
  match s.toList.drop label.length with
  | '=' :: value =>
    if label ≠ [] ∧ value ≠ [] ∧ value.any isLineEnd = false then
      some (String.ofList label, String.ofList value)
    else none
  | _ => none

/-- `^([A-Za-z0-9_-]+)=:(.+):$`. -/
def labelledBytes (s : String) : Option (String × String) := do
  let (label, value) ← labelledValue s
  match value.toList with
  | ':' :: rest =>
    if rest.getLast? = some ':' ∧ rest.dropLast ≠ [] then
      some (label, String.ofList rest.dropLast)
    else none
  | _ => none

/-- `Number(..)` of digits, where it is finite. -/
def finiteNumber (n : ℕ) : Option ℕ :=
  if Nat.log2 (Double.round n) < 1024 then some (Double.round n) else none

def keyidOf (params : String) : Option String :=
  firstMatch (enclosed "keyid=\"" '"') params.toList

def nonceOf (params : String) : Option String :=
  firstMatch (enclosed "nonce=\"" '"') params.toList

def createdOf (params : String) : Option ℕ :=
  (firstMatch (digitsAfter "created=") params.toList).bind finiteNumber

def expiresOf (params : String) : Option ℕ :=
  (firstMatch (digitsAfter "expires=") params.toList).bind finiteNumber

/-- The names in the inner list. -/
def componentNames (inner : List Char) : List String :=
  ((inner.splitOn ' ').filter (· ≠ [])).map fun x => String.ofList (x.filter (· ≠ '"'))

/-- The components named by the list that the parameters start with. -/
def componentsOf (params : String) : Option (List String) :=
  match params.toList with
  | '(' :: rest =>
    let inner := rest.takeWhile (· ≠ ')')
    if (rest.drop inner.length).head? = some ')' then some (componentNames inner) else none
  | _ => none

/-- A signature as its two headers spell it. -/
structure SignatureParts where
  params : String
  components : List String
  signature : String
deriving DecidableEq

def readSignature (signatureInput signature : String) : Option SignatureParts := do
  let (label, params) ← labelledValue signatureInput
  let (label', sig) ← labelledBytes signature
  if label = label' then
    let components ← componentsOf params
    some { params, components, signature := sig }
  else none

/-! ## Verifying -/

structure VerifyOptions where
  maxAgeSeconds : ℕ := 300
  skewSeconds : ℕ := 30
  expectedKeyid : String
  now : ℕ

/-- The times a signature states, against the clock. Sums of doubles of this size are exact. -/
def isFresh (opts : VerifyOptions) (params : String) : Bool :=
  match createdOf params, expiresOf params with
  | some created, some expires =>
    created ≤ opts.now + opts.skewSeconds && opts.now ≤ expires + opts.skewSeconds &&
      opts.now ≤ created + opts.maxAgeSeconds
  | _, _ => false

/-- The request that is verified, with the headers it needs for that. -/
structure VerifyRequest where
  method : String
  url : String
  body : Bytes
  signatureAgent : Option String
  contentDigest : String

/-- The headers object that the verifier is given. -/
def requestHeader (signatureAgent : Option String) (name : String) : Option String :=
  if name = "signature-agent" then signatureAgent else P.inherited name

def verifyContext (req : VerifyRequest) (components : List String) : Context where
  method := req.method
  url := req.url
  contentDigestValue :=
    if "content-digest" ∈ components then some (contentDigest P req.body) else none
  header := requestHeader P req.signatureAgent

/-- A covered body digest is the one of the body that came. -/
def digestMatches (req : VerifyRequest) (components : List String) : Bool :=
  !components.contains "content-digest" || req.contentDigest == contentDigest P req.body

/-- The base rebuilt from the request; the parameters are taken as they came. -/
def rebuiltBase (req : VerifyRequest) (parts : SignatureParts) : Option String :=
  if digestMatches P req parts.components then
    (componentLines P (verifyContext P req parts.components) parts.components).map
      fun lines => signatureBase lines parts.params
  else none

/-- The checks that need neither the request nor the key. -/
def acceptsParts (opts : VerifyOptions) (parts : SignatureParts) : Bool :=
  contains parts.params "tag=\"web-bot-auth\"" &&
    keyidOf parts.params == some opts.expectedKeyid && isFresh opts parts.params

def verifyRequest (opts : VerifyOptions) (key : P.Key) (req : VerifyRequest)
    (signatureInput signature : String) : Bool :=
  match readSignature signatureInput signature with
  | none => false
  | some parts =>
    acceptsParts opts parts &&
      match rebuiltBase P req parts with
      | none => false
      | some base => P.verify key (utf8 base) (P.fromBase64 parts.signature)

/-! ## Key directories -/

/-- `find` by `kid`. -/
def findKey (keyid : String) : List Value → Except Error (Option Value)
  | [] => .ok none
  | k :: ks => do
    let kid ← k.get "kid"
    if kid.isString keyid then return some k else findKey keyid ks

/-- The key of a JWK. -/
def keyOfJwk (jwk : Value) : Except Error P.Key := do
  if (jwk.get? "kty").isString "OKP" && (jwk.get? "crv").isString "Ed25519" then
    P.importKey (jwk.get? "x")
  else
    let kty ← (jwk.get? "kty").text
    let crv ← (jwk.get? "crv").text
    throw (.error s!"unsupported key type {kty}/{crv}")

/-- `directory?.keys ?? []`; an array has a method of that name, which cannot be searched. -/
def directoryKeys : Value → Except Error (List Value)
  | .array _ => .error .typeError
  | directory =>
    match (directory.get? "keys").orElse (.array []) with
    | .array keys => .ok keys
    | _ => .error .typeError

def keyFromDirectory (directory : Value) (keyid : String) : Except Error (Option P.Key) := do
  let keys ← directoryKeys directory
  match ← findKey keyid keys with
  | none => return none
  | some jwk =>
    let key ← keyOfJwk P jwk
    return some key

end Gatekeeper.Agent
