import Gatekeeper.Lib.ExpiringSet
import Gatekeeper.Agent.WebBotAuth

/-!
# Callers of the A2A endpoint

The middleware `requireWebBotAuth` of `a2a-auth.mjs` with its nonce ledger, and `signingFetch`
of `web-bot-auth-fetch.mjs`, which makes the requests it is meant for.
-/

namespace Gatekeeper.Agent

open Encoding Js Pattern ExpiringSet

variable (P : SigPlatform)

/-! ## Requests as they arrive -/

/-- What is read of a request besides its body, as Express has it. Methods and headers stand on one
line each. -/
structure RequestHead where
  method : Line
  protocol : String
  host : Option Line
  originalUrl : Line
  signatureInput : Option Line
  signature : Option Line
  signatureAgent : Option Line
  contentDigest : Option Line

/-- A request as the middleware finds it. `rawBody` holds what the body parser before it kept, as
bytes: the one it is mounted behind keeps the text of a JSON body, and nothing of any other. -/
structure Incoming extends RequestHead where
  rawBody : Option Bytes

/-- The text of a header that is there. -/
def headerText (header : Option Line) : Option String := header.map (·.text)

/-- The URL the signer saw. -/
def requestUrl (req : Incoming) : String :=
  req.protocol ++ "://" ++ (headerText req.host).getD "undefined" ++ req.originalUrl.text

def Incoming.body (req : Incoming) : Bytes := req.rawBody.getD []

def toVerify (req : Incoming) : VerifyRequest where
  method := req.method.text
  url := requestUrl req
  body := req.body
  signatureAgent := headerText req.signatureAgent
  contentDigest := (headerText req.contentDigest).getD ""

/-! ## The middleware -/

/-- `^"([^"]+)"$`. -/
def quotedText (cs : List Char) : Option String :=
  match cs with
  | '"' :: rest =>
    let body := rest.takeWhile (· ≠ '"')
    if body ≠ [] ∧ rest.drop body.length = ['"'] then some (String.ofList body) else none
  | _ => none

def isLocal (u : Url) : Bool := u.hostname == "127.0.0.1" || u.hostname == "localhost"

def signatureAgentOrigin (header : Option String) : Option String := do
  let text ← quotedText (trimWhite (header.getD "").toList)
  let u ← P.parseUrl text
  if u.scheme ≠ "https" ∧ isLocal u = false then none else some u.origin

/-- The parameters of `Signature-Input` that the decision needs. -/
structure SigParams where
  keyid : Option String
  nonce : Option String
  expires : Option ℕ
  created : Option ℕ

def sigParams (input : String) : Option SigParams :=
  (labelledValue input).map fun (_, params) =>
    { keyid := keyidOf params
      nonce := nonceOf params
      expires := expiresOf params
      created := createdOf params }

/-- What a server is set up with. -/
structure AuthServer where
  skip : Incoming → Bool
  /-- `age > maxAgeSeconds`. -/
  exceedsMaxAge : ℤ → Bool
  maxAgeText : String

/-- A server that was set up with nothing but the defaults. -/
def defaultServer : AuthServer where
  skip := fun _ => false
  exceedsMaxAge := fun age => 300 < age
  maxAgeText := "300"

/-- A request that arrives: what the directory of each origin answers then, and the clock as
the signature is verified, as its age is checked and as its nonce is looked up. -/
structure Arrival where
  req : Incoming
  resolve : String → Except Error Value
  verifiedAt : ℕ
  agedAt : ℕ
  admittedAt : ℕ

/-- A caller whose signature was accepted, with what the ledger is asked. -/
structure Caller where
  origin : String
  keyid : String
  nonce : Option String
  expires : Option ℕ

def directoryPath : String := "/.well-known/http-message-signatures-directory"

/-- The first characters, up to a number of code units. -/
def takeUnits : ℕ → List Char → List Char
  | _, [] => []
  | n, c :: cs =>
    if (codeUnits c).length ≤ n then c :: takeUnits (n - (codeUnits c).length) cs else []

/-- `slice(0, 80)`, without the half of a character that it may end in. -/
def firstUnits (s : String) : String := String.ofList (takeUnits 80 s.toList)

/-- The key that the caller's directory lists. -/
def callerKey (a : Arrival) (origin keyid : String) : Except String P.Key :=
  match (a.resolve origin >>= fun directory => keyFromDirectory P directory keyid) with
  | .error e => .error s!"could not resolve keyid at {origin}: {firstUnits (errorMessage P e)}"
  | .ok none => .error s!"keyid {keyid} is not in {origin}{directoryPath}"
  | .ok (some key) => .ok key

/-- The age check of the server: a creation time that is stated and not too long ago. -/
def withinMaxAge (S : AuthServer) (created : Option ℕ) (now : ℕ) : Bool :=
  match created with
  | some c => !S.exceedsMaxAge ((now : ℤ) - c)
  | none => false

/-- The headers of a signature, when both are there. -/
def signatureHeaders (req : Incoming) : Option (String × String) := do
  let input ← (headerText req.signatureInput).filter (· ≠ "")
  let signature ← (headerText req.signature).filter (· ≠ "")
  return (input, signature)

/-- All that is checked before the ledger. -/
def vet (S : AuthServer) (a : Arrival) : Except String Caller :=
  match signatureHeaders a.req with
  | none => .error "request is not signed (web-bot-auth required)"
  | some (input, signature) =>
    match signatureAgentOrigin P (headerText a.req.signatureAgent) with
    | none =>
      .error "Signature-Agent must name the https origin that serves your key directory"
    | some origin =>
      match (sigParams input).bind (·.keyid) with
      | none => .error "signature names no keyid"
      | some keyid => do
        let key ← callerKey P a origin keyid
        if verifyRequest P { expectedKeyid := keyid, now := a.verifiedAt } key (toVerify a.req)
            input signature then
          if withinMaxAge S ((sigParams input).bind (·.created)) a.agedAt then
            return {
              origin, keyid
              nonce := (sigParams input).bind (·.nonce)
              expires := (sigParams input).bind (·.expires) }
          else
            throw (s!"signature is older than this server accepts ({S.maxAgeText}s from " ++
              "created)")
        else
          throw "signature does not verify (method, authority, path, body digest, or expiry)"

/-- Nonces with the times they are remembered until. -/
abbrev Ledger : Type := Held String ℕ

/-- What a caller asks of the ledger. -/
def visitOf (a : Arrival) (c : Caller) : Visit String ℕ where
  time := a.admittedAt
  item := c.nonce.map fun n => ⟨n, c.expires.getD (a.admittedAt + 300)⟩

/-- What becomes of a request. A refusal has status 401. -/
inductive Outcome where
  | skipped
  | refused (reason : String)
  | accepted (origin keyid : String)
deriving DecidableEq

/-- `requireWebBotAuth` on one request. -/
def webBotAuth (S : AuthServer) (ledger : Ledger) (a : Arrival) : Outcome × Ledger :=
  if S.skip a.req then (.skipped, ledger)
  else
    match vet P S a with
    | .error reason => (.refused reason, ledger)
    | .ok c =>
      let (isNew, ledger') := admitKey ledger (visitOf a c)
      if isNew then (.accepted c.origin c.keyid, ledger')
      else (.refused "nonce already used — replay refused", ledger')

/-! ## The caller's side -/

/-- A request that `signingFetch` sends. -/
structure SentRequest where
  request : OutRequest
  headers : SignedHeaders
  signatureAgent : String

/-- The time a signature is good for. -/
def defaultTtlSeconds : ℕ := 300

/-- `signingFetch` on a request with an absolute URL, at a time and with the 64 random bytes of
its nonce. -/
def signingFetch (sk : P.PrivateKey) (keyid directoryOrigin : String) (now : ℕ) (random : Bytes)
    (method url body : String) : Option SentRequest := do
  let u ← P.parseUrl directoryOrigin
  let request : OutRequest := { method := Text.toAsciiUppercase method, url, body }
  let headers ← signRequest P sk request {
    keyid
    created := now
    expires := now + defaultTtlSeconds
    nonce := base64Encode random }
  if keyid = "" ∨ directoryOrigin = "" then none
  else some { request, headers, signatureAgent := s!"\"{u.origin}\"" }

end Gatekeeper.Agent
