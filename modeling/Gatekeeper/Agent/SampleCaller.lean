import Gatekeeper.Agent.SignedRequests
import Gatekeeper.Lib.Sha256

/-!
# A sample caller

An agent with one key, two requests that it signed, and the servers that publish its key. The
signatures and the digest are the ones that Ed25519 and SHA-256 give; on other messages the
sample platform writes the message itself, at another length.
-/

namespace Gatekeeper.Agent

open Encoding Js Pattern Text

/-! ## The platform -/

def samplePublicKey : Bytes :=
  bigEndian 32 0xd75a980182b10ab7d54bfed3c964073a0ee172f3daa62325af021a68f707511a

/-- The `x` of the key. -/
def sampleKeyText : String := "11qYAYKxCrfVS_7TyWQHOg7hcvPapiMlrwIaaPcHURo"

def sampleBody : String :=
  "\x7b\"id\":1,\"jsonrpc\":\"2.0\",\"method\":\"tasks/get\",\"params\":\x7b\"id\":\"t-1\"\x7d\x7d"

/-- The base of a request without a body. -/
def sampleBase : String :=
  joinLines ["\"@method\": POST", "\"@authority\": gate.example", "\"@path\": /a2a",
    "\"@signature-params\": (\"@method\" \"@authority\" \"@path\")" ++
      ";created=1700000000;expires=1700000060;keyid=\"agent-1\";alg=\"ed25519\"" ++
      ";nonce=\"bm9uY2UtMQ==\";tag=\"web-bot-auth\""]

/-- The base of a request that `signingFetch` sends. -/
def fetchBase : String :=
  joinLines ["\"@method\": GET", "\"@authority\": gate.example", "\"@path\": /a2a",
    "\"@signature-params\": (\"@method\" \"@authority\" \"@path\")" ++
      ";created=1700000000;expires=1700000300;keyid=\"agent-1\";alg=\"ed25519\";nonce=\"" ++
      "AAAAAAAAAAAAAAAAAAAAAAAAAAAAAAAAAAAAAAAAAAAAAAAAAAAAAAAAAAAAAAAAAAAAAAAAAAAAAAAAAAAAAA==" ++
      "\";tag=\"web-bot-auth\""]

def sampleSignature : Bytes :=
  bigEndian 32 0x189d6473e01bc09eb94c0139aa0fdb5a33adf98e502290de2d90131d5c7a707b ++
    bigEndian 32 0x82a46d0402007fe1a16ab6d183787c592db2774afa60e68c0b52cf20f352f70f

def fetchSignature : Bytes :=
  bigEndian 32 0x89054d43db249d0ff02e297a7709ce8ff02d44e16ecd2f812611632aacdb01aa ++
    bigEndian 32 0x53766a0928cbe10f2cbce161d11b270e4b5b28c0599387c0d3671e214412ee0c

def sampleSign (m : Bytes) : Bytes :=
  if m = utf8 sampleBase then sampleSignature
  else if m = utf8 fetchBase then fetchSignature
  else List.replicate 65 0 ++ m

def sampleDigest (b : Bytes) : Bytes :=
  if b = utf8 sampleBody then Sha256.sha256 b else List.replicate 33 0 ++ b

def isHostChar (c : Char) : Bool := c.isLower || c.isDigit || c == '.' || c == '-'

def isPathChar (c : Char) : Bool := c.isAlphanum || c == '-' || c == '_' || c == '/'

/-- A name and a path, behind the scheme and before a query. -/
def sampleUrl (scheme : String) (rest : List Char) : Option Url :=
  let address := rest.takeWhile (· ≠ '?')
  let host := address.takeWhile isHostChar
  let path := if address.drop host.length = [] then ['/'] else address.drop host.length
  if host ≠ [] ∧ path.head? = some '/' ∧ path.all isPathChar then
    some {
      scheme
      host := String.ofList host
      hostname := String.ofList host
      pathname := String.ofList path
      origin := s!"{scheme}://{String.ofList host}" }
  else none

def sampleParse (s : String) : Option Url :=
  ((after "http://".toList s.toList).bind (sampleUrl "http")).or
    ((after "https://".toList s.toList).bind (sampleUrl "https"))

/-- A platform with one signer, who is `()`. -/
def samplePlatformOfKeys : SigPlatform where
  Key := Bytes
  PrivateKey := Unit
  publicKey := fun _ => samplePublicKey
  sign := fun _ m => sampleSign m
  verify := fun key m s => key == samplePublicKey && s == sampleSign m
  importKey := fun x => if x.isString sampleKeyText then .ok samplePublicKey else .error .typeError
  sha256 := sampleDigest
  fromBase64 := base64Decode
  parseUrl := sampleParse
  inherited := fun _ => none
  message := fun _ => ""

/-! ## Its laws -/

theorem sampleSign_injective : Function.Injective sampleSign := by
  have hne : sampleSignature ≠ fetchSignature := by decide +kernel
  have hlen : ∀ (n k : ℕ) (m : Bytes),
      bigEndian 32 n ++ bigEndian 32 k ≠ List.replicate 65 0 ++ m := by
    intro n k m h
    have hlength := congrArg List.length h
    rw [List.length_append, length_bigEndian, length_bigEndian, List.length_append,
      List.length_replicate] at hlength
    omega
  intro m m' h
  unfold sampleSign at h
  split_ifs at h with h₁ h₂ h₃ h₄ h₅ h₆ h₇
  · rw [h₁, h₂]
  · exact absurd h hne
  · exact absurd h (hlen _ _ _)
  · exact absurd h.symm hne
  · rw [h₄, h₆]
  · exact absurd h (hlen _ _ _)
  · exact absurd h.symm (hlen _ _ _)
  · exact absurd h.symm (hlen _ _ _)
  · exact List.append_cancel_left h

theorem sampleDigest_injective : Function.Injective sampleDigest := by
  have hlen : ∀ b c : Bytes, Sha256.sha256 b ≠ List.replicate 33 0 ++ c := by
    intro b c h
    have hlength := congrArg List.length h
    rw [Sha256.length_sha256, List.length_append, List.length_replicate] at hlength
    omega
  intro b c h
  unfold sampleDigest at h
  split_ifs at h with hb hc hc
  · rw [hb, hc]
  · exact absurd h (hlen _ _)
  · exact absurd h.symm (hlen _ _)
  · exact List.append_cancel_left h

theorem sample_ideal : samplePlatformOfKeys.Ideal where
  verify_sign := by
    intro key sk m m'
    change Bytes at key
    show (key == samplePublicKey && sampleSign m == sampleSign m') = true ↔ _
    rw [Bool.and_eq_true, beq_iff_eq, beq_iff_eq, sampleSign_injective.eq_iff]
    exact and_congr_right fun _ => eq_comm
  sign_ne_nil := by
    intro sk m h
    have hlength : (sampleSign m).length = 0 := congrArg List.length h
    unfold sampleSign at hlength
    split_ifs at hlength
    · rw [sampleSignature, List.length_append, length_bigEndian] at hlength
      omega
    · rw [fetchSignature, List.length_append, length_bigEndian] at hlength
      omega
    · rw [List.length_append, List.length_replicate] at hlength
      omega
  sha256_injective := sampleDigest_injective

/-- The URLs that are read here. -/
structure PlainUrl (host path : List Char) : Prop where
  host_ne_nil : host ≠ []
  hostChars : ∀ c ∈ host, isHostChar c = true
  path_head : path.head? = some '/'
  pathChars : ∀ c ∈ path, isPathChar c = true

theorem PlainUrl.noQuery {host path : List Char} (h : PlainUrl host path) :
    ∀ c ∈ host ++ path, decide (c ≠ '?') = true := by
  intro c hc
  rw [decide_eq_true_eq]
  rintro rfl
  rcases List.mem_append.mp hc with hc | hc
  · exact absurd (h.hostChars _ hc) (by decide)
  · exact absurd (h.pathChars _ hc) (by decide)

/-- A query does not show in what is read. -/
theorem sampleUrl_append {scheme : String} {host path query : List Char} (h : PlainUrl host path)
    (hquery : query = [] ∨ query.head? = some '?') :
    ∃ u, sampleUrl scheme (host ++ path ++ query) = some u ∧ u.host = String.ofList host ∧
      u.pathname = String.ofList path := by
  have hne : path ≠ [] := by
    rintro rfl
    cases h.path_head
  have haddress : (host ++ path ++ query).takeWhile (· ≠ '?') = host ++ path := by
    rw [List.takeWhile_append_of_pos h.noQuery]
    rcases hquery with rfl | hhead
    · rw [List.takeWhile_nil, List.append_nil]
    · cases query with
      | nil => rw [List.takeWhile_nil, List.append_nil]
      | cons c cs =>
        obtain rfl := Option.some.inj hhead
        rw [List.takeWhile_cons_of_neg (by decide), List.append_nil]
  have htake : (host ++ path).takeWhile isHostChar = host := by
    rw [List.takeWhile_append_of_pos h.hostChars]
    cases path with
    | nil => exact absurd rfl hne
    | cons c cs =>
      obtain rfl := Option.some.inj h.path_head
      rw [List.takeWhile_cons_of_neg (by decide), List.append_nil]
  simp only [sampleUrl, haddress, htake, List.drop_left, if_neg hne]
  rw [if_pos ⟨h.host_ne_nil, h.path_head, List.all_eq_true.mpr h.pathChars⟩]
  exact ⟨_, rfl, rfl, rfl⟩

theorem sampleUrl_append_nil (scheme : String) (host path : List Char) (h : PlainUrl host path) :
    ∃ u, sampleUrl scheme (host ++ path) = some u ∧ u.host = String.ofList host ∧
      u.pathname = String.ofList path := by
  obtain ⟨u, hu, hparts⟩ := @sampleUrl_append scheme host path [] h (.inl rfl)
  rw [List.append_nil] at hu
  exact ⟨u, hu, hparts⟩

theorem plain_of_sampleUrl {scheme : String} {rest : List Char} {u : Url}
    (h : sampleUrl scheme rest = some u) : PlainUrl u.host.toList u.pathname.toList := by
  obtain ⟨⟨hhost, hpath, hchars⟩, hu⟩ := Option.ite_none_right_eq_some.mp h
  obtain rfl := Option.some.inj hu
  refine ⟨?_, ?_, ?_, ?_⟩
  · rw [String.toList_ofList]
    exact hhost
  · rw [String.toList_ofList]
    exact fun c hc => List.all_eq_true.mp List.all_takeWhile c hc
  · rw [String.toList_ofList]
    exact hpath
  · rw [String.toList_ofList]
    exact List.all_eq_true.mp hchars

theorem plain_of_sampleParse {s : String} {u : Url} (h : sampleParse s = some u) :
    PlainUrl u.host.toList u.pathname.toList := by
  rw [sampleParse, Option.or_eq_some_iff] at h
  rcases h with h | ⟨_, h⟩
  · obtain ⟨_, _, h⟩ := Option.bind_eq_some_iff.mp h
    exact plain_of_sampleUrl h
  · obtain ⟨_, _, h⟩ := Option.bind_eq_some_iff.mp h
    exact plain_of_sampleUrl h

theorem sampleParse_scheme {scheme : String} (h : scheme = "http" ∨ scheme = "https")
    (rest : String) : sampleParse s!"{scheme}://{rest}" = sampleUrl scheme rest.toList := by
  simp only [sampleParse, toString]
  rcases h with rfl | rfl
  · have htext : ("http" ++ "://" ++ rest).toList = "http://".toList ++ rest.toList := by
      simp [String.toList_append]
    have hother : after "https://".toList ("http://".toList ++ rest.toList) = none := rfl
    rw [htext, after_append, hother, Option.bind_some, Option.bind_none, Option.or_none]
  · have htext : ("https" ++ "://" ++ rest).toList = "https://".toList ++ rest.toList := by
      simp [String.toList_append]
    have hother : after "http://".toList ("https://".toList ++ rest.toList) = none := rfl
    rw [htext, after_append, hother, Option.bind_some, Option.bind_none, Option.none_or]

theorem sample_lawful : samplePlatformOfKeys.Lawful where
  fromBase64_encode := base64Decode_encode
  url_noBreak := by
    intro s u h
    have hplain := plain_of_sampleParse h
    refine ⟨fun hmem => ?_, fun hmem => ?_⟩
    · exact absurd (hplain.hostChars _ hmem) (by decide)
    · exact absurd (hplain.pathChars _ hmem) (by decide)
  inherited_noBreak := by
    intro name text h
    cases h
  reparse := by
    intro scheme rest u hscheme hu host hhost path hpath
    have hplain := plain_of_sampleParse hu
    have hnew : PlainUrl host.toList path.toList := by
      have hhosts : host.toList ≠ [] ∧ ∀ c ∈ host.toList, isHostChar c = true := by
        simp only [List.mem_cons, List.not_mem_nil, or_false] at hhost
        rcases hhost with rfl | rfl | rfl
        · exact ⟨hplain.host_ne_nil, hplain.hostChars⟩
        · exact ⟨by decide, List.all_eq_true.mp (by decide)⟩
        · exact ⟨by decide, List.all_eq_true.mp (by decide)⟩
      have hpaths : path.toList.head? = some '/' ∧ ∀ c ∈ path.toList, isPathChar c = true := by
        simp only [List.mem_cons, List.not_mem_nil, or_false] at hpath
        rcases hpath with rfl | rfl | rfl
        · exact ⟨hplain.path_head, hplain.pathChars⟩
        · exact ⟨by decide, List.all_eq_true.mp (by decide)⟩
        · exact ⟨by decide, List.all_eq_true.mp (by decide)⟩
      exact ⟨hhosts.1, hhosts.2, hpaths.1, hpaths.2⟩
    obtain ⟨v, hv, hvhost, hvpath⟩ := sampleUrl_append_nil scheme _ _ hnew
    refine ⟨v, ?_, ?_, ?_⟩
    · have htext : s!"{scheme}://{host}{path}" = s!"{scheme}://{host ++ path}" := by
        simp [toString, String.append_assoc]
      show sampleParse _ = _
      rw [htext, sampleParse_scheme hscheme, String.toList_append]
      exact hv
    · rw [hvhost, String.ofList_toList]
    · rw [hvpath, String.ofList_toList]
  publishable := fun _ => ⟨.string sampleKeyText, rfl⟩

/-! ## The caller -/

def gateUrl : Url := ⟨"https", "gate.example", "gate.example", "/a2a", "https://gate.example"⟩

theorem parse_gate : samplePlatformOfKeys.parseUrl "https://gate.example/a2a" = some gateUrl :=
  show sampleParse "https://gate.example/a2a" = some gateUrl by decide +kernel

def agentUrl : Url := ⟨"https", "agent.example", "agent.example", "/", "https://agent.example"⟩

theorem parse_agent : samplePlatformOfKeys.parseUrl "https://agent.example" = some agentUrl :=
  show sampleParse "https://agent.example" = some agentUrl by decide +kernel

/-- The directory that lists the key. -/
def sampleDirectory : Value :=
  .object [("keys", .array [.object [("kty", .string "OKP"), ("crv", .string "Ed25519"),
    ("alg", .string "EdDSA"), ("use", .string "sig"), ("kid", .string "agent-1"),
    ("x", .string sampleKeyText)]])]

/-- A request without a body, to be signed for one minute. -/
def sampleRequest : OutRequest where
  method := "POST"
  url := "https://gate.example/a2a"
  body := ""

def sampleSigner : samplePlatformOfKeys.PrivateKey := ()

def sampleParams : SigningParams where
  keyid := "agent-1"
  created := 1700000000
  expires := 1700000060
  nonce := "bm9uY2UtMQ=="

def sampleLines : List String :=
  ["\"@method\": POST", "\"@authority\": gate.example", "\"@path\": /a2a"]

theorem componentLines_sample :
    componentLines samplePlatformOfKeys (signingContext samplePlatformOfKeys sampleRequest)
      (coveredComponents sampleRequest) = some sampleLines := by
  decide +kernel

def sampleParts : SignatureParts :=
  writtenParts samplePlatformOfKeys sampleSigner sampleRequest sampleParams sampleLines

def sampleHeaders : SignedHeaders where
  signatureInput := s!"sig1={sampleParts.params}"
  signature := s!"sig1=:{sampleParts.signature}:"
  contentDigest := none

/-- The base is the text that was signed. -/
theorem signatureBase_sample :
    signatureBase sampleLines (sigParamsText (coveredComponents sampleRequest) sampleParams) =
      sampleBase := by
  refine congrArg (fun l => joinLines (sampleLines ++ [l])) (String.toList_injective ?_)
  simp only [componentLine, toString]
  rw [String.toList_append, toList_sigParamsText, String.toList_append, String.toList_append]
  decide +kernel

example : sampleHeaders.signature = "sig1=:GJ1kc+AbwJ65TAE5qg/bWjOt+Y5QIpDeLZATHVx6cHuCpG0EAgB/4" ++
    "aFqttGDeHxZLbJ3Svpg5owLUs8g81L3Dw==:" := by
  have hsign : ∀ m, samplePlatformOfKeys.sign sampleSigner m = sampleSign m := fun _ => rfl
  have hparts : sampleParts.signature = base64Encode sampleSignature := by
    rw [sampleParts, writtenParts, hsign, signatureBase_sample, sampleSign, if_pos rfl]
  rw [sampleHeaders, hparts]
  decide +kernel

theorem signRequest_sample :
    signRequest samplePlatformOfKeys sampleSigner sampleRequest sampleParams =
      some sampleHeaders := by
  simp only [signRequest, componentLines_sample]
  rfl

/-- No text in the parameters breaks the line. -/
theorem sampleParams_onLine :
    (sigParamsText (coveredComponents sampleRequest) sampleParams).toList.any isLineEnd =
      false := by
  rw [toList_sigParamsText]
  decide +kernel

theorem readSignature_sample :
    readSignature sampleHeaders.signatureInput sampleHeaders.signature = some sampleParts := by
  obtain ⟨lines, hlines, hread⟩ := readSignature_signRequest sample_ideal signRequest_sample
  obtain rfl := Option.some.inj (componentLines_sample.symm.trans hlines)
  rw [hread, if_pos sampleParams_onLine]
  rfl

theorem nonceOf_sample : nonceOf sampleParts.params = some "bm9uY2UtMQ==" :=
  nonceOf_sigParamsText _ (by decide) (by decide) (by decide)

/-- The request as it arrives. -/
def sampleIncoming : Incoming where
  method := ⟨"POST", by decide⟩
  protocol := "https"
  host := some ⟨"gate.example", by decide⟩
  originalUrl := ⟨"/a2a", by decide⟩
  signatureInput := some ⟨_, (headers_onLine signRequest_sample sampleParams_onLine).1⟩
  signature := some ⟨_, (headers_onLine signRequest_sample sampleParams_onLine).2⟩
  signatureAgent := some ⟨"\"https://agent.example\"", by decide⟩
  contentDigest := none
  rawBody := none

theorem sampleIncoming_signed :
    SignedBy samplePlatformOfKeys sampleSigner sampleIncoming sampleParts := by
  refine (signedBy_of_copy sample_lawful sample_ideal signRequest_sample ?_
    readSignature_sample).1
  exact {
    method := rfl
    url := ⟨_, _, parse_gate, parse_gate, rfl, rfl⟩
    body := rfl
    signatureInput := rfl
    signature := rfl
    contentDigest := fun h => absurd rfl h }

/-- The request at a time, with the directories of two origins, which list the same key. -/
def arrivalOf (req : Incoming) (now : ℕ) : Arrival where
  req := req
  resolve := fun origin =>
    if origin ∈ ["https://agent.example", "https://other.example"] then .ok sampleDirectory
    else .error .typeError
  verifiedAt := now
  agedAt := now
  admittedAt := now

theorem sampleIncoming_presented {now : ℕ} (h : 1700000000 ≤ now) (h' : now ≤ 1700000090) :
    Presented samplePlatformOfKeys defaultServer sampleSigner (arrivalOf sampleIncoming now)
      sampleParts "https://agent.example" "agent-1" := by
  have hcreated : createdOf sampleParts.params = some 1700000000 :=
    (createdOf_sigParamsText _ _).trans (by decide +kernel)
  have hexpires : expiresOf sampleParts.params = some 1700000060 :=
    (expiresOf_sigParamsText _ _).trans (by decide +kernel)
  refine ⟨?_, (keyidOf_sigParamsText _ (by decide)).mpr (by decide), rfl,
    tag_sigParamsText _ _, ?_, ?_⟩
  · show signatureAgentOrigin _ (headerText sampleIncoming.signatureAgent) = _
    decide +kernel
  · refine isFresh_iff.mpr ⟨_, _, hcreated, hexpires, ?_⟩
    dsimp only [arrivalOf]
    omega
  · refine withinMaxAge_default.mpr ⟨_, hcreated, ?_⟩
    dsimp only [arrivalOf]
    omega

/-! ## A request of `signingFetch` -/

def fetchRequest : OutRequest where
  method := "GET"
  url := "https://gate.example/a2a"
  body := ""

def fetchLines : List String :=
  ["\"@method\": GET", "\"@authority\": gate.example", "\"@path\": /a2a"]

theorem componentLines_fetch :
    componentLines samplePlatformOfKeys (signingContext samplePlatformOfKeys fetchRequest)
      (coveredComponents fetchRequest) = some fetchLines := by
  decide +kernel

def sampleFetchParams : SigningParams := fetchParams "agent-1" 1700000000 (List.replicate 64 0)

def fetchParts : SignatureParts :=
  writtenParts samplePlatformOfKeys sampleSigner fetchRequest sampleFetchParams fetchLines

def sampleSent : SentRequest where
  request := fetchRequest
  headers := {
    signatureInput := s!"sig1={fetchParts.params}"
    signature := s!"sig1=:{fetchParts.signature}:"
    contentDigest := none }
  signatureAgent := "\"https://agent.example\""

theorem signRequest_fetch :
    signRequest samplePlatformOfKeys sampleSigner fetchRequest sampleFetchParams =
      some sampleSent.headers := by
  simp only [signRequest, componentLines_fetch]
  rfl

theorem signingFetch_sample :
    signingFetch samplePlatformOfKeys sampleSigner "agent-1" "https://agent.example" 1700000000
      (List.replicate 64 0) "get" "https://gate.example/a2a" "" = some sampleSent := by
  have hmethod : toAsciiUppercase "get" = "GET" := by decide
  unfold signingFetch
  rw [parse_agent, Option.bind_eq_bind, Option.bind_some]
  dsimp only
  rw [hmethod]
  refine Option.bind_eq_some_iff.mpr ⟨sampleSent.headers, signRequest_fetch, ?_⟩
  rw [if_neg (by decide)]
  rfl

theorem fetchParams_onLine :
    (sigParamsText (coveredComponents fetchRequest) sampleFetchParams).toList.any isLineEnd =
      false := by
  rw [toList_sigParamsText]
  decide +kernel

/-- A copy of the request, with a `Signature-Agent` of any kind. -/
def copyNaming (agent : Line) : Incoming where
  method := ⟨"GET", by decide⟩
  protocol := "https"
  host := some ⟨"gate.example", by decide⟩
  originalUrl := ⟨"/a2a", by decide⟩
  signatureInput := some ⟨_, (headers_onLine signRequest_fetch fetchParams_onLine).1⟩
  signature := some ⟨_, (headers_onLine signRequest_fetch fetchParams_onLine).2⟩
  signatureAgent := some agent
  contentDigest := none
  rawBody := none

theorem copyNaming_copy (agent : Line) :
    CopyOf samplePlatformOfKeys sampleSent.request sampleSent.headers (copyNaming agent) where
  method := rfl
  url := ⟨_, _, parse_gate, parse_gate, rfl, rfl⟩
  body := rfl
  signatureInput := rfl
  signature := rfl
  contentDigest := fun h => absurd rfl h

/-- An origin that lists the key of another. -/
def otherAgent : Line := ⟨"\"https://other.example\"", by decide⟩

end Gatekeeper.Agent
