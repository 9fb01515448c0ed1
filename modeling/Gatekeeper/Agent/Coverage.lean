import Gatekeeper.Agent.Received
import Gatekeeper.Agent.SampleCaller

/-!
# What a signature covers

A signature binds the parts of a request that its list of components names. The verifier takes
the list from the request and asks for none of them, so what is accepted under a signature reads
like the request that was signed exactly when the list has them all. What is read is the request
itself exactly when it was sent the way it reads.
-/

namespace Gatekeeper.Agent

open Encoding Js Pattern Text ExpiringSet

variable {P : SigPlatform} {parse : BodyParser}

/-- The same method, authority, path and body, of a request as it is sent and of the one that was
signed. Methods are in capitals when they arrive. -/
structure SameRequest (P : SigPlatform) (req : Incoming) (w : WireRequest) : Prop where
  method : toAsciiUppercase w.method.text = toAsciiUppercase req.method.text
  address : ∃ u, P.parseUrl (requestUrl req) = some u ∧
    authorityOf P req.protocol w.host = some u.host ∧ targetPath w.originalUrl.text = pathOf u
  body : w.content.bytes = req.body

/-- The middleware reads the same method, authority, path and body. -/
structure ReadsSame (P : SigPlatform) (req req' : Incoming) : Prop where
  method : toAsciiUppercase req'.method.text = toAsciiUppercase req.method.text
  url : ∃ u v, P.parseUrl (requestUrl req) = some u ∧ P.parseUrl (requestUrl req') = some v ∧
    v.host = u.host ∧ pathOf v = pathOf u
  body : req'.body = req.body

/-- The two headers of the signature are the same. -/
structure SameSignature (req req' : Incoming) : Prop where
  signatureInput : headerText req'.signatureInput = headerText req.signatureInput
  signature : headerText req'.signature = headerText req.signature

theorem SameSignature.headers {req req' : Incoming} (h : SameSignature req req') :
    signatureHeaders req' = signatureHeaders req := by
  rw [signatureHeaders, signatureHeaders, h.signatureInput, h.signature]

/-- The signature can be presented: it names a key and a nonce and is fresh at some time, a
`Signature-Agent` that names an origin fits under it, and a body it covers is kept as it is. -/
structure Presentable (P : SigPlatform) (parse : BodyParser) (req : Incoming)
    (parts : SignatureParts) : Prop where
  agent : ∃ header o, signatureAgentOrigin P (headerText header) = some o ∧
    rebuiltBase P (toVerify { req with signatureAgent := header }) parts =
      rebuiltBase P (toVerify req) parts
  keyid : ∃ k, keyidOf parts.params = some k
  nonce : ∃ n, nonceOf parts.params = some n
  tag : contains parts.params "tag=\"web-bot-auth\"" = true
  fresh : ∃ k now, isFresh { expectedKeyid := k, now := now } parts.params = true
  body : "content-digest" ∈ parts.components → ∃ content kept,
    keptBody parse content = some kept ∧ kept.getD [] = content.bytes ∧ content.bytes = req.body

/-- A request that is accepted under the signature of another, by some server at some time, and
how the middleware finds it. -/
structure Admitted (P : SigPlatform) (parse : BodyParser) (req : Incoming) (w : WireRequest)
    (req' : Incoming) : Prop where
  handed : handedOn parse w = some req'
  signature : SameSignature req req'
  accepted : ∃ (S : AuthServer) (ledger : Ledger) (a : Arrival) (o k : String),
    a.req = req' ∧ (webBotAuth P S ledger a).1 = .accepted o k

/-! ## The base tells its lines apart -/

theorem toUpper_ne_newline {c : Char} (h : c ≠ '\n') : c.toUpper ≠ '\n' := by
  unfold Char.toUpper
  split_ifs with hlower
  · intro hc
    have hval := congrArg (fun d : Char => d.val.toNat) hc
    have hlo : 97 ≤ c.val.toNat := hlower.1
    have hhi : c.val.toNat ≤ 122 := hlower.2
    simp only [UInt32.toNat_add] at hval
    have hdiff : ('A'.val - 'a'.val).toNat = 4294967264 := by decide
    have hten : '\n'.val.toNat = 10 := by decide
    omega
  · exact h

theorem noBreak_toAsciiUppercase {s : String} (h : '\n' ∉ s.toList) :
    '\n' ∉ (toAsciiUppercase s).toList := by
  rw [toAsciiUppercase, String.toList_ofList]
  intro hmem
  obtain ⟨c, hc, hupper⟩ := List.mem_map.mp hmem
  have hne : c ≠ '\n' := by
    rintro rfl
    exact h hc
  exact toUpper_ne_newline hne hupper

theorem noBreak_trimWhite {cs : List Char} (h : '\n' ∉ cs) : '\n' ∉ trimWhite cs := by
  intro hmem
  rw [trimWhite, List.mem_reverse] at hmem
  have hmem := (List.dropWhile_suffix isWhite).subset hmem
  rw [List.mem_reverse] at hmem
  exact h ((List.dropWhile_suffix isWhite).subset hmem)

theorem noBreak_contentDigest (b : Bytes) : '\n' ∉ (contentDigest P b).toList := by
  dsimp only [contentDigest, toString]
  rw [String.toList_append, String.toList_append, List.mem_append, List.mem_append, not_or, not_or]
  exact ⟨⟨by decide, noBreak_base64Encode _⟩, by decide⟩

/-- Whatever arrives, no value of a component has a line feed in it. -/
theorem noBreak_componentValue (hP : P.Lawful) {req : Incoming} {cs : List String} {c v : String}
    (h : componentValue P (verifyContext P (toVerify req) cs) c = some v) : '\n' ∉ v.toList := by
  obtain ⟨u, hu, h⟩ := Option.bind_eq_some_iff.mp h
  obtain ⟨hhost, hpath⟩ := hP.url_noBreak hu
  split_ifs at h
  · obtain rfl := Option.some.inj h
    exact noBreak_toAsciiUppercase req.method.noBreak
  · obtain rfl := Option.some.inj h
    exact hhost
  · obtain rfl := Option.some.inj h
    decide
  · obtain rfl := Option.some.inj h
    exact hpath
  · obtain rfl := Option.some.inj h
    dsimp only [verifyContext]
    split_ifs
    · exact noBreak_contentDigest _
    · decide
  · obtain ⟨text, htext, h⟩ := Option.bind_eq_some_iff.mp h
    obtain rfl := Option.some.inj h
    rw [String.toList_ofList]
    refine noBreak_trimWhite ?_
    have hheader : ∀ name, requestHeader P (headerText req.signatureAgent) name = some text →
        '\n' ∉ text.toList := by
      intro name hname
      unfold requestHeader at hname
      split_ifs at hname
      · obtain ⟨line, _, rfl⟩ := Option.map_eq_some_iff.mp hname
        exact line.noBreak
      · exact hP.inherited_noBreak hname
    rcases Option.or_eq_some_iff.mp htext with htext | ⟨_, htext⟩
    · exact hheader _ htext
    · exact hheader _ htext

/-- A signature that is read stands on one line, and so do the names in its list. -/
theorem noBreak_parts {input signature : String} {parts : SignatureParts}
    (h : readSignature input signature = some parts) :
    '\n' ∉ parts.params.toList ∧ ∀ c ∈ parts.components, '\n' ∉ c.toList := by
  obtain ⟨label, hvalue, hcomponents⟩ := readSignature_spec h
  have hparams : '\n' ∉ parts.params.toList := by
    unfold labelledValue at hvalue
    dsimp only at hvalue
    split at hvalue
    · split_ifs at hvalue with hread
      rw [Option.some.injEq, Prod.mk.injEq] at hvalue
      rw [← hvalue.2, String.toList_ofList]
      intro hmem
      exact List.any_eq_false.mp hread.2.2 _ hmem rfl
    · cases hvalue
  refine ⟨hparams, ?_⟩
  intro c hc hmem
  unfold componentsOf at hcomponents
  split at hcomponents
  · rename_i rest hrest
    dsimp only at hcomponents
    split_ifs at hcomponents
    rw [← Option.some.inj hcomponents] at hc
    obtain ⟨piece, hpiece, rfl⟩ := List.mem_map.mp hc
    rw [String.toList_ofList] at hmem
    have hinner := mem_of_mem_splitOn (List.mem_of_mem_filter hpiece) (List.mem_of_mem_filter hmem)
    rw [hrest] at hparams
    exact hparams (List.mem_cons_of_mem _ ((List.takeWhile_prefix _).subset hinner))
  · cases hcomponents

/-- Two requests with one base under a signature agree on every component it lists. -/
theorem values_of_base (hP : P.Lawful) {req req' : Incoming} {input signature base : String}
    {parts : SignatureParts} (hread : readSignature input signature = some parts)
    (h : rebuiltBase P (toVerify req) parts = some base)
    (h' : rebuiltBase P (toVerify req') parts = some base) :
    ∀ c ∈ parts.components, ∃ v,
      componentValue P (verifyContext P (toVerify req) parts.components) c = some v ∧
      componentValue P (verifyContext P (toVerify req') parts.components) c = some v := by
  obtain ⟨hparams, hnames⟩ := noBreak_parts hread
  have hlines : ∀ {r : Incoming} {b : String}, rebuiltBase P (toVerify r) parts = some b →
      ∃ lines, componentLines P (verifyContext P (toVerify r) parts.components) parts.components =
        some lines ∧ b = signatureBase lines parts.params ∧
        ∀ l ∈ lines ++ [componentLine "@signature-params" parts.params], '\n' ∉ l.toList := by
    intro r b hb
    unfold rebuiltBase at hb
    split_ifs at hb
    obtain ⟨lines, hlines, rfl⟩ := Option.map_eq_some_iff.mp hb
    refine ⟨lines, hlines, rfl, ?_⟩
    have hline : ∀ {c v : String}, '\n' ∉ c.toList → '\n' ∉ v.toList →
        '\n' ∉ (componentLine c v).toList := by
      intro c v hc hv
      simp only [componentLine, toString, String.toList_append, List.mem_append, not_or]
      exact ⟨⟨⟨by decide, hc⟩, by decide⟩, hv⟩
    intro l hl
    rcases List.mem_append.mp hl with hl | hl
    · obtain ⟨c, hc, v, hv, rfl⟩ := mem_componentLines hlines hl
      exact hline (hnames c hc) (noBreak_componentValue hP hv)
    · obtain rfl := List.mem_singleton.mp hl
      exact hline (by decide) hparams
  obtain ⟨lines, hls, hbase, hbreak⟩ := hlines h
  obtain ⟨lines', hls', hbase', hbreak'⟩ := hlines h'
  have hsame : lines = lines' := by
    have hjoin := joinLines_inj hbreak hbreak' (by simp) (by simp) (hbase.symm.trans hbase')
    exact List.append_cancel_right hjoin
  rw [← hsame] at hls'
  exact componentValue_of_lines hls hls'

/-! ## What is accepted under a signature -/

/-- What passes under a signature has the base that was signed. -/
theorem rebuiltBase_of_vetted (hI : P.Ideal) {S : AuthServer} {sk : P.PrivateKey} {req : Incoming}
    {parts : SignatureParts} (h : SignedBy P sk req parts) {a : Arrival}
    (hsame : SameSignature req a.req) {c : Caller} (hvetted : Vetted P S a c) :
    rebuiltBase P (toVerify a.req) parts = rebuiltBase P (toVerify req) parts := by
  obtain ⟨⟨input, signature, hheaders, hread⟩, base, hbase, hsig⟩ := h
  obtain ⟨input', signature', _, key, hheaders', _, _, _, hverify, _⟩ := hvetted.signed
  rw [hsame.headers, hheaders] at hheaders'
  obtain ⟨rfl, rfl⟩ := Prod.mk.inj (Option.some.inj hheaders')
  obtain ⟨parts', base', hread', _, hbase', hverify⟩ := verifyRequest_iff.mp hverify
  obtain rfl := Option.some.inj (hread.symm.trans hread')
  rw [hsig, hI.verify_sign] at hverify
  rw [hbase, hbase', utf8_injective hverify.2]

/-- A signature that was made for one request is one of every request with the same base. -/
theorem SignedBy.of_rebuiltBase {sk : P.PrivateKey} {req req' : Incoming} {parts : SignatureParts}
    (h : SignedBy P sk req parts) (hsame : SameSignature req req')
    (hbase : rebuiltBase P (toVerify req') parts = rebuiltBase P (toVerify req) parts) :
    SignedBy P sk req' parts := by
  obtain ⟨input, signature, hheaders, hread⟩ := h.headers
  refine ⟨⟨input, signature, hsame.headers.trans hheaders, hread⟩, ?_⟩
  rw [hbase]
  exact h.signature

/-- A base depends on the values that its list names, and on whether the digest fits. -/
theorem rebuiltBase_congr {req req' : Incoming} {parts : SignatureParts}
    (hdigest : digestMatches P (toVerify req') parts.components =
      digestMatches P (toVerify req) parts.components)
    (hvalue : ∀ c ∈ parts.components,
      componentValue P (verifyContext P (toVerify req') parts.components) c =
        componentValue P (verifyContext P (toVerify req) parts.components) c) :
    rebuiltBase P (toVerify req') parts = rebuiltBase P (toVerify req) parts := by
  rw [rebuiltBase, rebuiltBase, hdigest, componentLines_congr hvalue]

/-- One value for the digest is one body. -/
theorem contentDigest_of_value (hI : P.Ideal) {req req' : Incoming} {cs : List String}
    {d : String} (hmem : "content-digest" ∈ cs)
    (hd : componentValue P (verifyContext P (toVerify req) cs) "content-digest" = some d)
    (hd' : componentValue P (verifyContext P (toVerify req') cs) "content-digest" = some d) :
    req'.body = req.body := by
  obtain ⟨u, _, hd⟩ := Option.bind_eq_some_iff.mp hd
  obtain ⟨v, _, hd'⟩ := Option.bind_eq_some_iff.mp hd'
  have hdd := Option.some.inj (hd'.trans hd.symm)
  simp only [verifyContext, if_pos hmem, Option.getD_some] at hdd
  exact contentDigest_injective hI hdd

/-- What the list names reads the same in every request that passes. -/
theorem readsSame_of_covered (hP : P.Lawful) (hI : P.Ideal) {S : AuthServer} {sk : P.PrivateKey}
    {req : Incoming} {parts : SignatureParts} (h : SignedBy P sk req parts)
    (hcovered : ∀ c ∈ derived, c ∈ parts.components) {a : Arrival}
    (hsame : SameSignature req a.req) {c : Caller} (hvetted : Vetted P S a c) :
    ReadsSame P req a.req := by
  obtain ⟨⟨input, signature, hheaders, hread⟩, base, hbase, hsig⟩ := id h
  have hbase' := (rebuiltBase_of_vetted hI h hsame hvetted).trans hbase
  have hvalue := values_of_base hP hread hbase hbase'
  -- one value for each of the four
  obtain ⟨m, hm, hm'⟩ := hvalue "@method" (hcovered _ (by decide))
  obtain ⟨host, hh, hh'⟩ := hvalue "@authority" (hcovered _ (by decide))
  obtain ⟨path, hp, hp'⟩ := hvalue "@path" (hcovered _ (by decide))
  have hdigest : "content-digest" ∈ parts.components := hcovered _ (by decide)
  obtain ⟨d, hd, hd'⟩ := hvalue "content-digest" hdigest
  obtain ⟨u, hu, hm⟩ := Option.bind_eq_some_iff.mp hm
  obtain ⟨v, hv, hm'⟩ := Option.bind_eq_some_iff.mp hm'
  rw [componentValue, hu] at hh hp
  rw [componentValue, hv] at hh' hp'
  refine ⟨?_, ⟨u, v, hu, hv, ?_, ?_⟩, ?_⟩
  · exact Option.some.inj (hm'.trans hm.symm)
  · exact Option.some.inj (hh'.trans hh.symm)
  · exact Option.some.inj (hp'.trans hp.symm)
  · exact contentDigest_of_value hI hdigest hd hd'

/-- What reads like the request that was signed is that request when it was sent so. -/
theorem sameRequest_iff_asSent {req req' : Incoming} {w : WireRequest}
    (h : ReadsSame P req req') (hw : handedOn parse w = some req') :
    SameRequest P req w ↔ AsSent P req.protocol w req' := by
  obtain ⟨u, v, hu, hv, hhost, hpath⟩ := h.url
  constructor
  · rintro ⟨-, ⟨u', hu', hauthority, htarget⟩, hbody⟩
    obtain rfl := Option.some.inj (hu.symm.trans hu')
    refine ⟨⟨v, hv, ?_, ?_⟩, ?_⟩
    · rw [hauthority, hhost]
    · rw [htarget, hpath]
    · rw [h.body, hbody]
  · rintro ⟨⟨v', hv', hauthority, htarget⟩, hbody⟩
    obtain rfl := Option.some.inj (hv.symm.trans hv')
    refine ⟨?_, ⟨u, hu, ?_, ?_⟩, ?_⟩
    · rw [← (handedOn_eq_some.mp hw).1]
      exact h.method
    · rw [hauthority, hhost]
    · rw [htarget, hpath]
    · rw [← hbody, h.body]

/-- A signature under which anything is accepted that was sent the way it reads can be
presented. -/
theorem presentable_of_admitted (hP : P.Lawful) (hI : P.Ideal) {sk : P.PrivateKey}
    {req req' : Incoming} {parts : SignatureParts} (h : SignedBy P sk req parts) {w : WireRequest}
    (hw : Admitted P parse req w req') (hsent : AsSent P req.protocol w req') :
    Presentable P parse req parts := by
  obtain ⟨S, ledger, a, o, k, rfl, haccepted⟩ := hw.accepted
  obtain ⟨_, c, hvetted, rfl, rfl, hadmit⟩ := accepted_iff.mp haccepted
  have hrebuilt := rebuiltBase_of_vetted hI h hw.signature hvetted
  obtain ⟨hpresented, hc⟩ :=
    (vetted_iff_of_signed hI (h.of_rebuiltBase hw.signature hrebuilt)).mp hvetted
  obtain ⟨⟨input, signature, hheaders, hread⟩, base, hbase, hsig⟩ := h
  refine ⟨⟨a.req.signatureAgent, _, hpresented.origin, ?_⟩, ⟨_, hpresented.keyid⟩, ?_,
    hpresented.tag, ⟨_, _, hpresented.fresh⟩, ?_⟩
  · -- a header that is covered is the one that was signed, and no other value depends on it
    refine rebuiltBase_congr rfl fun c hc => ?_
    obtain ⟨v, hv, hv'⟩ := values_of_base hP hread hbase (hrebuilt.trans hbase) c hc
    by_cases hderived : c ∈ derived
    · exact componentValue_congr rfl (fun _ => rfl) (fun _ => rfl) (fun _ => rfl) (fun _ => rfl)
        fun hnot => absurd hderived hnot
    · obtain ⟨u, hu, _⟩ := Option.bind_eq_some_iff.mp hv
      obtain ⟨u', hu', _⟩ := Option.bind_eq_some_iff.mp hv'
      have hne : ∀ d ∈ derived, c ≠ d := by
        rintro d hd rfl
        exact hderived hd
      rw [hv, ← hv']
      refine componentValue_congr ?_ (fun hcd => absurd hcd (hne _ (by decide)))
        (fun hcd => absurd hcd (hne _ (by decide))) (fun hcd => absurd hcd (hne _ (by decide)))
        (fun hcd => absurd hcd (hne _ (by decide))) fun _ => rfl
      rw [hu']
      show (P.parseUrl (requestUrl req)).isSome = true
      exact Option.isSome_iff_exists.mpr ⟨u, hu⟩
  · have hnonce : c.nonce = nonceOf parts.params := congrArg Caller.nonce hc
    obtain ⟨n, hn, _⟩ := admit_iff.mp hadmit
    exact ⟨n, hnonce.symm.trans hn⟩
  · -- a body that is covered is the one that was signed, and here the one that was sent
    intro hdigest
    obtain ⟨d, hd, hd'⟩ := values_of_base hP hread hbase (hrebuilt.trans hbase) _ hdigest
    have hsame := contentDigest_of_value hI hdigest hd hd'
    exact ⟨w.content, a.req.rawBody, (handedOn_eq_some.mp hw.handed).2, hsent.body,
      hsent.body.symm.trans hsame⟩

/-! ## What an attacker can change -/

/-- The two requests agree on whatever a list names. -/
structure Agree (P : SigPlatform) (cs : List String) (req req' : Incoming) : Prop where
  url : cs ≠ [] → ∃ u v, P.parseUrl (requestUrl req) = some u ∧
    P.parseUrl (requestUrl req') = some v ∧ ("@authority" ∈ cs → v.host = u.host) ∧
    ("@path" ∈ cs → v.pathname = u.pathname)
  method : "@method" ∈ cs → toAsciiUppercase req'.method.text = toAsciiUppercase req.method.text
  body : "content-digest" ∈ cs → req'.body = req.body
  contentDigest : req'.contentDigest = req.contentDigest
  signatureAgent : req'.signatureAgent = req.signatureAgent

/-- Nothing else enters the base. -/
theorem rebuiltBase_of_agree {req req' : Incoming} {parts : SignatureParts}
    (h : Agree P parts.components req req') :
    rebuiltBase P (toVerify req') parts = rebuiltBase P (toVerify req) parts := by
  refine rebuiltBase_congr ?_ fun c hc => ?_
  · rw [digestMatches, digestMatches]
    show (_ || (headerText req'.contentDigest).getD "" == contentDigest P req'.body) =
      (_ || (headerText req.contentDigest).getD "" == contentDigest P req.body)
    rw [h.contentDigest]
    by_cases hdigest : "content-digest" ∈ parts.components
    · rw [h.body hdigest]
    · have hfree : parts.components.contains "content-digest" = false := by
        rw [← Bool.not_eq_true, List.contains_iff_mem]
        exact hdigest
      rw [hfree]
      rfl
  · obtain ⟨u, v, hu, hv, hhost, hpath⟩ := h.url (List.ne_nil_of_mem hc)
    refine componentValue_congr ?_ ?_ ?_ ?_ ?_ ?_
    · show (P.parseUrl (requestUrl req')).isSome = (P.parseUrl (requestUrl req)).isSome
      rw [hu, hv]
      rfl
    · rintro rfl
      exact h.method hc
    · rintro rfl
      show (P.parseUrl (requestUrl req')).map _ = (P.parseUrl (requestUrl req)).map _
      rw [hu, hv, Option.map_some, Option.map_some, hhost hc]
    · rintro rfl
      show (P.parseUrl (requestUrl req')).map _ = (P.parseUrl (requestUrl req)).map _
      rw [hu, hv, Option.map_some, Option.map_some, hpath hc]
    · rintro rfl
      simp only [verifyContext, if_pos hc]
      exact congrArg (fun b => some (contentDigest P b)) (h.body hc)
    · intro _
      exact congrArg (fun header => requestHeader P (headerText header)) h.signatureAgent

/-- One of two lines is not the text given. -/
theorem exists_other (given : String) (first second : Line) (h : first.text ≠ second.text) :
    ∃ line : Line, (line = first ∨ line = second) ∧ line.text ≠ given := by
  by_cases hgiven : first.text = given
  · exact ⟨second, .inr rfl, fun hs => h (hgiven.trans hs.symm)⟩
  · exact ⟨first, .inl rfl, hgiven⟩

/-- A directory that lists one key. -/
def directoryOf (keyid : String) (x : Value) : Value :=
  .object [("keys", .array [.object [("kty", .string "OKP"), ("crv", .string "Ed25519"),
    ("kid", .string keyid), ("x", x)]])]

theorem keyFromDirectory_directoryOf {keyid : String} {x : Value} {key : P.Key}
    (h : P.importKey x = .ok key) :
    keyFromDirectory P (directoryOf keyid x) keyid = .ok (some key) := by
  have hfind : findKey keyid [.object [("kty", .string "OKP"), ("crv", .string "Ed25519"),
      ("kid", .string keyid), ("x", x)]] = .ok (some (.object [("kty", .string "OKP"),
        ("crv", .string "Ed25519"), ("kid", .string keyid), ("x", x)])) := by
    rw [findKey]
    show (if (Value.string keyid).isString keyid then _ else _) = _
    rw [if_pos (Value.isString_iff.mpr rfl)]
    rfl
  have hkey : keyOfJwk P (.object [("kty", .string "OKP"), ("crv", .string "Ed25519"),
      ("kid", .string keyid), ("x", x)]) = .ok key := h
  unfold keyFromDirectory
  show (findKey keyid _ >>= _) = _
  rw [hfind]
  show (keyOfJwk P _ >>= _) = _
  rw [hkey]
  rfl

theorem callerKey_of_listed {a : Arrival} {o k : String} {directory : Value} {key : P.Key}
    (hresolve : a.resolve o = .ok directory)
    (hlisted : keyFromDirectory P directory k = .ok (some key)) : callerKey P a o k = .ok key := by
  have hread : (a.resolve o >>= fun directory => keyFromDirectory P directory k) =
      .ok (some key) := by
    rw [hresolve]
    exact hlisted
  rw [callerKey, hread]

/-- The default server accepts what was signed, at the right time and with the key in the
directory that is named. -/
theorem accepted_of_presentable (hP : P.Lawful) (hI : P.Ideal) {sk : P.PrivateKey}
    {req signed : Incoming} {parts : SignatureParts} (h : SignedBy P sk req parts)
    (hp : Presentable P parse signed parts) {o : String}
    (horigin : signatureAgentOrigin P (headerText req.signatureAgent) = some o) :
    ∃ a k, a.req = req ∧ (webBotAuth P defaultServer [] a).1 = .accepted o k := by
  obtain ⟨k, hk⟩ := hp.keyid
  obtain ⟨n, hn⟩ := hp.nonce
  obtain ⟨k', now, hfresh⟩ := hp.fresh
  obtain ⟨x, hx⟩ := hP.publishable sk
  let a : Arrival := {
    req, resolve := fun _ => .ok (directoryOf k x), verifiedAt := now, agedAt := now
    admittedAt := now }
  have hkey : callerKey P a o k = .ok (P.publicKey sk) :=
    callerKey_of_listed rfl (keyFromDirectory_directoryOf hx)
  -- the age that the verifier allows is the default of the server
  have hage : withinMaxAge defaultServer (createdOf parts.params) now = true := by
    obtain ⟨created, _, hcreated, _, _, _, hage⟩ := isFresh_iff.mp hfresh
    exact withinMaxAge_default.mpr ⟨created, hcreated, hage⟩
  have hvetted : Vetted P defaultServer a (callerOf parts o k) :=
    (vetted_iff_of_signed hI h).mpr ⟨⟨horigin, hk, hkey, hp.tag, hfresh, hage⟩, rfl⟩
  refine ⟨a, k, rfl, accepted_iff.mpr ⟨rfl, _, hvetted, rfl, rfl, ?_⟩⟩
  rw [visitOf, callerOf, hn]
  rfl

/-- A request that agrees with the one that was signed is accepted under its signature, with some
`Signature-Agent`. -/
theorem exists_agent (hP : P.Lawful) (hI : P.Ideal) {sk : P.PrivateKey} {req : Incoming}
    {parts : SignatureParts} (h : SignedBy P sk req parts) (hp : Presentable P parse req parts) :
    ∃ header, ∀ {w : WireRequest} {req' : Incoming}, handedOn parse w = some req' →
      SameSignature req req' → Agree P parts.components { req with signatureAgent := header } req' →
      Admitted P parse req w req' := by
  obtain ⟨header, o, horigin, hagent⟩ := hp.agent
  refine ⟨header, fun {w} {req'} hw hsame hagree => ?_⟩
  have hbase : rebuiltBase P (toVerify req') parts = rebuiltBase P (toVerify req) parts :=
    (rebuiltBase_of_agree hagree).trans hagent
  have hheader : req'.signatureAgent = header := hagree.signatureAgent
  obtain ⟨a, k, hreq, haccepted⟩ :=
    accepted_of_presentable hP hI (h.of_rebuiltBase hsame hbase) hp (hheader.symm ▸ horigin)
  exact ⟨hw, hsame, _, _, a, o, k, hreq, haccepted⟩

/-! ## Requests sent elsewhere -/

/-- The request sent with another method, to another address and with another body. -/
def resent (req : Incoming) (method host target : Line) (content : Content) : WireRequest where
  toRequestHead := { req.toRequestHead with method, host := some host, originalUrl := target }
  content := content

/-- How the middleware finds it. -/
def resentIncoming (req : Incoming) (method host target : Line) (kept : Option Bytes) :
    Incoming where
  toRequestHead := { req.toRequestHead with method, host := some host, originalUrl := target }
  rawBody := kept

theorem requestUrl_resent {req : Incoming} {method host target : Line} {kept : Option Bytes} :
    requestUrl (resentIncoming req method host target kept) =
      s!"{req.protocol}://{host.text}{target.text}" := by
  simp [requestUrl, resentIncoming, headerText, toString, String.append_assoc]

/-- The URL of a request, or of a short address where it has none. -/
theorem exists_home (hU : P.ReadsAddresses) {req : Incoming}
    (hweb : req.protocol = "http" ∨ req.protocol = "https") :
    ∃ (rest : String) (u : Url), P.parseUrl s!"{req.protocol}://{rest}" = some u ∧
      ∀ u', P.parseUrl (requestUrl req) = some u' → u' = u := by
  cases hread : P.parseUrl (requestUrl req) with
  | none =>
    obtain ⟨u, hu, -⟩ := hU.short hweb
    refine ⟨"a/a", u, ?_, ?_⟩
    · rw [← hu]
      simp [toString, String.append_assoc]
    · rintro u' ⟨⟩
  | some u =>
    refine ⟨(headerText req.host).getD "undefined" ++ req.originalUrl.text, u, ?_, ?_⟩
    · rw [← hread]
      simp [requestUrl, toString, String.append_assoc]
    · rintro u' ⟨⟩
      rfl

/-- There is a body that comes through as it is, and it is the one that was signed if that is
covered. -/
theorem exists_content (hparse : parse.Lawful) {req : Incoming} {parts : SignatureParts}
    (hp : Presentable P parse req parts) : ∃ content kept, keptBody parse content = some kept ∧
      kept.getD [] = content.bytes ∧
      ("content-digest" ∈ parts.components → content.bytes = req.body) := by
  by_cases hdigest : "content-digest" ∈ parts.components
  · obtain ⟨content, kept, hkept, hbytes, hbody⟩ := hp.body hdigest
    exact ⟨content, kept, hkept, hbytes, fun _ => hbody⟩
  · refine ⟨⟨none, none, []⟩, none, ?_, rfl, fun hmem => absurd hmem hdigest⟩
    rw [keptBody, hparse.empty]

/-- There is a body that comes through as it is and is not the one given. -/
theorem exists_other_content (hparse : parse.Lawful) (body : Bytes) :
    ∃ content kept, keptBody parse content = some kept ∧ kept.getD [] = content.bytes ∧
      content.bytes ≠ body := by
  by_cases hempty : body = []
  · refine ⟨⟨some ⟨"application/json", by decide⟩, none, utf8 "\x7b\x7d"⟩,
      some (utf8 "\x7b\x7d"), ?_, rfl, ?_⟩
    · rw [keptBody, hparse.json]
      show some (some (utf8 (fromUtf8Lossy (utf8 "\x7b\x7d")))) = _
      rw [fromUtf8Lossy_utf8]
    · rw [hempty]
      decide
  · refine ⟨⟨none, none, []⟩, none, ?_, rfl, Ne.symm hempty⟩
    rw [keptBody, hparse.empty]

section

variable (hP : P.Lawful) (hU : P.ReadsAddresses) (hI : P.Ideal) {sk : P.PrivateKey}
  {req : Incoming} (hweb : req.protocol = "http" ∨ req.protocol = "https")
  {parts : SignatureParts} (h : SignedBy P sk req parts) (hp : Presentable P parse req parts)
  {rest : String} {u : Url} (hu : P.parseUrl s!"{req.protocol}://{rest}" = some u)
  (hhome : ∀ u', P.parseUrl (requestUrl req) = some u' → u' = u)

include hP h hhome

/-- The URL of a request whose signature covers anything can be read. -/
theorem parse_of_covered (hne : parts.components ≠ []) :
    P.parseUrl (requestUrl req) = some u := by
  obtain ⟨base, hbase, _⟩ := h.signature
  obtain ⟨input, signature, _, hread⟩ := h.headers
  obtain ⟨c, hc⟩ := List.exists_mem_of_ne_nil _ hne
  obtain ⟨_, hvalue, _⟩ := values_of_base hP hread hbase hbase c hc
  obtain ⟨u', hu', _⟩ := Option.bind_eq_some_iff.mp hvalue
  obtain rfl := hhome u' hu'
  exact hu'

include hI hp

/-- Sent to an address that reads like its own, as far as that is covered, it is accepted. -/
theorem admitted_resent (method host target : Line) {content : Content} {kept : Option Bytes}
    {v : Url} (hkept : keptBody parse content = some kept)
    (hv : P.parseUrl s!"{req.protocol}://{host.text}{target.text}" = some v)
    (hauthority : "@authority" ∈ parts.components → v.host = u.host)
    (hpath : "@path" ∈ parts.components → v.pathname = u.pathname)
    (hmethod : "@method" ∈ parts.components →
      toAsciiUppercase method.text = toAsciiUppercase req.method.text)
    (hbody : "content-digest" ∈ parts.components → kept.getD [] = req.body) :
    ∃ header, Admitted P parse req
      (resent { req with signatureAgent := header } method host target content)
      (resentIncoming { req with signatureAgent := header } method host target kept) := by
  obtain ⟨header, hadmit⟩ := exists_agent hP hI h hp
  refine ⟨header, hadmit (handedOn_eq_some.mpr ⟨rfl, hkept⟩) ⟨rfl, rfl⟩ ?_⟩
  refine ⟨fun hne => ⟨u, v, ?_, ?_, hauthority, hpath⟩, hmethod, hbody, rfl, rfl⟩
  · exact parse_of_covered hP h hhome hne
  · rw [requestUrl_resent]
    exact hv

include hU hweb hu

/-- Sent to its own address or to a short one, it is accepted as it was sent. -/
theorem exists_admitted (method host target : Line) {content : Content} {kept : Option Bytes}
    (hkept : keptBody parse content = some kept) (hbytes : kept.getD [] = content.bytes)
    (hhost : host.text ∈ [u.host, "a", "b"]) (htarget : target.text ∈ [u.pathname, "/a", "/b"])
    (hauthority : "@authority" ∈ parts.components → host.text = u.host)
    (hpath : "@path" ∈ parts.components → target.text = u.pathname)
    (hmethod : "@method" ∈ parts.components →
      toAsciiUppercase method.text = toAsciiUppercase req.method.text)
    (hbody : "content-digest" ∈ parts.components → content.bytes = req.body) :
    ∃ w req', Admitted P parse req w req' ∧ AsSent P req.protocol w req' ∧ w.method = method ∧
      authorityOf P req.protocol w.host = some host.text ∧
      targetPath w.originalUrl.text = target.text ∧ w.content = content := by
  obtain ⟨v, hv, hvhost, hvpath⟩ := hP.reparse hweb hu _ hhost _ htarget
  have hread : P.parseUrl s!"{req.protocol}://{host.text ++ target.text}" = some v := by
    rw [← hv]
    simp [toString, String.append_assoc]
  have hline : authorityOf P req.protocol (some host) = some v.host :=
    authorityOf_host hU hweb hread hvhost.symm
  obtain ⟨hne, hplain⟩ := hU.path_plain hweb hread
  have hplace : targetPath target.text = v.pathname := by
    rw [← hvpath]
    exact targetPath_of_plain hplain
  obtain ⟨header, hadmitted⟩ := admitted_resent hP hI h hp hhome method host target hkept hv
    (fun hmem => hvhost.trans (hauthority hmem)) (fun hmem => hvpath.trans (hpath hmem)) hmethod
    (fun hmem => hbytes.trans (hbody hmem))
  refine ⟨_, _, hadmitted, ⟨⟨v, ?_, hline, ?_⟩, hbytes⟩, rfl, ?_, ?_, rfl⟩
  · rw [requestUrl_resent]
    exact hv
  · rw [pathOf, if_neg hne]
    exact hplace
  · rw [← hvhost]
    exact hline
  · rw [← hvpath]
    exact hplace

end

/-- Whatever the list leaves out can be changed under the signature. -/
theorem exists_altered (hP : P.Lawful) (hU : P.ReadsAddresses) (hI : P.Ideal)
    (hparse : parse.Lawful) {sk : P.PrivateKey} {req : Incoming}
    (hweb : req.protocol = "http" ∨ req.protocol = "https") {parts : SignatureParts}
    (h : SignedBy P sk req parts) (hp : Presentable P parse req parts) {c : String}
    (hc : c ∈ derived) (hnot : c ∉ parts.components) :
    ∃ w req', Admitted P parse req w req' ∧ AsSent P req.protocol w req' ∧
      ¬ SameRequest P req w := by
  obtain ⟨rest, u, hu, hhome⟩ := exists_home hU hweb
  obtain ⟨content, kept, hkept, hbytes, hbody⟩ := exists_content hparse hp
  obtain ⟨hhostBreak, hpathBreak⟩ := hP.url_noBreak hu
  let home : Line := ⟨u.host, hhostBreak⟩
  let path : Line := ⟨u.pathname, hpathBreak⟩
  simp only [derived, List.mem_cons, List.not_mem_nil, or_false] at hc
  rcases hc with rfl | rfl | rfl | rfl
  · obtain ⟨method, hcases, hother⟩ := exists_other (toAsciiUppercase req.method.text)
      ⟨"GET", by decide⟩ ⟨"POST", by decide⟩ (by decide)
    have hupper : toAsciiUppercase method.text = method.text := by
      rcases hcases with rfl | rfl
      · decide
      · decide
    obtain ⟨w, req', hadmitted, hsent, hmethod, -⟩ := exists_admitted hP hU hI hweb h hp hu
      hhome method home path hkept hbytes (by simp [home]) (by simp [path]) (fun _ => rfl)
      (fun _ => rfl) (fun hmem => absurd hmem hnot) hbody
    refine ⟨w, req', hadmitted, hsent, fun hsame => hother ?_⟩
    rw [← hupper, ← hmethod]
    exact hsame.method
  · obtain ⟨host, hcases, hother⟩ :=
      exists_other u.host ⟨"a", by decide⟩ ⟨"b", by decide⟩ (by decide)
    have hhost : host.text ∈ [u.host, "a", "b"] := by
      rcases hcases with rfl | rfl
      · simp
      · simp
    obtain ⟨w, req', hadmitted, hsent, -, hauthority, -⟩ := exists_admitted hP hU hI hweb h hp hu
      hhome req.method host path hkept hbytes hhost (by simp [path])
      (fun hmem => absurd hmem hnot) (fun _ => rfl) (fun _ => rfl) hbody
    refine ⟨w, req', hadmitted, hsent, fun hsame => hother ?_⟩
    obtain ⟨u', hu', hnamed, -⟩ := hsame.address
    obtain rfl := hhome u' hu'
    exact Option.some.inj (hauthority.symm.trans hnamed)
  · obtain ⟨target, hcases, hother⟩ :=
      exists_other u.pathname ⟨"/a", by decide⟩ ⟨"/b", by decide⟩ (by decide)
    have htarget : target.text ∈ [u.pathname, "/a", "/b"] := by
      rcases hcases with rfl | rfl
      · simp
      · simp
    obtain ⟨w, req', hadmitted, hsent, -, -, hplace, -⟩ := exists_admitted hP hU hI hweb h hp hu
      hhome req.method home target hkept hbytes (by simp [home]) htarget (fun _ => rfl)
      (fun hmem => absurd hmem hnot) (fun _ => rfl) hbody
    refine ⟨w, req', hadmitted, hsent, fun hsame => hother ?_⟩
    obtain ⟨u', hu', -, hnamed⟩ := hsame.address
    obtain rfl := hhome u' hu'
    rw [← hplace, hnamed, pathOf, if_neg (hU.path_plain hweb hu).1]
  · obtain ⟨other, kept', hkept', hbytes', hother⟩ := exists_other_content hparse req.body
    obtain ⟨w, req', hadmitted, hsent, -, -, -, hcontent⟩ := exists_admitted hP hU hI
      hweb h hp hu hhome req.method home path hkept' hbytes' (by simp [home]) (by simp [path])
      (fun _ => rfl) (fun _ => rfl) (fun _ => rfl)
      fun hmem => absurd hmem hnot
    refine ⟨w, req', hadmitted, hsent, fun hsame => hother ?_⟩
    rw [← hcontent]
    exact hsame.body

/-- Whatever the list names, the target can be moved into a query. -/
theorem exists_misdirected (hP : P.Lawful) (hU : P.ReadsAddresses) (hI : P.Ideal)
    (hparse : parse.Lawful) {sk : P.PrivateKey} {req : Incoming}
    (hweb : req.protocol = "http" ∨ req.protocol = "https") {parts : SignatureParts}
    (h : SignedBy P sk req parts) (hp : Presentable P parse req parts) (target : Line) :
    ∃ w req', Admitted P parse req w req' ∧ w.originalUrl = target ∧ ¬ SameRequest P req w := by
  obtain ⟨rest, u, hu, hhome⟩ := exists_home hU hweb
  obtain ⟨content, kept, hkept, hbytes, hbody⟩ := exists_content hparse hp
  obtain ⟨hhostBreak, hpathBreak⟩ := hP.url_noBreak hu
  have hbreak : '\n' ∉ (u.host ++ u.pathname ++ "?").toList := by
    simp only [String.toList_append, List.mem_append, not_or]
    exact ⟨⟨hhostBreak, hpathBreak⟩, by decide⟩
  -- the host has a query in it, and what is sent as the target goes on with that
  let host : Line := ⟨u.host ++ u.pathname ++ "?", hbreak⟩
  obtain ⟨v, hv, hvhost, hvpath⟩ := hU.query hweb hu target.text
  have hread : P.parseUrl s!"{req.protocol}://{host.text}{target.text}" = some v := by
    rw [← hv]
    simp [host, toString, String.append_assoc]
  obtain ⟨header, hadmitted⟩ := admitted_resent hP hI h hp hhome req.method host target hkept hread
    (fun _ => hvhost) (fun _ => hvpath) (fun _ => rfl) fun hmem => hbytes.trans (hbody hmem)
  refine ⟨_, _, hadmitted, rfl, fun hsame => ?_⟩
  obtain ⟨u', -, hnamed, -⟩ := hsame.address
  have hends : host.text.toList.any endsAuthority = true := by
    simp only [host, String.toList_append, List.any_append, Bool.or_eq_true]
    exact .inr (by decide)
  rw [show (resent _ req.method host target content).host = some host from rfl,
    authorityOf_eq_none hends] at hnamed
  cases hnamed

/-- Whatever is accepted under a signature and was sent the way it reads is the request that was
signed exactly when the list names the method, the authority, the path and the digest of the body,
or the signature cannot be presented at all. Under such a list, what is accepted is the request
that was signed exactly when it was sent the way it reads; and no list makes up for that: under
every signature that can be presented, a request to any target is accepted. -/
theorem signature_covers_iff (hP : P.Lawful) (hU : P.ReadsAddresses) (hI : P.Ideal)
    (hparse : parse.Lawful) {sk : P.PrivateKey} {req : Incoming}
    (hweb : req.protocol = "http" ∨ req.protocol = "https") {parts : SignatureParts}
    (h : SignedBy P sk req parts) :
    ((∀ w req', Admitted P parse req w req' → AsSent P req.protocol w req' →
        SameRequest P req w) ↔
      (∀ c ∈ derived, c ∈ parts.components) ∨ ¬ Presentable P parse req parts) ∧
    ((∀ c ∈ derived, c ∈ parts.components) → ∀ w req', Admitted P parse req w req' →
      (SameRequest P req w ↔ AsSent P req.protocol w req')) ∧
    (Presentable P parse req parts → ∀ target, ∃ w req', Admitted P parse req w req' ∧
      w.originalUrl = target ∧ ¬ SameRequest P req w) := by
  have hcover : (∀ c ∈ derived, c ∈ parts.components) → ∀ w req', Admitted P parse req w req' →
      (SameRequest P req w ↔ AsSent P req.protocol w req') := by
    rintro hcovered w req' ⟨hw, hsame, S, ledger, a, o, k, rfl, haccepted⟩
    obtain ⟨_, c, hvetted, _⟩ := accepted_iff.mp haccepted
    exact sameRequest_iff_asSent (readsSame_of_covered hP hI h hcovered hsame hvetted) hw
  refine ⟨⟨fun hall => ?_, ?_⟩, hcover, fun hp target => ?_⟩
  · by_contra hneg
    rw [not_or, not_not] at hneg
    obtain ⟨hleft, hp⟩ := hneg
    obtain ⟨c, hc, hnot⟩ : ∃ c ∈ derived, c ∉ parts.components := by
      by_contra hnone
      exact hleft fun c hc => by_contra fun hnot => hnone ⟨c, hc, hnot⟩
    obtain ⟨w, req', hadmitted, hsent, hdifferent⟩ :=
      exists_altered hP hU hI hparse hweb h hp hc hnot
    exact hdifferent (hall w req' hadmitted hsent)
  · rintro (hcovered | hnot) w req' hadmitted hsent
    · exact (hcover hcovered w req' hadmitted).mpr hsent
    · exact absurd (presentable_of_admitted hP hI h hadmitted hsent) hnot
  · exact exists_misdirected hP hU hI hparse hweb h hp target

/-! ## A request with a body added -/

/-- The parts of a URL stand on their own in the sample, and a query does not show. -/
theorem sample_readsAddresses : samplePlatformOfKeys.ReadsAddresses where
  host_plain := by
    intro scheme rest u _ hu
    rw [List.any_eq_false]
    intro c hc
    have hchar := (plain_of_sampleParse hu).hostChars c hc
    intro hend
    simp only [endsAuthority, List.mem_cons, List.not_mem_nil, or_false, decide_eq_true_eq] at hend
    rcases hend with rfl | rfl | rfl | rfl | rfl
    all_goals exact absurd hchar (by decide)
  path_plain := by
    intro scheme rest u _ hu
    have hplain := plain_of_sampleParse hu
    refine ⟨fun hempty => ?_, ?_⟩
    · have hhead := hplain.path_head
      rw [hempty] at hhead
      exact absurd hhead (by decide)
    · rw [List.any_eq_false]
      intro c hc
      have hchar := hplain.pathChars c hc
      intro hend
      simp only [endsPath, List.mem_cons, List.not_mem_nil, or_false, decide_eq_true_eq] at hend
      rcases hend with rfl | rfl
      all_goals exact absurd hchar (by decide)
  host_alone := by
    intro scheme rest u hscheme hu
    have hplain := plain_of_sampleParse hu
    obtain ⟨v, hv, hhost, -⟩ := sampleUrl_append_nil scheme _ ['/']
      ⟨hplain.host_ne_nil, hplain.hostChars, rfl, List.all_eq_true.mp (by decide)⟩
    refine ⟨v, ?_, by rw [hhost, String.ofList_toList]⟩
    obtain ⟨after, hafter⟩ : ∃ after, after = u.host ++ "/" := ⟨_, rfl⟩
    have htext : s!"{scheme}://{u.host}/" = s!"{scheme}://{after}" := by
      simp [hafter, toString, String.append_assoc]
    show sampleParse _ = _
    rw [htext, sampleParse_scheme hscheme, hafter, String.toList_append]
    exact hv
  query := by
    intro scheme rest u hscheme hu query
    have hplain := plain_of_sampleParse hu
    obtain ⟨v, hv, hhost, hpath⟩ := @sampleUrl_append scheme _ _ ('?' :: query.toList) hplain
      (.inr rfl)
    refine ⟨v, ?_, by rw [hhost, String.ofList_toList], by rw [hpath, String.ofList_toList]⟩
    obtain ⟨after, hafter⟩ : ∃ after, after = u.host ++ u.pathname ++ ("?" ++ query) := ⟨_, rfl⟩
    have htext : s!"{scheme}://{u.host}{u.pathname}?{query}" = s!"{scheme}://{after}" := by
      simp [hafter, toString, String.append_assoc]
    show sampleParse _ = _
    rw [htext, sampleParse_scheme hscheme, hafter, String.toList_append, String.toList_append,
      String.toList_append]
    exact hv
  short := by
    rintro scheme hscheme
    obtain ⟨v, hv, hhost, hpath⟩ := sampleUrl_append_nil scheme ['a'] ['/', 'a']
      ⟨by decide, List.all_eq_true.mp (by decide), rfl, List.all_eq_true.mp (by decide)⟩
    refine ⟨v, ?_, hhost, hpath⟩
    obtain ⟨after, hafter⟩ : ∃ after : String, after = "a/a" := ⟨_, rfl⟩
    have htext : s!"{scheme}://a/a" = s!"{scheme}://{after}" := by
      simp [hafter, toString, String.append_assoc]
    show sampleParse _ = _
    rw [htext, sampleParse_scheme hscheme, hafter]
    exact hv

/-- `express.json` takes objects and arrays. -/
def isContainer : Option Json.Value → Bool
  | some (.object _) => true
  | some (.array _) => true
  | _ => false

/-- A parser of JSON that is not compressed. -/
def sampleBodies : BodyParser := fun content =>
  if content.bytes = [] ∨ headerText content.contentType ≠ some "application/json" then .skipped
  else if headerText content.contentEncoding = none ∧
      isContainer ((ofUtf8 content.bytes).bind Json.parse) = true then
    .read content.bytes
  else .refused

theorem sampleBodies_json {s : String} (hne : s ≠ "") (h : isContainer (Json.parse s) = true) :
    sampleBodies ⟨some ⟨"application/json", by decide⟩, none, utf8 s⟩ = .read (utf8 s) := by
  have hbytes : utf8 s ≠ [] := fun hempty => hne (utf8_injective hempty)
  have hread : isContainer ((ofUtf8 (utf8 s)).bind Json.parse) = true := by
    rw [ofUtf8_utf8]
    exact h
  unfold sampleBodies
  rw [if_neg (not_or.mpr ⟨hbytes, fun hne => hne rfl⟩), if_pos ⟨rfl, hread⟩]

theorem sampleBodies_lawful : sampleBodies.Lawful where
  empty := if_pos (.inl rfl)
  json := sampleBodies_json (by decide) (by decide)

/-- What agrees with the sample on the components listed is accepted under its signature. -/
theorem accepted_of_agree {req : Incoming} (hsame : SameSignature sampleIncoming req)
    (hagree : Agree samplePlatformOfKeys sampleParts.components sampleIncoming req) :
    (webBotAuth samplePlatformOfKeys defaultServer [] (arrivalOf req 1700000010)).1 =
      .accepted "https://agent.example" "agent-1" := by
  have hsigned : SignedBy samplePlatformOfKeys sampleSigner req sampleParts :=
    sampleIncoming_signed.of_rebuiltBase hsame (rebuiltBase_of_agree hagree)
  have hpresented : Presented samplePlatformOfKeys defaultServer sampleSigner
      (arrivalOf sampleIncoming 1700000010) sampleParts "https://agent.example" "agent-1" :=
    sampleIncoming_presented (by omega) (by omega)
  have horigin : signatureAgentOrigin samplePlatformOfKeys (headerText req.signatureAgent) =
      some "https://agent.example" := by
    rw [hagree.signatureAgent]
    exact hpresented.origin
  have hvetted : Vetted samplePlatformOfKeys defaultServer (arrivalOf req 1700000010)
      (callerOf sampleParts "https://agent.example" "agent-1") :=
    (vetted_iff_of_signed sample_ideal hsigned).mpr ⟨⟨horigin, hpresented.keyid, hpresented.key,
      hpresented.tag, hpresented.fresh, hpresented.age⟩, rfl⟩
  refine accepted_iff.mpr ⟨rfl, _, hvetted, rfl, rfl, ?_⟩
  rw [visitOf, callerOf, nonceOf_sample]
  rfl

/-- The sample, sent as it was signed. -/
def sampleWire : WireRequest where
  toRequestHead := sampleIncoming.toRequestHead
  content := ⟨none, none, []⟩

theorem presentable_sample :
    Presentable samplePlatformOfKeys sampleBodies sampleIncoming sampleParts := by
  have hagree : Agree samplePlatformOfKeys sampleParts.components sampleIncoming
      sampleIncoming :=
    ⟨fun _ => ⟨gateUrl, gateUrl, parse_gate, parse_gate, fun _ => rfl, fun _ => rfl⟩,
      fun _ => rfl, fun _ => rfl, rfl, rfl⟩
  have hadmitted : Admitted samplePlatformOfKeys sampleBodies sampleIncoming sampleWire
      sampleIncoming :=
    ⟨rfl, ⟨rfl, rfl⟩, _, _, _, _, _, rfl, accepted_of_agree ⟨rfl, rfl⟩ hagree⟩
  have hsent : AsSent samplePlatformOfKeys "https" sampleWire sampleIncoming :=
    ⟨⟨gateUrl, parse_gate, by decide +kernel, by decide +kernel⟩, rfl⟩
  exact presentable_of_admitted sample_lawful sample_ideal sampleIncoming_signed hadmitted hsent

/-- A request without a body is not covered, and is accepted with any target. -/
theorem signature_covers_iff_sample :
    (¬ ∀ w req', Admitted samplePlatformOfKeys sampleBodies sampleIncoming w req' →
      AsSent samplePlatformOfKeys "https" w req' →
      SameRequest samplePlatformOfKeys sampleIncoming w) ∧
    ∀ target, ∃ w req', Admitted samplePlatformOfKeys sampleBodies sampleIncoming w req' ∧
      w.originalUrl = target ∧ ¬ SameRequest samplePlatformOfKeys sampleIncoming w := by
  have h := signature_covers_iff sample_lawful sample_readsAddresses sample_ideal
    sampleBodies_lawful (.inr rfl) sampleIncoming_signed
  refine ⟨fun hall => ?_, h.2.2 presentable_sample⟩
  rcases h.1.mp hall with hcovered | hnot
  · exact absurd (hcovered "content-digest" (by decide)) (by decide)
  · exact hnot presentable_sample

/-- What `signRequest` lists leaves out the body exactly when there is none. -/
theorem covered_iff {out : OutRequest} :
    (∀ c ∈ derived, c ∈ coveredComponents out) ↔ out.body ≠ "" := by
  unfold coveredComponents
  split_ifs with hbody
  · exact ⟨fun h => absurd h (by decide), fun h => absurd hbody h⟩
  · exact ⟨fun _ => hbody, fun _ => by decide⟩

/-- The request with a body that was not signed. -/
def withBody : WireRequest where
  toRequestHead := sampleIncoming.toRequestHead
  content := ⟨some ⟨"application/json", by decide⟩, none, utf8 sampleBody⟩

def withBodyIncoming : Incoming := { sampleIncoming with rawBody := some (utf8 sampleBody) }

theorem handedOn_withBody : handedOn sampleBodies withBody = some withBodyIncoming := by
  rw [handedOn_eq_some]
  refine ⟨rfl, ?_⟩
  rw [keptBody, withBody, sampleBodies_json (by decide) (by decide +kernel)]
  show some (some (utf8 (fromUtf8Lossy (utf8 sampleBody)))) = _
  rw [fromUtf8Lossy_utf8]
  rfl

/-- A request that was signed without a body is accepted with one. -/
theorem added_body_accepted :
    SignedBy samplePlatformOfKeys sampleSigner sampleIncoming sampleParts ∧
      handedOn sampleBodies withBody = some withBodyIncoming ∧
      SameSignature sampleIncoming withBodyIncoming ∧
      (webBotAuth samplePlatformOfKeys defaultServer []
        (arrivalOf withBodyIncoming 1700000010)).1 =
        .accepted "https://agent.example" "agent-1" ∧
      ¬ SameRequest samplePlatformOfKeys sampleIncoming withBody := by
  have hagree : Agree samplePlatformOfKeys sampleParts.components sampleIncoming
      withBodyIncoming :=
    ⟨fun _ => ⟨gateUrl, gateUrl, parse_gate, parse_gate, fun _ => rfl, fun _ => rfl⟩,
      fun _ => rfl, fun hmem => absurd hmem (by decide), rfl, rfl⟩
  refine ⟨sampleIncoming_signed, handedOn_withBody, ⟨rfl, rfl⟩,
    accepted_of_agree ⟨rfl, rfl⟩ hagree, fun h => ?_⟩
  have hbody : utf8 sampleBody = utf8 "" := h.body
  exact absurd (utf8_injective hbody) (by decide +kernel)

end Gatekeeper.Agent
