import Gatekeeper.Agent.A2aAuthTheorems

/-!
# Requests that were signed

The laws of the platform, and what follows from them for a request whose signature was made by
the holder of a key: which arrivals of it are vetted, and how the headers of `signRequest` are
read back.
-/

namespace Gatekeeper.Agent

open Encoding Js Pattern Text

/-! ## The laws of the platform -/

/-- What the encodings and the URL parser promise. The authority and the path of a web address
can be exchanged for those that another one has, and for plain ones. -/
structure SigPlatform.Lawful (P : SigPlatform) : Prop where
  fromBase64_encode (b : Bytes) : P.fromBase64 (base64Encode b) = b
  url_noBreak {s : String} {u : Url} : P.parseUrl s = some u →
    '\n' ∉ u.host.toList ∧ '\n' ∉ u.pathname.toList
  inherited_noBreak {name text : String} : P.inherited name = some text → '\n' ∉ text.toList
  reparse {scheme rest : String} {u : Url} : scheme = "http" ∨ scheme = "https" →
    P.parseUrl s!"{scheme}://{rest}" = some u →
    ∀ host ∈ [u.host, "a", "b"], ∀ path ∈ [u.pathname, "/a", "/b"],
      ∃ v, P.parseUrl s!"{scheme}://{host}{path}" = some v ∧ v.host = host ∧ v.pathname = path
  publishable (sk : P.PrivateKey) : ∃ x, P.importKey x = .ok (P.publicKey sk)

/-- Signatures verify for the key and the message they were made with and for no other, and
digests tell bytes apart. -/
structure SigPlatform.Ideal (P : SigPlatform) : Prop where
  verify_sign {key : P.Key} {sk : P.PrivateKey} {m m' : Bytes} :
    P.verify key m' (P.sign sk m) = true ↔ key = P.publicKey sk ∧ m' = m
  sign_ne_nil (sk : P.PrivateKey) (m : Bytes) : P.sign sk m ≠ []
  sha256_injective : Function.Injective P.sha256

variable {P : SigPlatform}

theorem contentDigest_injective (hI : P.Ideal) : Function.Injective (contentDigest P) := by
  intro b c h
  have htext : base64Encode (P.sha256 b) = base64Encode (P.sha256 c) := by
    have hlist := congrArg String.toList h
    simp only [contentDigest, toString, String.toList_append, List.append_cancel_right_eq,
      List.append_cancel_left_eq] at hlist
    exact String.toList_injective hlist
  exact hI.sha256_injective (base64Encode_injective htext)

/-! ## Lines of the signature base -/

theorem componentLine_inj {c v w : String} (h : componentLine c v = componentLine c w) :
    v = w := by
  have hlist := congrArg String.toList h
  simp only [componentLine, toString, String.toList_append, List.append_cancel_left_eq] at hlist
  exact String.toList_injective hlist

/-- Each component has a value, and a line with it. -/
theorem componentLines_cons {ctx : Context} {c : String} {cs lines : List String} :
    componentLines P ctx (c :: cs) = some lines ↔
      ∃ v rest, componentValue P ctx c = some v ∧ componentLines P ctx cs = some rest ∧
        lines = componentLine c v :: rest := by
  simp only [componentLines, List.mapM_cons, Option.bind_eq_bind, Option.bind_eq_some_iff,
    Option.map_eq_some_iff, Option.pure_def, Option.some.injEq]
  constructor
  · rintro ⟨l, ⟨v, hv, rfl⟩, rest, hrest, rfl⟩
    exact ⟨v, rest, hv, hrest, rfl⟩
  · rintro ⟨v, rest, hv, hrest, rfl⟩
    exact ⟨_, ⟨v, hv, rfl⟩, rest, hrest, rfl⟩

/-- The same lines come from the same values. -/
theorem componentValue_of_lines {ctx ctx' : Context} {cs lines : List String}
    (h : componentLines P ctx cs = some lines) (h' : componentLines P ctx' cs = some lines) :
    ∀ c ∈ cs, ∃ v, componentValue P ctx c = some v ∧ componentValue P ctx' c = some v := by
  induction cs generalizing lines with
  | nil =>
    intro c hc
    cases hc
  | cons d cs ih =>
    obtain ⟨v, rest, hv, hrest, rfl⟩ := componentLines_cons.mp h
    obtain ⟨w, rest', hw, hrest', heq⟩ := componentLines_cons.mp h'
    obtain ⟨hline, rfl⟩ := List.cons.inj heq
    obtain rfl := componentLine_inj hline
    intro c hc
    rcases List.mem_cons.mp hc with rfl | hc
    · exact ⟨v, hv, hw⟩
    · exact ih hrest hrest' c hc

theorem mem_componentLines {ctx : Context} {cs lines : List String} {l : String}
    (h : componentLines P ctx cs = some lines) (hl : l ∈ lines) :
    ∃ c ∈ cs, ∃ v, componentValue P ctx c = some v ∧ l = componentLine c v := by
  induction cs generalizing lines with
  | nil =>
    cases h
    cases hl
  | cons d cs ih =>
    obtain ⟨v, rest, hv, hrest, rfl⟩ := componentLines_cons.mp h
    rcases List.mem_cons.mp hl with rfl | hl
    · exact ⟨d, List.mem_cons_self, v, hv, rfl⟩
    · obtain ⟨c, hc, hmem⟩ := ih hrest hl
      exact ⟨c, List.mem_cons_of_mem _ hc, hmem⟩

theorem componentLines_congr {ctx ctx' : Context} {cs : List String}
    (h : ∀ c ∈ cs, componentValue P ctx c = componentValue P ctx' c) :
    componentLines P ctx cs = componentLines P ctx' cs := by
  induction cs with
  | nil => rfl
  | cons c cs ih =>
    rw [List.forall_mem_cons] at h
    rw [componentLines, componentLines, List.mapM_cons, List.mapM_cons, h.1]
    congr 1
    funext l
    exact congrArg (fun rest => rest >>= fun ls => pure (l :: ls)) (ih h.2)

/-- The components that are not read from a header. -/
def derived : List String := ["@method", "@authority", "@path", "content-digest"]

/-- A value depends only on the part of the request that its component names. -/
theorem componentValue_congr {ctx ctx' : Context} {c : String}
    (hurl : (P.parseUrl ctx.url).isSome = (P.parseUrl ctx'.url).isSome)
    (hmethod : c = "@method" → toAsciiUppercase ctx.method = toAsciiUppercase ctx'.method)
    (hauthority : c = "@authority" →
      (P.parseUrl ctx.url).map (·.host) = (P.parseUrl ctx'.url).map (·.host))
    (hpath : c = "@path" →
      (P.parseUrl ctx.url).map (·.pathname) = (P.parseUrl ctx'.url).map (·.pathname))
    (hdigest : c = "content-digest" → ctx.contentDigestValue = ctx'.contentDigestValue)
    (hheader : c ∉ derived → ctx.header = ctx'.header) :
    componentValue P ctx c = componentValue P ctx' c := by
  unfold componentValue
  cases hu : P.parseUrl ctx.url with
  | none =>
    rw [hu, Option.isSome_none] at hurl
    rw [Option.isSome_eq_false_iff.mp hurl.symm |> Option.isNone_iff_eq_none.mp]
    rfl
  | some u =>
    rw [hu, Option.isSome_some] at hurl
    obtain ⟨u', hu'⟩ := Option.isSome_iff_exists.mp hurl.symm
    rw [hu, hu'] at hauthority hpath
    rw [hu', Option.bind_eq_bind, Option.bind_some, Option.bind_eq_bind, Option.bind_some]
    by_cases hm : c = "@method"
    · rw [if_pos hm, if_pos hm, hmethod hm]
    rw [if_neg hm, if_neg hm]
    by_cases ha : c = "@authority"
    · rw [if_pos ha, if_pos ha]
      exact hauthority ha
    rw [if_neg ha, if_neg ha]
    by_cases hp : c = "@path"
    · have hsame : u.pathname = u'.pathname := Option.some.inj (hpath hp)
      rw [if_pos hp, if_pos hp, hsame]
    rw [if_neg hp, if_neg hp]
    by_cases hd : c = "content-digest"
    · rw [if_pos hd, if_pos hd, hdigest hd]
    rw [if_neg hd, if_neg hd, hheader (by simp [derived, hm, ha, hp, hd])]

/-! ## Signed requests -/

/-- The signature that the request carries was made by the key, over the base that a verifier
rebuilds from the request. -/
structure SignedBy (P : SigPlatform) (sk : P.PrivateKey) (req : Incoming)
    (parts : SignatureParts) : Prop where
  headers : ∃ input signature, signatureHeaders req = some (input, signature) ∧
    readSignature input signature = some parts
  signature : ∃ base, rebuiltBase P (toVerify req) parts = some base ∧
    P.fromBase64 parts.signature = P.sign sk (utf8 base)

theorem readSignature_spec {input signature : String} {parts : SignatureParts}
    (h : readSignature input signature = some parts) :
    ∃ label, labelledValue input = some (label, parts.params) ∧
      componentsOf parts.params = some parts.components := by
  simp only [readSignature, Option.bind_eq_bind, Option.bind_eq_some_iff] at h
  obtain ⟨⟨label, params⟩, hvalue, ⟨label', sig⟩, _, h⟩ := h
  dsimp only at h
  split_ifs at h
  obtain ⟨components, hcomponents, h⟩ := Option.bind_eq_some_iff.mp h
  cases h
  exact ⟨label, hvalue, hcomponents⟩

/-- The middleware and the verifier read the same parameters. -/
theorem sigParams_of_readSignature {input signature : String} {parts : SignatureParts}
    (h : readSignature input signature = some parts) :
    sigParams input = some {
      keyid := keyidOf parts.params
      nonce := nonceOf parts.params
      expires := expiresOf parts.params
      created := createdOf parts.params } := by
  obtain ⟨label, hvalue, _⟩ := readSignature_spec h
  rw [sigParams, hvalue]
  rfl

/-- Headers that can be read are there. -/
theorem signatureHeaders_of_read {req : Incoming} {input signature : String}
    {parts : SignatureParts} (hinput : headerText req.signatureInput = some input)
    (hsignature : headerText req.signature = some signature)
    (h : readSignature input signature = some parts) :
    signatureHeaders req = some (input, signature) := by
  have hi : input ≠ "" := by
    rintro rfl
    cases h
  have hs : signature ≠ "" := by
    rintro rfl
    have hnone : labelledBytes "" = none := by decide
    simp [readSignature, hnone] at h
  rw [signatureHeaders, hinput, hsignature, Option.filter_some, Option.filter_some]
  simp [hi, hs]

/-- What the middleware checks of a request that was signed: the signature itself holds when
the key that is found is the signer's. -/
structure Presented (P : SigPlatform) (S : AuthServer) (sk : P.PrivateKey) (a : Arrival)
    (parts : SignatureParts) (o k : String) : Prop where
  origin : signatureAgentOrigin P (headerText a.req.signatureAgent) = some o
  keyid : keyidOf parts.params = some k
  key : callerKey P a o k = .ok (P.publicKey sk)
  tag : contains parts.params "tag=\"web-bot-auth\"" = true
  fresh : isFresh { expectedKeyid := k, now := a.verifiedAt } parts.params = true
  age : withinMaxAge S (createdOf parts.params) a.agedAt = true

/-- What the ledger is asked for a signed request. -/
def callerOf (parts : SignatureParts) (o k : String) : Caller where
  origin := o
  keyid := k
  nonce := nonceOf parts.params
  expires := expiresOf parts.params

theorem vetted_iff_of_signed (hI : P.Ideal) {S : AuthServer} {sk : P.PrivateKey} {a : Arrival}
    {parts : SignatureParts} (h : SignedBy P sk a.req parts) {c : Caller} :
    Vetted P S a c ↔ Presented P S sk a parts c.origin c.keyid ∧
      c = callerOf parts c.origin c.keyid := by
  obtain ⟨⟨input, signature, hheaders, hread⟩, base, hbase, hsig⟩ := h
  have hparams := sigParams_of_readSignature hread
  constructor
  · rintro ⟨horigin, input', signature', params, key, hheaders', hparams', hkeyid, hkey, hverify,
      hage, hnonce, hexpires⟩
    obtain ⟨rfl, rfl⟩ := Prod.mk.inj (Option.some.inj (hheaders.symm.trans hheaders'))
    obtain rfl := Option.some.inj (hparams.symm.trans hparams')
    obtain ⟨parts', base', hread', haccepts, hbase', hverify⟩ := verifyRequest_iff.mp hverify
    obtain rfl := Option.some.inj (hread.symm.trans hread')
    obtain rfl := Option.some.inj (hbase.symm.trans hbase')
    -- an ideal signature holds for the key it was made with only
    rw [hsig, hI.verify_sign] at hverify
    rw [hverify.1] at hkey
    simp only [acceptsParts, Bool.and_eq_true] at haccepts
    refine ⟨⟨horigin, hkeyid, hkey, haccepts.1.1, haccepts.2, hage⟩, ?_⟩
    cases c
    simp only at hnonce hexpires
    rw [hnonce, hexpires]
    rfl
  · rintro ⟨⟨horigin, hkeyid, hkey, htag, hfresh, hage⟩, hc⟩
    have haccepts : acceptsParts { expectedKeyid := c.keyid, now := a.verifiedAt } parts =
        true := by
      rw [acceptsParts, htag, hkeyid, hfresh, beq_self_eq_true]
      rfl
    have hverify : P.verify (P.publicKey sk) (utf8 base) (P.fromBase64 parts.signature) = true := by
      rw [hsig]
      exact hI.verify_sign.mpr ⟨rfl, rfl⟩
    exact ⟨horigin, input, signature, _, P.publicKey sk, hheaders, hparams, hkeyid, hkey,
      verifyRequest_iff.mpr ⟨parts, base, hread, haccepts, hbase, hverify⟩, hage,
      congrArg Caller.nonce hc, congrArg Caller.expires hc⟩

/-! ## Reading `signRequest` back -/

/-- The text of a label, an equals sign and a value, read back. -/
theorem labelledValue_append {label value : List Char} (hlabel : ∀ c ∈ label, isLabelChar c = true)
    (hne : label ≠ []) (hvalue : value ≠ []) :
    labelledValue (String.ofList (label ++ '=' :: value)) =
      if value.any isLineEnd = false then some (String.ofList label, String.ofList value)
      else none := by
  have htake : (label ++ '=' :: value).takeWhile isLabelChar = label := by
    rw [List.takeWhile_append_of_pos hlabel, List.takeWhile_cons_of_neg (by decide),
      List.append_nil]
  simp only [labelledValue, String.toList_ofList, htake, List.drop_left]
  by_cases hlines : value.any isLineEnd = false
  · rw [if_pos ⟨hne, hvalue, hlines⟩, if_pos hlines]
  · rw [if_neg fun h => hlines h.2.2, if_neg hlines]

theorem isLabelChar_sig1 : ∀ c ∈ "sig1".toList, isLabelChar c = true :=
  List.all_eq_true.mp (by decide)

theorem isLineEnd_base64 {b : Bytes} {c : Char} (h : c ∈ base64Chars b) : isLineEnd c = false := by
  have halphabet : base64Alphabet.any isLineEnd = false := by decide
  rcases mem_base64Chars h with hc | rfl
  · exact Bool.eq_false_iff.mpr (List.any_eq_false.mp halphabet c hc)
  · rfl

theorem noBreak_base64Encode (b : Bytes) : '\n' ∉ (base64Encode b).toList := by
  intro hmem
  rw [base64Encode, String.toList_ofList] at hmem
  have hnone : isLineEnd '\n' = false := isLineEnd_base64 hmem
  cases hnone

/-- Bytes between colons, read back. -/
theorem labelledBytes_encode {b : Bytes} (h : b ≠ []) :
    labelledBytes s!"sig1=:{base64Encode b}:" = some ("sig1", base64Encode b) := by
  have htext : s!"sig1=:{base64Encode b}:" =
      String.ofList ("sig1".toList ++ '=' :: (':' :: (base64Chars b ++ [':']))) := by
    refine String.toList_injective ?_
    simp [base64Encode, toString, String.toList_append]
  have hlines : (':' :: (base64Chars b ++ [':'])).any isLineEnd = false := by
    rw [List.any_eq_false]
    intro c hc
    rw [Bool.not_eq_true]
    rcases List.mem_cons.mp hc with rfl | hc
    · rfl
    rcases List.mem_append.mp hc with hc | hc
    · exact isLineEnd_base64 hc
    · obtain rfl := List.mem_singleton.mp hc
      rfl
  rw [labelledBytes, htext, labelledValue_append isLabelChar_sig1 (by decide) (by simp),
    if_pos hlines, Option.bind_eq_bind, Option.bind_some]
  have hlast : (base64Chars b ++ [':']).getLast? = some ':' := List.getLast?_concat
  have hbody : (base64Chars b ++ [':']).dropLast = base64Chars b := List.dropLast_concat
  simp only [String.toList_ofList, hlast, hbody]
  rw [if_pos ⟨trivial, base64Chars_ne_nil h⟩]
  rfl

/-- What stands between the parentheses. -/
def innerText (cs : List String) : List Char :=
  (" ".intercalate (cs.map fun c => s!"\"{c}\"")).toList

/-- The parameters as `signRequest` spells them, with any text for its numbers. -/
theorem toList_params (inner created expires keyid nonce : String) :
    (s!"({inner});created={created};expires={expires}" ++
      s!";keyid=\"{keyid}\";alg=\"ed25519\";nonce=\"{nonce}\";tag=\"web-bot-auth\"").toList =
      '(' :: inner.toList ++ ')' :: ([] ++ ';' ::
        ("created=".toList ++ (created.toList ++ ';' ::
        ("expires=".toList ++ (expires.toList ++ ';' ::
        ("keyid=\"".toList ++ (keyid.toList ++ '"' ::
        (";alg=\"ed25519\"".toList ++ ';' ::
        ("nonce=\"".toList ++ (nonce.toList ++ '"' ::
        (";".toList ++ "tag=\"web-bot-auth\"".toList))))))))))) := by
  simp [toString, String.toList_append]

theorem toList_sigParamsText (cs : List String) (params : SigningParams) :
    (sigParamsText cs params).toList = '(' :: innerText cs ++ ')' :: ([] ++ ';' ::
      ("created=".toList ++ ((toString params.created).toList ++ ';' ::
      ("expires=".toList ++ ((toString params.expires).toList ++ ';' ::
      ("keyid=\"".toList ++ (params.keyid.toList ++ '"' ::
      (";alg=\"ed25519\"".toList ++ ';' ::
      ("nonce=\"".toList ++ (params.nonce.toList ++ '"' ::
      (";".toList ++ "tag=\"web-bot-auth\"".toList))))))))))) :=
  toList_params _ _ _ _ _

theorem covered_cases (req : OutRequest) :
    coveredComponents req = baseComponents ∨
      coveredComponents req = baseComponents ++ ["content-digest"] := by
  unfold coveredComponents
  split_ifs
  · exact .inl rfl
  · exact .inr rfl

/-- No parameter starts inside the list of components, and nothing ends it. -/
theorem not_mem_innerText {req : OutRequest} {c : Char} (h : c ∈ ['=', 'k', 'x', ')']) :
    c ∉ '(' :: innerText (coveredComponents req) := by
  simp only [List.mem_cons, List.not_mem_nil, or_false] at h
  rcases covered_cases req with hc | hc
  · rw [hc]
    rcases h with rfl | rfl | rfl | rfl <;> decide
  · rw [hc]
    rcases h with rfl | rfl | rfl | rfl <;> decide

theorem componentsOf_sigParamsText (req : OutRequest) (params : SigningParams) :
    componentsOf (sigParamsText (coveredComponents req) params) = some (coveredComponents req) := by
  have hnames : componentNames (innerText (coveredComponents req)) = coveredComponents req := by
    rcases covered_cases req with h | h
    · rw [h]
      decide
    · rw [h]
      decide
  have hend : ')' ∉ innerText (coveredComponents req) := fun h =>
    not_mem_innerText (by decide) (List.mem_cons_of_mem _ h)
  unfold componentsOf
  rw [toList_sigParamsText]
  simp only [List.cons_append, takeWhile_append_stop hend, List.drop_left, List.head?_cons,
    if_true, hnames]

theorem tag_sigParamsText (cs : List String) (params : SigningParams) :
    contains (sigParamsText cs params) "tag=\"web-bot-auth\"" = true := by
  rw [contains, decide_eq_true_iff, toList_sigParamsText]
  -- everything else stands before it
  simp only [← List.append_assoc, ← List.cons_append]
  exact (List.suffix_append _ _).isInfix

theorem not_mem_append_digits {c : Char} {t : List Char} (ht : c ∉ t) (h : c.isDigit = false)
    (n : ℕ) : c ∉ t ++ (toString n).toList := by
  rw [List.mem_append, not_or]
  exact ⟨ht, not_mem_digits h n⟩

/-- The first mark of a creation time is that of the parameter. -/
theorem firstMatch_created (req : OutRequest) (rest : List Char) :
    firstMatch (digitsAfter "created=")
        ('(' :: innerText (coveredComponents req) ++ ')' :: ([] ++ ';' :: rest)) =
      firstMatch (digitsAfter "created=") rest := by
  rw [digitsAfter_skip (x := '=') (by decide) (not_mem_innerText (by decide)),
    digitsAfter_skip (x := '=') (by decide) (by decide)]

/-- And that of a deadline, behind a time without the letter that its mark has. -/
theorem firstMatch_expires (req : OutRequest) {created : String} (hx : 'x' ∉ created.toList)
    (rest : List Char) :
    firstMatch (digitsAfter "expires=")
        ('(' :: innerText (coveredComponents req) ++ ')' :: ([] ++ ';' ::
          ("created=".toList ++ (created.toList ++ ';' :: rest)))) =
      firstMatch (digitsAfter "expires=") rest := by
  have hpre : 'x' ∉ "created=".toList ++ created.toList := by
    rw [List.mem_append, not_or]
    exact ⟨by decide, hx⟩
  rw [digitsAfter_skip (x := '=') (by decide) (not_mem_innerText (by decide)),
    digitsAfter_skip (x := '=') (by decide) (by decide),
    ← List.append_assoc, digitsAfter_skip (x := 'x') (by decide) hpre]

theorem createdDigits_sigParamsText (req : OutRequest) (params : SigningParams) :
    firstMatch (digitsAfter "created=") (sigParamsText (coveredComponents req) params).toList =
      some params.created := by
  rw [toList_sigParamsText, firstMatch_created,
    firstMatch_of_some (digitsAfter_append (by decide))]

theorem expiresDigits_sigParamsText (req : OutRequest) (params : SigningParams) :
    firstMatch (digitsAfter "expires=") (sigParamsText (coveredComponents req) params).toList =
      some params.expires := by
  rw [toList_sigParamsText, firstMatch_expires req (not_mem_digits (by decide) _),
    firstMatch_of_some (digitsAfter_append (by decide))]

theorem createdOf_sigParamsText (req : OutRequest) (params : SigningParams) :
    createdOf (sigParamsText (coveredComponents req) params) = finiteNumber params.created := by
  rw [createdOf, createdDigits_sigParamsText, Option.bind_some]

theorem expiresOf_sigParamsText (req : OutRequest) (params : SigningParams) :
    expiresOf (sigParamsText (coveredComponents req) params) = finiteNumber params.expires := by
  rw [expiresOf, expiresDigits_sigParamsText, Option.bind_some]

/-- The key's name is read back when it has no quotation mark in it. -/
theorem keyidOf_sigParamsText (req : OutRequest) {params : SigningParams}
    (hne : params.keyid ≠ "") :
    keyidOf (sigParamsText (coveredComponents req) params) = some params.keyid ↔
      '"' ∉ params.keyid.toList := by
  constructor
  · exact not_mem_of_enclosed
  intro hquote
  have hlist : params.keyid.toList ≠ [] := fun h => hne (String.toList_injective h)
  rw [keyidOf, toList_sigParamsText,
    enclosed_skip (x := 'k') (by decide) (not_mem_innerText (by decide)),
    enclosed_skip (x := 'k') (by decide) (by decide),
    ← List.append_assoc,
    enclosed_skip (x := 'k') (by decide) (not_mem_append_digits (by decide) (by decide) _),
    ← List.append_assoc,
    enclosed_skip (x := 'k') (by decide) (not_mem_append_digits (by decide) (by decide) _),
    firstMatch_of_some (enclosed_append hlist hquote), String.ofList_toList]

/-- The nonce is read back when no sign in it or in the key's name can be taken for another. -/
theorem nonceOf_sigParamsText (req : OutRequest) {params : SigningParams}
    (hkeyid : '=' ∉ params.keyid.toList) (hne : params.nonce ≠ "")
    (hquote : '"' ∉ params.nonce.toList) :
    nonceOf (sigParamsText (coveredComponents req) params) = some params.nonce := by
  have hlist : params.nonce.toList ≠ [] := fun h => hne (String.toList_injective h)
  have hkeyidMark : "keyid=\"".toList = "keyid=".toList ++ '"' :: [] := by decide
  rw [nonceOf, toList_sigParamsText,
    enclosed_skip (x := '=') (by decide) (not_mem_innerText (by decide)),
    enclosed_skip (x := '=') (by decide) (by decide),
    ← List.append_assoc,
    enclosed_skip (x := 'o') (by decide) (not_mem_append_digits (by decide) (by decide) _),
    ← List.append_assoc,
    enclosed_skip (x := 'o') (by decide) (not_mem_append_digits (by decide) (by decide) _),
    hkeyidMark, List.append_assoc, List.cons_append, List.nil_append,
    enclosed_skip (x := 'o') (by decide) (by decide),
    -- a name that ends in the mark would hide the nonce
    enclosed_skip (x := '=') (by decide) hkeyid,
    enclosed_skip (x := 'o') (by decide) (by decide),
    firstMatch_of_some (enclosed_append hlist hquote), String.ofList_toList]

/-- The signature that `signRequest` writes, as its headers spell it. -/
def writtenParts (P : SigPlatform) (sk : P.PrivateKey) (req : OutRequest) (params : SigningParams)
    (lines : List String) : SignatureParts where
  params := sigParamsText (coveredComponents req) params
  components := coveredComponents req
  signature := base64Encode
    (P.sign sk (utf8 (signatureBase lines (sigParamsText (coveredComponents req) params))))

/-- The headers that `signRequest` writes are read back, unless a text in them breaks the line. -/
theorem readSignature_signRequest (hI : P.Ideal) {sk : P.PrivateKey} {req : OutRequest}
    {params : SigningParams} {headers : SignedHeaders}
    (h : signRequest P sk req params = some headers) :
    ∃ lines, componentLines P (signingContext P req) (coveredComponents req) = some lines ∧
      readSignature headers.signatureInput headers.signature =
        if (sigParamsText (coveredComponents req) params).toList.any isLineEnd = false then
          some (writtenParts P sk req params lines)
        else none := by
  obtain ⟨lines, hlines, heq⟩ := Option.bind_eq_some_iff.mp h
  refine ⟨lines, hlines, ?_⟩
  obtain rfl := Option.some.inj heq
  dsimp only
  have hinput : s!"sig1={sigParamsText (coveredComponents req) params}" = String.ofList
      ("sig1".toList ++ '=' :: (sigParamsText (coveredComponents req) params).toList) := by
    refine String.toList_injective ?_
    simp [toString, String.toList_append]
  have hne : (sigParamsText (coveredComponents req) params).toList ≠ [] := by
    simp [sigParamsText, toString, String.toList_append]
  rw [readSignature, hinput, labelledValue_append isLabelChar_sig1 (by decide) hne,
    labelledBytes_encode (hI.sign_ne_nil sk _)]
  split_ifs
  · simp only [Option.bind_eq_bind, Option.bind_some, String.ofList_toList]
    rw [if_pos trivial, componentsOf_sigParamsText]
    rfl
  · rfl

/-- The headers that `signRequest` writes can be sent, unless a text in them breaks the line. -/
theorem headers_onLine {sk : P.PrivateKey} {req : OutRequest} {params : SigningParams}
    {headers : SignedHeaders} (h : signRequest P sk req params = some headers)
    (hline : (sigParamsText (coveredComponents req) params).toList.any isLineEnd = false) :
    '\n' ∉ headers.signatureInput.toList ∧ '\n' ∉ headers.signature.toList := by
  obtain ⟨_, _, heq⟩ := Option.bind_eq_some_iff.mp h
  obtain rfl := Option.some.inj heq
  constructor
  · dsimp only [toString]
    rw [String.toList_append, List.mem_append, not_or]
    refine ⟨by decide, fun hmem => ?_⟩
    exact absurd rfl (List.any_eq_false.mp hline _ hmem)
  · dsimp only [toString]
    rw [String.toList_append, String.toList_append, List.mem_append, List.mem_append, not_or,
      not_or]
    exact ⟨⟨by decide, noBreak_base64Encode _⟩, by decide⟩

/-- What `signingFetch` writes into the parameters. -/
def fetchParams (keyid : String) (now : ℕ) (random : Bytes) : SigningParams where
  keyid := keyid
  created := now
  expires := now + defaultTtlSeconds
  nonce := base64Encode random

theorem signingFetch_spec {sk : P.PrivateKey} {keyid directoryOrigin method url body : String}
    {now : ℕ} {random : Bytes} {sent : SentRequest}
    (h : signingFetch P sk keyid directoryOrigin now random method url body = some sent) :
    keyid ≠ "" ∧
      signRequest P sk sent.request (fetchParams keyid now random) = some sent.headers := by
  unfold signingFetch at h
  obtain ⟨_, _, h⟩ := Option.bind_eq_some_iff.mp h
  obtain ⟨headers, hheaders, h⟩ := Option.bind_eq_some_iff.mp h
  rw [Option.ite_none_left_eq_some, not_or] at h
  obtain ⟨⟨hkeyid, _⟩, h⟩ := h
  obtain rfl := Option.some.inj h
  exact ⟨hkeyid, hheaders⟩

/-- A request that arrives with everything the signature was made over. Its other headers may
be any. -/
structure CopyOf (P : SigPlatform) (out : OutRequest) (headers : SignedHeaders) (req : Incoming) :
    Prop where
  method : req.method.text = out.method
  url : ∃ u v, P.parseUrl out.url = some u ∧ P.parseUrl (requestUrl req) = some v ∧
    v.host = u.host ∧ v.pathname = u.pathname
  body : req.body = utf8 out.body
  signatureInput : headerText req.signatureInput = some headers.signatureInput
  signature : headerText req.signature = some headers.signature
  contentDigest : out.body ≠ "" → headerText req.contentDigest = headers.contentDigest

/-- A verifier rebuilds the base that was signed from a request with the same method, host, path
and body. -/
theorem rebuiltBase_writtenParts {sk : P.PrivateKey} {out : OutRequest} {params : SigningParams}
    {headers : SignedHeaders} (hsign : signRequest P sk out params = some headers)
    (req : VerifyRequest) (hmethod : req.method = out.method)
    (hurl : ∃ u v, P.parseUrl out.url = some u ∧ P.parseUrl req.url = some v ∧
      v.host = u.host ∧ v.pathname = u.pathname)
    (hbody : req.body = utf8 out.body)
    (hdigest : out.body ≠ "" → req.contentDigest = headers.contentDigest.getD "")
    {lines : List String}
    (hlines : componentLines P (signingContext P out) (coveredComponents out) = some lines) :
    rebuiltBase P req (writtenParts P sk out params lines) =
      some (signatureBase lines (sigParamsText (coveredComponents out) params)) := by
  obtain ⟨u, v, hu, hv, hhost, hpath⟩ := hurl
  have hwritten : headers.contentDigest = (signingContext P out).contentDigestValue := by
    obtain ⟨_, _, heq⟩ := Option.bind_eq_some_iff.mp hsign
    obtain rfl := Option.some.inj heq
    rfl
  have hcovered : "content-digest" ∈ coveredComponents out ↔ out.body ≠ "" := by
    unfold coveredComponents
    split_ifs with hempty
    · simp [hempty, baseComponents]
    · simp [hempty]
  have hmatches : digestMatches P req (coveredComponents out) = true := by
    rw [digestMatches, Bool.or_eq_true, Bool.not_eq_true']
    by_cases hempty : out.body = ""
    · left
      rw [← Bool.not_eq_true, List.contains_iff_mem, hcovered]
      exact fun h => h hempty
    · right
      rw [beq_iff_eq, hdigest hempty, hwritten, signingContext, if_neg hempty, hbody]
      rfl
  have hsame : componentLines P (verifyContext P req (coveredComponents out))
      (coveredComponents out) = some lines := by
    rw [← hlines]
    refine componentLines_congr fun c hc => ?_
    refine componentValue_congr ?_ ?_ ?_ ?_ ?_ ?_
    · show (P.parseUrl req.url).isSome = (P.parseUrl out.url).isSome
      rw [hu, hv]
      rfl
    · intro _
      exact congrArg toAsciiUppercase hmethod
    · intro _
      show (P.parseUrl req.url).map _ = (P.parseUrl out.url).map _
      rw [hu, hv, Option.map_some, Option.map_some, hhost]
    · intro _
      show (P.parseUrl req.url).map _ = (P.parseUrl out.url).map _
      rw [hu, hv, Option.map_some, Option.map_some, hpath]
    · rintro rfl
      rw [verifyContext, if_pos hc, signingContext, if_neg (hcovered.mp hc)]
      exact congrArg (fun b => some (contentDigest P b)) hbody
    · -- the signer covers no header
      intro hderived
      refine absurd ?_ hderived
      unfold coveredComponents at hc
      split_ifs at hc
      · exact List.mem_append_left ["content-digest"] hc
      · exact hc
  rw [rebuiltBase, writtenParts, if_pos hmatches, hsame]
  rfl

/-- A verifier rebuilds from a copy the base that was signed. -/
theorem rebuiltBase_copy {sk : P.PrivateKey} {out : OutRequest} {params : SigningParams}
    {headers : SignedHeaders} (hsign : signRequest P sk out params = some headers) {req : Incoming}
    (hcopy : CopyOf P out headers req) {lines : List String}
    (hlines : componentLines P (signingContext P out) (coveredComponents out) = some lines) :
    rebuiltBase P (toVerify req) (writtenParts P sk out params lines) =
      some (signatureBase lines (sigParamsText (coveredComponents out) params)) := by
  refine rebuiltBase_writtenParts hsign _ hcopy.method hcopy.url hcopy.body ?_ hlines
  intro hbody
  exact congrArg (·.getD "") (hcopy.contentDigest hbody)

/-- A copy of a request that `signRequest` signed is signed, whenever its headers can be read. -/
theorem signedBy_of_copy (hP : P.Lawful) (hI : P.Ideal) {sk : P.PrivateKey} {out : OutRequest}
    {params : SigningParams} {headers : SignedHeaders}
    (hsign : signRequest P sk out params = some headers) {req : Incoming}
    (hcopy : CopyOf P out headers req) {parts : SignatureParts}
    (hread : readSignature headers.signatureInput headers.signature = some parts) :
    SignedBy P sk req parts ∧ parts.components = coveredComponents out ∧
      parts.params = sigParamsText (coveredComponents out) params := by
  obtain ⟨lines, hlines, hread'⟩ := readSignature_signRequest hI hsign
  rw [hread] at hread'
  split_ifs at hread'
  obtain rfl := Option.some.inj hread'
  exact ⟨⟨⟨headers.signatureInput, headers.signature,
    signatureHeaders_of_read hcopy.signatureInput hcopy.signature hread, hread⟩, _,
    rebuiltBase_copy hsign hcopy hlines, hP.fromBase64_encode _⟩, rfl, rfl⟩

end Gatekeeper.Agent
