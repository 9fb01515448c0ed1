import Gatekeeper.Lib.Parsed
import Gatekeeper.Agent.Discovery

/-!
# A published card

`publish-status-list.mjs` signs the agent's card under a did:web key id and publishes the DID
document that lists the key. Both are written as JSON and read back by the peer, which verifies
the signature with what it is served.
-/

namespace Gatekeeper.Agent

open Ecma Encoding Interaction
open Js (Error bind_eq_ok)
open Text (isLineEnd)

variable {P : CardPlatform}

/-! ## The payload of a card that was written and read back -/

theorem withoutSignatures_object (ms : List (Str × Value)) :
    withoutSignatures (.object ms) =
      .object (ms.filter fun m => decide (m.1 ≠ ofString "signatures")) := rfl

theorem cardPayload_parsed {ms : List (Str × Value)} (h : (Value.object ms).Distinct) :
    cardPayload (Value.object ms).parsed = cardPayload (.object ms) := by
  obtain ⟨ns, hns, hsorted⟩ :=
    sorted_filter_parsed h fun k => decide (k ≠ ofString "signatures")
  rw [hns, cardPayload, cardPayload, withoutSignatures_object, withoutSignatures_object,
    canonicalize_eq, canonicalize_eq, hsorted, ← nulled_sorted, write_nulled]

/-- Setting the signatures of a card leaves its payload. -/
theorem cardPayload_setMember (ms : List (Str × Value)) (x : Value) :
    cardPayload (.object (setMember ms (ofString "signatures") x)) = cardPayload (.object ms) := by
  rw [cardPayload, cardPayload, withoutSignatures_object, withoutSignatures_object,
    filter_setMember]

/-! ## The DID document -/

/-- `exportX` is the `x` of `publicKey.export(..)`. -/
def jwkFromPublicKey (exportX : P.Key → Str) (publicKey : P.Key) : Value :=
  .object [(ofString "kty", .string (ofString "OKP")),
    (ofString "crv", .string (ofString "Ed25519")),
    (ofString "alg", .string (ofString "EdDSA")), (ofString "use", .string (ofString "sig")),
    (ofString "x", .string (exportX publicKey))]

def verificationMethod (exportX : P.Key → Str) (did vmId : String) (publicKey : P.Key) : Value :=
  .object [(ofString "id", .string (ofString vmId)),
    (ofString "type", .string (ofString "JsonWebKey2020")),
    (ofString "controller", .string (ofString did)),
    (ofString "publicKeyJwk", jwkFromPublicKey exportX publicKey)]

/-- The document of a DID, with one method. -/
def didDocument (exportX : P.Key → Str) (did vmId : String) (publicKey : P.Key)
    (services : List Value) : Value :=
  .object [(ofString "@context", .array [.string (ofString "https://www.w3.org/ns/did/v1"),
      .string (ofString "https://w3id.org/security/suites/jws-2020/v1")]),
    (ofString "id", .string (ofString did)),
    (ofString "verificationMethod", .array [verificationMethod exportX did vmId publicKey]),
    (ofString "authentication", .array [.string (ofString vmId)]),
    (ofString "assertionMethod", .array [.string (ofString vmId)]),
    (ofString "service", .array services)]

def buildDidDocument (newUrl : String → Except Error HttpsUrl) (exportX : P.Key → Str)
    (origin : String) (publicKey : P.Key) (keyFragment : String) (services : List Value) :
    Except Error Value := do
  let did ← didWebFromOrigin newUrl origin
  return didDocument exportX did (did ++ "#" ++ keyFragment) publicKey services

/-- The key is imported again from what is exported of it. -/
structure CardPlatform.Exports (P : CardPlatform) (exportX : P.Key → Str) (key : P.Key) : Prop where
  importKey_export : P.importKey (.string (exportX key)) = .ok key
  export_ne_nil : exportX key ≠ []

variable {exportX : P.Key → Str}

theorem publicKeyFromJwk_parsed {key : P.Key} (hP : P.Exports exportX key) :
    publicKeyFromJwk P (jwkFromPublicKey exportX key).parsed = .ok key := by
  have hkeys : (jwkFromPublicKey exportX key).NodupKeys :=
    nodup_ofString (l := ["kty", "crv", "alg", "use", "x"]) (by decide)
  have hkty : (jwkFromPublicKey exportX key).parsed.get? "kty" =
      some (.string (ofString "OKP")) := by
    refine get?_parsed_of_string hkeys ?_
    rw [jwkFromPublicKey, Value.get?, List.lookup_cons_self]
  have hcrv : (jwkFromPublicKey exportX key).parsed.get? "crv" =
      some (.string (ofString "Ed25519")) := by
    refine get?_parsed_of_string hkeys ?_
    simp (disch := decide) [jwkFromPublicKey, Value.get?, List.lookup_cons, ofString_beq]
  have hx : (jwkFromPublicKey exportX key).parsed.get? "x" = some (.string (exportX key)) := by
    refine get?_parsed_of_string hkeys ?_
    simp (disch := decide) [jwkFromPublicKey, Value.get?, List.lookup_cons, ofString_beq]
  have htruthy : truthy (some (.string (exportX key))) = true :=
    decide_eq_true hP.export_ne_nil
  rw [publicKeyFromJwk, hkty, hcrv, hx]
  simp only [isText_iff.mpr rfl, htruthy, Bool.and_self, if_true, Option.getD_some]
  exact hP.importKey_export

theorem methodsOf_eq {doc : Value} {ms : List Value}
    (h : doc.get? "verificationMethod" = some (.array ms)) : methodsOf doc = .ok ms := by
  cases doc with
  | object _ => rw [methodsOf, h]; intro h; cases h
  | _ => cases h

/-- The first method of a document is found under its own id. -/
theorem findMethod_head {kid : Str} {m : Value} (ms : List Value)
    (h : m.get? "id" = some (.string kid)) : findMethod kid (m :: ms) = .ok (some m) := by
  have hnamed : Named kid m = true := by
    rw [Named, h, isStr, beq_self_eq_true, Bool.true_or]
  cases m with
  | object _ => rw [findMethod, if_pos hnamed]; intro h; cases h
  | _ => cases h

theorem get?_verificationMethod (exportX : P.Key → Str) (did vmId : String) (publicKey : P.Key) :
    (verificationMethod exportX did vmId publicKey).parsed.get? "id" =
        some (.string (ofString vmId)) ∧
      (verificationMethod exportX did vmId publicKey).parsed.get? "publicKeyJwk" =
        some (jwkFromPublicKey exportX publicKey).parsed := by
  have hkeys : (verificationMethod exportX did vmId publicKey).NodupKeys :=
    nodup_ofString (l := ["id", "type", "controller", "publicKeyJwk"]) (by decide)
  constructor
  · refine get?_parsed_of_string hkeys ?_
    rw [verificationMethod, Value.get?, List.lookup_cons_self]
  · refine get?_parsed_of_some hkeys ?_
    simp (disch := decide) [verificationMethod, Value.get?, List.lookup_cons, ofString_beq]

/-- The document that is read back has the key under the id of its method. -/
theorem jwkIn_didDocument (exportX : P.Key → Str) (did vmId : String) (publicKey : P.Key)
    (services : List Value) :
    jwkIn (didDocument exportX did vmId publicKey services).parsed (ofString vmId) =
      .ok (jwkFromPublicKey exportX publicKey).parsed := by
  have hkeys : (didDocument exportX did vmId publicKey services).NodupKeys :=
    nodup_ofString (l := ["@context", "id", "verificationMethod", "authentication",
      "assertionMethod", "service"]) (by decide)
  have hmethods : (didDocument exportX did vmId publicKey services).parsed.get?
      "verificationMethod" =
        some (.array [(verificationMethod exportX did vmId publicKey).parsed]) := by
    refine get?_parsed_of_some (x := .array [verificationMethod exportX did vmId publicKey])
      hkeys ?_
    simp (disch := decide) [didDocument, Value.get?, List.lookup_cons, ofString_beq]
  obtain ⟨hid, hjwk⟩ := get?_verificationMethod exportX did vmId publicKey
  rw [jwkIn, methodsOf_eq hmethods]
  show (findMethod (ofString vmId) [_] >>= _) = _
  rw [findMethod_head [] hid]
  show Except.ok (((verificationMethod exportX did vmId publicKey).parsed.get?
    "publicKeyJwk").getD .null) = _
  rw [hjwk, Option.getD_some]

/-! ## The card that is read back -/

theorem signatureEntry_parsed (sk : P.PrivateKey) (kid : Str) (card : Value) :
    (signatureEntry P sk kid card).parsed = signatureEntry P sk kid card := by
  have hindex : indexOf? (ofString "protected") = none ∧
      indexOf? (ofString "signature") = none := by
    decide +kernel
  have hkeys : (["protected", "signature"].map ofString).Nodup := nodup_ofString (by decide)
  have hentry : (signatureEntry P sk kid card).parsed = .object (listed
      [(ofString "protected", .string (ofString (protectedText kid))),
        (ofString "signature", .string (ofString (base64UrlEncode (P.sign sk
          (signingInput (ofString (protectedText kid)) (cardPayload card))))))]) :=
    assembled_object hkeys
  rw [hentry, signatureEntry, listed]
  simp [hindex.1, hindex.2]

/-- A signed card that is read back carries the one signature, over the payload of the card. -/
theorem signaturesOf_parsed {ms : List (Str × Value)} (h : (ms.map Prod.fst).Nodup)
    (sk : P.PrivateKey) (kid : Str) :
    signaturesOf (signCard P sk kid (.object ms)).parsed =
      [signatureEntry P sk kid (.object ms)] := by
  have hkeys : (signCard P sk kid (.object ms)).NodupKeys := nodup_setMember h _ _
  have hset : (signCard P sk kid (.object ms)).get? "signatures" =
      some (.array [signatureEntry P sk kid (.object ms)]) := lookup_setMember ms _ _
  have hget := get?_parsed_of_some hkeys hset
  rw [parsed_array, List.map_singleton, signatureEntry_parsed] at hget
  rw [signaturesOf, hget]

theorem distinct_signatureEntry (sk : P.PrivateKey) (kid : Str) (card : Value) :
    (signatureEntry P sk kid card).Distinct :=
  ⟨nodup_ofString (l := ["protected", "signature"]) (by decide), trivial, trivial, trivial⟩

theorem cardPayload_signCard {ms : List (Str × Value)} (h : (Value.object ms).Distinct)
    (sk : P.PrivateKey) (kid : Str) :
    cardPayload (signCard P sk kid (.object ms)).parsed = cardPayload (.object ms) := by
  rw [signCard, cardPayload_parsed, cardPayload_setMember]
  exact distinct_setMember h _ ⟨distinct_signatureEntry sk kid _, trivial⟩

/-! ## The key id -/

/-- A unit of a text that is no half of a character is one of its characters. -/
theorem mem_of_mem_ofString {s : String} {v : UInt16} (hv : (isHigh v || isLow v) = false)
    (h : v ∈ ofString s) : unitChar v ∈ s.toList := by
  obtain ⟨c, hc, hmem⟩ := List.mem_flatMap.mp h
  rcases unitsOf_cases c with ⟨w, hw, -, hchar⟩ | ⟨hi, lo, hw, hpair, -⟩
  · rw [hw, List.mem_singleton] at hmem
    rw [hmem, hchar]
    exact hc
  · rw [Bool.and_eq_true] at hpair
    rw [Bool.or_eq_false_iff] at hv
    rw [hw, List.mem_cons, List.mem_singleton] at hmem
    rcases hmem with rfl | rfl
    · rw [hv.1] at hpair
      cases hpair.1
    · rw [hv.2] at hpair
      cases hpair.2

/-- No part of the URL begins a fragment. -/
structure Unfragmented (u : HttpsUrl) : Prop where
  hostname : '#' ∉ u.hostname
  pathname : '#' ∉ u.pathname

/-- The name of a URL. -/
def didOfUrl (u : HttpsUrl) : String :=
  String.ofList ("did:web:".toList ++ (hostPart u ++ pathPart u))

theorem didOfUrl_eq (u : HttpsUrl) :
    didOfUrl u = String.ofList ("did:web:".toList ++ (hostPart u ++ pathPart u)) := rfl

theorem hash_notMem_did {u : HttpsUrl} (h : Unfragmented u) : '#' ∉ (didOfUrl u).toList := by
  have hmark : '#' ∉ "did:web:".toList := by decide
  have hescape : '#' ∉ "%3A".toList := by decide
  intro hc
  rw [didOfUrl_eq, String.toList_ofList, List.mem_append, List.mem_append] at hc
  rcases hc with hc | hc | hc
  · exact hmark hc
  · rw [hostPart, List.mem_append] at hc
    rcases hc with hc | hc
    · exact h.hostname hc
    · split_ifs at hc
      · rcases List.mem_append.mp hc with hc | hc
        · exact hescape hc
        · exact port_ne (by decide) hc
      · cases hc
  · rw [pathPart] at hc
    split_ifs at hc
    · rcases List.mem_cons.mp hc with hc | hc
      · exact absurd hc (by decide)
      · rcases of_mem_colonised hc with hc | hc
        · exact absurd hc (by decide)
        · exact h.pathname ((mem_stripSlashes _ (by decide)).mp hc)
    · cases hc

/-- The DID of a key id is what stands before the fragment. -/
theorem didOf_kid {u : HttpsUrl} (h : Unfragmented u) (keyFragment : String) :
    didOf (ofString (didOfUrl u ++ "#" ++ keyFragment)) = ofString (didOfUrl u) := by
  have hmem : (35 : UInt16) ∉ ofString (didOfUrl u) := fun hmem =>
    hash_notMem_did h (mem_of_mem_ofString (by decide) hmem)
  have hhash : ofString "#" = [35] := by decide
  rw [didOf, ofString_append, ofString_append, hhash, List.append_assoc, List.singleton_append,
    List.splitOn_append_cons_self_of_not_mem hmem]
  rfl

theorem isDidWeb_didOfUrl (u : HttpsUrl) : isDidWeb (ofString (didOfUrl u)) = true := by
  have hdid : didOfUrl u = "did:web:" ++ String.ofList (hostPart u ++ pathPart u) := by
    rw [didOfUrl_eq, String.ofList_append, String.ofList_toList]
  rw [isDidWeb, hdid, ofString_append, List.isPrefixOf_iff_prefix]
  exact List.prefix_append _ _

/-! ## What is valid of a card stays so when it is signed -/

/-- The validation reads no signatures. -/
theorem validateAgentCard_congr {ms ns : List (Str × Value)}
    (h : ∀ name, name ≠ "signatures" → (Value.object ms).get? name = (Value.object ns).get? name) :
    validateAgentCard (.object ms) = validateAgentCard (.object ns) := by
  have hmissing : missingFields (.object ms) = missingFields (.object ns) := by
    rw [missingFields, missingFields]
    refine congrArg _ (List.filter_congr fun field hfield => ?_)
    have hne : field ≠ "signatures" := by
      rintro rfl
      exact absurd hfield (by decide)
    rw [h field hne]
  have hversion : ∀ interfaces,
      protocolVersion (.object ms) interfaces = protocolVersion (.object ns) interfaces := by
    intro interfaces
    rw [protocolVersion, protocolVersion, h _ (by decide)]
  have hlacks : lacks (.object ms) "capabilities" = lacks (.object ns) "capabilities" := by
    rw [lacks, lacks, h _ (by decide)]
  have hproblems : cardProblems (.object ms) = cardProblems (.object ns) := by
    rw [cardProblems, cardProblems, hmissing, h "skills" (by decide),
      h "supportedInterfaces" (by decide), h "url" (by decide), h "did" (by decide)]
  have hwarnings : cardWarnings (.object ms) = cardWarnings (.object ns) := by
    rw [cardWarnings, cardWarnings, hlacks, h "skills" (by decide),
      h "supportedInterfaces" (by decide), hversion]
  rw [validateAgentCard, validateAgentCard, hproblems, hwarnings]

theorem validity_signCard {ms : List (Str × Value)} (h : (ms.map Prod.fst).Nodup)
    (sk : P.PrivateKey) (kid : Str) :
    validateAgentCard (signCard P sk kid (.object ms)).parsed =
      validateAgentCard (Value.object ms).parsed := by
  refine validateAgentCard_congr fun name hname => ?_
  have hset : (signCard P sk kid (.object ms)).get? name = (Value.object ms).get? name :=
    lookup_setMember_of_ne (ofString_ne hname) _
  have hsigned : (signCard P sk kid (.object ms)).parsed.get? name =
      ((signCard P sk kid (.object ms)).get? name).map Value.parsed :=
    get?_parsed (nodup_setMember h _ _) name
  have hplain : (Value.object ms).parsed.get? name =
      ((Value.object ms).get? name).map Value.parsed := get?_parsed h name
  rw [hset, ← hplain] at hsigned
  exact hsigned

/-! ## The run of a peer -/

/-- A document as it is served: as JSON. -/
def published (v : Value) : FetchedCard := ⟨true, 200, jsonParse (String.ofList v.write)⟩

theorem published_eq (v : Value) : published v = ⟨true, 200, some v.parsed⟩ := by
  rw [published, jsonParse_write]
  rfl

section Run

variable {engineText : Error → Str} {newUrl : String → Except Error HttpsUrl} {origin : String}
  {u : HttpsUrl} {keyFragment : String} {publicKey : P.Key} {services : List Value} {doc : Value}

/-- The id that the key is published under. -/
def keyIdOf (u : HttpsUrl) (keyFragment : String) : Str :=
  ofString (didOfUrl u ++ "#" ++ keyFragment)

theorem buildDidDocument_eq (hu : newUrl origin = .ok u) :
    buildDidDocument newUrl exportX origin publicKey keyFragment services =
      .ok (didDocument exportX (didOfUrl u) (didOfUrl u ++ "#" ++ keyFragment) publicKey
        services) := by
  rw [buildDidDocument, didWebFromOrigin_eq hu]
  rfl

/-- The request that the resolver makes for the published document. -/
def documentRequest (u : HttpsUrl) (doc : Value) : WebEvent :=
  ⟨.fetch (documentLocation u) didAccept, .ok (published doc)⟩

theorem emits_fetch_published (hplain : Plain u) (doc : Value) :
    Emits (fetchDocument (ofString (didOfUrl u))) [documentRequest u doc] (.ok doc.parsed) := by
  have hurl : didWebDocumentUrl (plain (ofString (didOfUrl u))) = .ok (documentLocation u) := by
    rw [plain_ofString, didOfUrl_eq]
    exact (didWebDocumentUrl_iff u).mpr hplain
  refine emits_fetchDocument.mpr (.inr ⟨documentLocation u, _, hurl, rfl, ?_⟩)
  rw [published_eq]
  exact (documentIn_eq_ok.mpr ⟨200, rfl⟩).symm

/-- The resolver answers with the key that was published. -/
theorem emits_resolve_published (hplain : Plain u) (hfrag : Unfragmented u)
    (hdoc : buildDidDocument newUrl exportX origin publicKey keyFragment services = .ok doc)
    (hu : newUrl origin = .ok u) :
    ∃ docs, Emits (resolveJwk Cache.empty (.string (keyIdOf u keyFragment)))
      [documentRequest u doc] (.ok (.ok (jwkFromPublicKey exportX publicKey).parsed, docs)) := by
  rw [buildDidDocument_eq hu, Except.ok.injEq] at hdoc
  have hask : Emits (ask fetchDocument Cache.empty (ofString (didOfUrl u))) [documentRequest u doc]
      (.ok (.ok doc.parsed, Cache.empty.keep (ofString (didOfUrl u))
        (.ok doc.parsed : Except Error Value)) : Except Error _) :=
    emits_ask.mpr (.inr ⟨rfl, _, emits_fetch_published hplain doc, rfl⟩)
  have hdid : didOf (keyIdOf u keyFragment) = ofString (didOfUrl u) := didOf_kid hfrag keyFragment
  refine ⟨Cache.empty.keep (ofString (didOfUrl u)) (.ok doc.parsed : Except Error Value), ?_⟩
  rw [resolveJwk, hdid, if_pos (isDidWeb_didOfUrl u)]
  refine emits_bind_pure.mpr ⟨_, hask, ?_⟩
  show _ = Except.ok (jwkIn _ _, _)
  rw [← hdoc, keyIdOf, jwkIn_didDocument]

/-- The card that is published. -/
def signedCard (P : CardPlatform) (sk : P.PrivateKey) (u : HttpsUrl) (keyFragment : String)
    (ms : List (Str × Value)) : Value :=
  signCard P sk (keyIdOf u keyFragment) (.object ms)

theorem keyIdOf_ne_nil (u : HttpsUrl) (keyFragment : String) : keyIdOf u keyFragment ≠ [] := by
  have hhash : ofString "#" = [35] := by decide
  rw [keyIdOf, ofString_append, ofString_append, hhash]
  simp

/-- The signature is counted, with one request for the document of its DID. -/
theorem emits_verify_published (hP : P.Lawful) (hideal : P.Ideal) {sk : P.PrivateKey}
    (hexports : P.Exports exportX (P.publicKey sk)) (hplain : Plain u) (hfrag : Unfragmented u)
    (hu : newUrl origin = .ok u)
    (hdoc : buildDidDocument newUrl exportX origin (P.publicKey sk) keyFragment services = .ok doc)
    {ms : List (Str × Value)} (hms : (Value.object ms).Distinct) :
    Emits (verifyCardOnWeb P engineText (signedCard P sk u keyFragment ms).parsed)
      [documentRequest u doc] (.ok ⟨1, []⟩) := by
  obtain ⟨docs, hresolve⟩ := emits_resolve_published hplain hfrag hdoc hu
  exact emits_verify_signed hP hideal (keyIdOf_ne_nil u keyFragment)
    (signaturesOf_parsed hms.1 sk _) (cardPayload_signCard hms sk _)
    (publicKeyFromJwk_parsed hexports) hresolve

/-- A card that is signed under the did:web key id of its publisher and served as JSON, with the
DID document served where the name says, is discovered with its signature verified, and is as
valid as it was before it was signed. The peer asks for the card and for the one document. -/
theorem published_card_discovered (hP : P.Lawful) (hideal : P.Ideal) {sk : P.PrivateKey}
    (hexports : P.Exports exportX (P.publicKey sk)) (hplain : Plain u) (hfrag : Unfragmented u)
    (hu : newUrl origin = .ok u)
    (hdoc : buildDidDocument newUrl exportX origin (P.publicKey sk) keyFragment services = .ok doc)
    {ms : List (Str × Value)} (hms : (Value.object ms).Distinct)
    {resolveUrl : String → String → Except Error String} {originOrUrl url : String}
    (hurl : cardUrl resolveUrl originOrUrl = .ok url) {web : (op : WebOp) → op.Res}
    (hcard : web (.fetch url cardAccept) = .ok (published (signedCard P sk u keyFragment ms)))
    (hserved : web (.fetch (documentLocation u) didAccept) = .ok (published doc)) :
    run web (discoverPeerOnWeb P engineText resolveUrl originOrUrl) =
      ([⟨.fetch url cardAccept, .ok (published (signedCard P sk u keyFragment ms))⟩,
        ⟨.fetch (documentLocation u) didAccept, .ok (published doc)⟩],
        .ok ⟨url, (signedCard P sk u keyFragment ms).parsed,
          validateAgentCard (Value.object ms).parsed, ⟨1, []⟩⟩) := by
  refine run_eq_of_emits ?_ ?_
  · have hvalidity := validity_signCard hms.1 sk (keyIdOf u keyFragment)
    rw [← hvalidity, published_eq]
    exact emits_discoverPeer hurl
      (emits_verify_published hP hideal hexports hplain hfrag hu hdoc hms)
  · intro e he
    rcases List.mem_cons.mp he with rfl | he
    · exact hcard.symm
    · obtain rfl := List.mem_singleton.mp he
      exact hserved.symm

end Run

/-! ### The card of `agent.example` -/

theorem defaultPort : ∀ c ∈ ([] : List Char), c.isDigit = true := List.forall_mem_nil _

theorem rootPath : ∀ c ∈ ['/'], isLineEnd c = false := line_of_all (by decide)

def exampleOrigin : HttpsUrl := exampleUrl [] ['/'] defaultPort rootPath

def exampleOrigins (_ : String) : Except Error HttpsUrl := .ok exampleOrigin

def sampleExport (_ : sampleCardPlatform.Key) : Str := ofString sampleKeyText

theorem sample_exports : sampleCardPlatform.Exports sampleExport (sampleCardPlatform.publicKey ())
    where
  importKey_export := by
    show (if isText (some (.string (ofString sampleKeyText))) sampleKeyText then
      Except.ok samplePublicKey else .error .typeError) = .ok samplePublicKey
    rw [if_pos (isText_iff.mpr rfl)]
  export_ne_nil := ofString_ne (t := "") (by decide)

def exampleCard : List (Str × Value) := [(ofString "name", .string (ofString "Test"))]

theorem distinct_exampleCard : (Value.object exampleCard).Distinct :=
  ⟨nodup_ofString (l := ["name"]) (by decide), trivial, trivial⟩

def exampleDocument : Value :=
  didDocument sampleExport (didOfUrl exampleOrigin) (didOfUrl exampleOrigin ++ "#" ++ "wba")
    samplePublicKey []

/-- The card and the document, for whoever accepts them. -/
def exampleSite : (op : WebOp) → op.Res
  | .fetch _ accept =>
    if accept = cardAccept then
      .ok (published (signedCard sampleCardPlatform () exampleOrigin "wba" exampleCard))
    else .ok (published exampleDocument)

theorem published_card_discovered_sample :
    ∃ url, (run exampleSite (discoverPeerOnWeb sampleCardPlatform (fun _ => [])
      (fun path base => .ok (base ++ path)) "https://agent.example")).2 =
        .ok ⟨url, (signedCard sampleCardPlatform () exampleOrigin "wba" exampleCard).parsed,
          validateAgentCard (Value.object exampleCard).parsed, ⟨1, []⟩⟩ := by
  obtain ⟨url, hurl⟩ : ∃ url, cardUrl (fun path base => .ok (base ++ path))
      "https://agent.example" = .ok url := by
    rw [cardUrl]
    split_ifs
    · exact ⟨_, rfl⟩
    · exact ⟨_, rfl⟩
  have hu : exampleOrigins "https://agent.example" = .ok exampleOrigin := rfl
  have hdoc : buildDidDocument exampleOrigins sampleExport "https://agent.example"
      samplePublicKey "wba" [] = .ok exampleDocument :=
    buildDidDocument_eq (P := sampleCardPlatform) hu
  refine ⟨url, congrArg Prod.snd (published_card_discovered sampleCard_lawful sampleCard_ideal
    sample_exports ⟨by decide, by decide, by decide⟩ ⟨by decide, by decide⟩ hu hdoc
    distinct_exampleCard hurl ?_ ?_)⟩
  · rw [exampleSite, if_pos rfl]
  · have haccept : didAccept ≠ cardAccept := by decide
    rw [exampleSite, if_neg haccept]

end Gatekeeper.Agent
