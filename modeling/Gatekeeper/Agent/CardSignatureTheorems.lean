import Gatekeeper.Agent.CardSignature

/-!
# What a payload says about a card, and when the loop throws

Canonical JSON is the text of the value with its keys sorted, so it tells cards apart up to the
order of their keys, and up to numbers that JSON has no text for. The loop over the signatures
throws for the entries that are malformed in one of a few ways.
-/

namespace Gatekeeper.Agent

open Ecma Encoding
open Js (Error)

/-! ## Canonical JSON -/

mutual

theorem canonicalize_eq : ∀ v : Value, canonicalize v = v.sorted.write
  | .array xs => by
    rw [canonicalize, Value.sorted, Value.write, canonicalElements_eq]
  | .object ms => by
    rw [canonicalize, Value.sorted, Value.write, canonicalMembers_eq,
      ← map_sortMembers Value.write, writeMembers_eq, List.map_map]
    rfl
  | .null | .bool _ | .number _ | .string _ => rfl

theorem canonicalElements_eq : ∀ xs : List Value,
    canonicalElements xs = writeElements (sortedElements xs)
  | [] => rfl
  | x :: xs => by
    rw [canonicalElements, sortedElements, writeElements, canonicalize_eq x,
      canonicalElements_eq xs]

theorem canonicalMembers_eq : ∀ ms : List (Str × Value),
    canonicalMembers ms = (sortedMembers ms).map fun m => (m.1, m.2.write)
  | [] => rfl
  | (k, x) :: ms => by
    rw [canonicalMembers, sortedMembers, List.map_cons, canonicalize_eq x, canonicalMembers_eq ms]

end

theorem canonicalize_inj {v w : Value} (hv : v.Distinct) (hw : w.Distinct) :
    canonicalize v = canonicalize w ↔ v.nulled.Same w.nulled := by
  rw [canonicalize_eq, canonicalize_eq, write_sorted_eq_iff hv hw]

theorem distinct_withoutSignatures {card : Value} (h : card.Distinct) :
    (withoutSignatures card).Distinct := by
  cases card with
  | object ms =>
    refine ⟨h.1.sublist (List.filter_sublist.map Prod.fst), ?_⟩
    refine allDistinctMembers_iff.mpr fun m hm => ?_
    exact allDistinctMembers_iff.mp h.2 m (List.mem_of_mem_filter hm)
  | _ => exact h

theorem cardPayload_inj {c c' : Value} (hc : c.Distinct) (hc' : c'.Distinct) :
    cardPayload c = cardPayload c' ↔
      (withoutSignatures c).nulled.Same (withoutSignatures c').nulled := by
  rw [← canonicalize_inj (distinct_withoutSignatures hc) (distinct_withoutSignatures hc'),
    cardPayload, cardPayload, b64u, b64u, base64UrlEncode_injective.eq_iff, utf8_inj,
    String.ofList_inj]

/-! ## What is signed -/

theorem signingInput_inj {p x y : String} :
    signingInput (ofString p) x = signingInput (ofString p) y ↔ x = y := by
  have hinput : ∀ x, signingInput (ofString p) x = utf8 (p ++ "." ++ x) := by
    intro x
    rw [signingInput, ← ofString_append, bytesOf_ofString, String.append_assoc]
    rfl
  rw [hinput, hinput, utf8_inj]
  refine ⟨fun h => ?_, congrArg _⟩
  have hlist := congrArg String.toList h
  simp only [String.toList_append] at hlist
  exact String.toList_injective (List.append_cancel_left hlist)

/-! ## What is signed is read back -/

variable {P : CardPlatform}

structure CardPlatform.Lawful (P : CardPlatform) : Prop where
  fromBase64Url_encode : ∀ b,
    P.fromBase64Url (some (.string (ofString (base64UrlEncode b)))) = .ok b

/-- A signature verifies under the signer's key for what was signed, and under nothing else. -/
structure CardPlatform.Ideal (P : CardPlatform) : Prop where
  verify_sign : ∀ key m sk m',
    P.verify key m (P.sign sk m') = true ↔ key = P.publicKey sk ∧ m = m'

theorem assembled_protectedHeader (kid : Str) :
    (protectedHeader kid).assembled = protectedHeader kid := by
  have hset : assembledMembers [] [(ofString "alg", .string (ofString "EdDSA")),
      (ofString "kid", .string kid), (ofString "typ", .string (ofString "a2a-agent-card+jws"))] =
      [(ofString "alg", .string (ofString "EdDSA")), (ofString "kid", .string kid),
        (ofString "typ", .string (ofString "a2a-agent-card+jws"))] := by
    have hkid : ofString "kid" ∉ [ofString "alg"] := by decide +kernel
    have htyp : ofString "typ" ∉ [ofString "alg", ofString "kid"] := by decide +kernel
    simp only [assembledMembers, Value.assembled, setMember, List.map_nil, List.not_mem_nil,
      if_false, List.nil_append, List.map_cons, hkid, List.cons_append, htyp]
  have hindex : ∀ k ∈ [ofString "alg", ofString "kid", ofString "typ"], indexOf? k = none := by
    decide +kernel
  simp only [List.forall_mem_cons, List.not_mem_nil, false_imp_iff, implies_true,
    and_true] at hindex
  obtain ⟨halg, hkid, htyp⟩ := hindex
  rw [protectedHeader, Value.assembled, hset, listed]
  simp [halg, hkid, htyp]

theorem jsonParse_protectedHeader (kid : Str) :
    jsonParse (String.ofList (protectedHeader kid).write) = some (protectedHeader kid) := by
  have hfinite : (protectedHeader kid).Finite := ⟨trivial, trivial, trivial, trivial⟩
  rw [jsonParse, String.toList_ofList, readText_write hfinite, Option.map_some,
    assembled_protectedHeader]

theorem get?_protectedHeader (kid : Str) :
    (protectedHeader kid).get? "alg" = some (.string (ofString "EdDSA")) ∧
      (protectedHeader kid).get? "kid" = some (.string kid) := by
  have hkid : (ofString "kid" == ofString "alg") = false := ofString_beq (by decide)
  rw [protectedHeader, Value.get?, Value.get?, List.lookup_cons_self, List.lookup_cons, hkid]
  exact ⟨rfl, List.lookup_cons_self⟩

theorem get?_signatureEntry (sk : P.PrivateKey) (kid : Str) (card : Value) :
    (signatureEntry P sk kid card).get? "protected" =
        some (.string (ofString (protectedText kid))) ∧
      (signatureEntry P sk kid card).get? "signature" =
        some (.string (ofString (base64UrlEncode
          (P.sign sk (signingInput (ofString (protectedText kid)) (cardPayload card)))))) := by
  have hkey : (ofString "signature" == ofString "protected") = false := ofString_beq (by decide)
  rw [signatureEntry, Value.get?, Value.get?, List.lookup_cons_self, List.lookup_cons, hkey]
  exact ⟨rfl, List.lookup_cons_self⟩

theorem headerOf_signatureEntry (hP : P.Lawful) (sk : P.PrivateKey) (kid : Str)
    (card : Value) : headerOf P (signatureEntry P sk kid card) =
      some (protectedHeader kid) := by
  have hdecode : P.fromBase64Url ((signatureEntry P sk kid card).get? "protected") =
      .ok (utf8 (String.ofList (protectedHeader kid).write)) := by
    rw [(get?_signatureEntry sk kid card).1, protectedText, b64u, hP.fromBase64Url_encode]
  rw [headerOf, hdecode]
  · show jsonParse (Text.fromUtf8Lossy _) = _
    rw [Text.fromUtf8Lossy_utf8, jsonParse_protectedHeader]
  · intro h
    cases h

/-! ## The body of the loop, for an entry that `signCard` made -/

/-- The resolver knows the signer's key under this id. -/
def Resolves (resolve : KeyResolver) (kid : Str) (key : P.Key) : Prop :=
  ∃ jwk, resolve (.string kid) = .ok (some jwk) ∧ publicKeyFromJwk P jwk = .ok key

theorem truthy_of_publicKey {jwk : Value} {key : P.Key} (h : publicKeyFromJwk P jwk = .ok key) :
    truthy (some jwk) = true := by
  cases jwk with
  | object ms => rfl
  | _ => cases h

theorem verifies_signatureEntry (hP : P.Lawful) {jwk : Value} {key : P.Key}
    (hkey : publicKeyFromJwk P jwk = .ok key) (sk : P.PrivateKey) (kid : Str) (card : Value)
    (payload : String) :
    verifies P payload (signatureEntry P sk kid card) jwk =
      .ok (P.verify key (signingInput (ofString (protectedText kid)) payload)
        (P.sign sk (signingInput (ofString (protectedText kid)) (cardPayload card)))) := by
  obtain ⟨hprotected, hsignature⟩ := get?_signatureEntry sk kid card
  rw [verifies, hprotected, hsignature, hkey, hP.fromBase64Url_encode]
  rfl

/-- An entry of `signCard` is verified for the payload that was signed. -/
theorem checkEntry_signatureEntry (hP : P.Lawful) (hideal : P.Ideal) {resolve : KeyResolver}
    {sk : P.PrivateKey} {kid : Str} (hresolve : Resolves resolve kid (P.publicKey sk))
    (payload : String) (i : ℕ) (card : Value) :
    checkEntry P resolve payload i (signatureEntry P sk kid card) = .ok .verified ↔
      kid ≠ [] ∧ payload = cardPayload card := by
  obtain ⟨jwk, hjwk, hkey⟩ := hresolve
  obtain ⟨halg, hkid⟩ := get?_protectedHeader kid
  have hverify := hideal.verify_sign (P.publicKey sk)
    (signingInput (ofString (protectedText kid)) payload) sk
    (signingInput (ofString (protectedText kid)) (cardPayload card))
  rw [signingInput_inj, eq_self_iff_true, true_and] at hverify
  have heddsa : isText (some (.string (ofString "EdDSA"))) "EdDSA" = true := by decide +kernel
  have htruthy : truthy (some (.string kid)) = decide (kid ≠ []) := rfl
  rw [checkEntry, headerOf_signatureEntry hP]
  show checkHeader P resolve payload i (signatureEntry P sk kid card) (protectedHeader kid) = _ ↔ _
  rw [checkHeader, halg, hkid]
  simp only [heddsa, Bool.not_true, Bool.false_eq_true, if_false, htruthy, Option.getD_some,
    hjwk, truthy_of_publicKey hkey, verifies_signatureEntry hP hkey]
  by_cases hempty : kid = []
  · simp [hempty]
  · simp only [hempty, ne_eq, not_false_iff, decide_true, Bool.not_true, Bool.false_eq_true,
      if_false, true_and, ← hverify]
    cases P.verify (P.publicKey sk) (signingInput (ofString (protectedText kid)) payload)
      (P.sign sk (signingInput (ofString (protectedText kid)) (cardPayload card))) with
    | true => exact iff_of_true rfl rfl
    | false => exact iff_of_false (by rintro ⟨⟩) (by decide)

/-! ## Entries that make the loop throw -/

variable {resolve : KeyResolver} {payload : String} {s : Value}

/-- The entry gets as far as the resolver, with this key id. -/
def Asks (P : CardPlatform) (s kid : Value) : Prop :=
  ∃ header, headerOf P s = some header ∧ isText (header.get? "alg") "EdDSA" = true ∧
    header.get? "kid" = some kid ∧ truthy (some kid) = true

/-- What the entry has to be checked with cannot be made, so that nothing is verified. -/
inductive Unusable (P : CardPlatform) (s jwk : Value) : Prop where
  | protectedPart : shown (s.get? "protected") = none → Unusable P s jwk
  | key {e} : publicKeyFromJwk P jwk = .error e → Unusable P s jwk
  | signature {e} : P.fromBase64Url (s.get? "signature") = .error e → Unusable P s jwk

/-- The ways in which the body of the loop throws. All are outside its `try` blocks. -/
inductive Malformed (P : CardPlatform) (resolve : KeyResolver) (payload : String) (s : Value) :
    Prop where
  /-- The header is the text `null`, which has no `alg` to read. -/
  | nullHeader : headerOf P s = some .null → Malformed P resolve payload s
  | alg {header} : headerOf P s = some header → isText (header.get? "alg") "EdDSA" = false →
      shown (header.get? "alg") = none → Malformed P resolve payload s
  /-- The resolver rejects with a value that has no message, or none that has a text. -/
  | rejection {kid e} : Asks P s kid → resolve kid = .error e →
      (∀ m, messageOf e = .ok m → shown m = none) → Malformed P resolve payload s
  | unresolved {kid jwk} : Asks P s kid → resolve kid = .ok jwk → truthy jwk = false →
      kid.text = none → Malformed P resolve payload s
  | unusable {kid jwk} : Asks P s kid → resolve kid = .ok (some jwk) →
      truthy (some jwk) = true → Unusable P s jwk → Malformed P resolve payload s
  | unverified {kid jwk} : Asks P s kid → resolve kid = .ok (some jwk) →
      truthy (some jwk) = true → verifies P payload s jwk = .ok false → kid.text = none →
      Malformed P resolve payload s

/-- A report throws when a value in it has no text. -/
theorem none_of_throws {v : Option Value} {f : Str → EntryOutcome} {e : Error}
    (h : (do let t ← template v; return f t : Except Error EntryOutcome) = .error e) :
    shown v = none := by
  cases hshown : shown v with
  | none => rfl
  | some t =>
    rw [template_of_some hshown] at h
    cases h

theorem verifies_throws_iff {jwk : Value} :
    (∃ e, verifies P payload s jwk = .error e) ↔ Unusable P s jwk := by
  rw [verifies]
  constructor
  · rintro ⟨e, h⟩
    cases hprotected : shown (s.get? "protected") with
    | none => exact .protectedPart hprotected
    | some p =>
      rw [template_of_some hprotected] at h
      cases hkey : publicKeyFromJwk P jwk with
      | error e => exact .key hkey
      | ok key =>
        rw [hkey] at h
        cases hsignature : P.fromBase64Url (s.get? "signature") with
        | error e => exact .signature hsignature
        | ok signature =>
          rw [hsignature] at h
          cases h
  · intro h
    cases hprotected : shown (s.get? "protected") with
    | none => exact ⟨_, by rw [template_of_none hprotected]; rfl⟩
    | some p =>
      rw [template_of_some hprotected]
      cases hkey : publicKeyFromJwk P jwk with
      | error e => exact ⟨e, rfl⟩
      | ok key =>
        cases hsignature : P.fromBase64Url (s.get? "signature") with
        | error e => exact ⟨e, rfl⟩
        | ok signature =>
          cases h with
          | protectedPart h => rw [h] at hprotected; cases hprotected
          | key h => rw [h] at hkey; cases hkey
          | signature h => rw [h] at hsignature; cases hsignature

theorem checkHeader_of_asks {header kid : Value} (i : ℕ)
    (halg : isText (header.get? "alg") "EdDSA" = true) (hkid : header.get? "kid" = some kid)
    (htruthy : truthy (some kid) = true) :
    checkHeader P resolve payload i s header =
      match resolve kid with
      | .error e => do
        let message ← messageOf e
        let t ← template message
        return .problem (entryLabel i ++ t)
      | .ok jwk =>
        if !truthy jwk then do
          let t ← template (some kid)
          return .problem (entryLabel i ++ ofString "kid " ++ t ++ ofString " did not resolve")
        else do
          let ok ← verifies P payload s (jwk.getD .null)
          if ok then return .verified
          else
            let t ← template (some kid)
            return .problem
              (entryLabel i ++ ofString "signature does not verify for " ++ t) := by
  rw [checkHeader, halg, hkid, htruthy]
  rfl

/-- Past the resolver, what throws is the resolver's value, the key or a text. -/
theorem malformed_of_asks {header kid : Value} {i : ℕ} {e : Error} (hasks : Asks P s kid)
    (halg : isText (header.get? "alg") "EdDSA" = true) (hkid : header.get? "kid" = some kid)
    (htruthy : truthy (some kid) = true)
    (h : checkHeader P resolve payload i s header = .error e) :
    Malformed P resolve payload s := by
  rw [checkHeader_of_asks i halg hkid htruthy] at h
  cases hresolve : resolve kid with
  | error v =>
    refine .rejection hasks hresolve fun m hm => ?_
    rw [hresolve] at h
    simp only [hm] at h
    exact none_of_throws h
  | ok jwk =>
    rw [hresolve] at h
    by_cases hjwk : truthy jwk = true
    · obtain ⟨jwk, rfl⟩ := exists_of_truthy hjwk
      simp only [hjwk, Bool.not_true, Bool.false_eq_true, if_false, Option.getD_some] at h
      cases hverifies : verifies P payload s jwk with
      | error e =>
        exact .unusable hasks hresolve hjwk (verifies_throws_iff.mp ⟨e, hverifies⟩)
      | ok ok =>
        rw [hverifies] at h
        cases ok with
        | true => cases h
        | false => exact .unverified hasks hresolve hjwk hverifies (none_of_throws h)
    · rw [Bool.not_eq_true] at hjwk
      simp only [hjwk, Bool.not_false, if_true] at h
      exact .unresolved hasks hresolve hjwk (none_of_throws h)

theorem malformed_of_throws {i : ℕ} {e : Error}
    (h : checkEntry P resolve payload i s = .error e) : Malformed P resolve payload s := by
  rw [checkEntry] at h
  cases hdecode : headerOf P s with
  | none =>
    rw [hdecode] at h
    cases h
  | some header =>
    rw [hdecode] at h
    by_cases hnull : header = .null
    · exact .nullHeader (hnull ▸ hdecode)
    replace h : checkHeader P resolve payload i s header = .error e := by
      cases header with
      | null => exact absurd rfl hnull
      | _ => exact h
    by_cases halg : isText (header.get? "alg") "EdDSA" = true
    · by_cases htruthy : truthy (header.get? "kid") = true
      · obtain ⟨kid, hkid⟩ := exists_of_truthy htruthy
        rw [hkid] at htruthy
        exact malformed_of_asks ⟨header, hdecode, halg, hkid, htruthy⟩ halg hkid htruthy h
      · rw [Bool.not_eq_true] at htruthy
        simp only [checkHeader, halg, htruthy, Bool.not_true, Bool.not_false, Bool.false_eq_true,
          if_false, if_true] at h
        cases h
    · rw [Bool.not_eq_true] at halg
      simp only [checkHeader, halg, Bool.not_false, if_true] at h
      exact .alg hdecode halg (none_of_throws h)

theorem checkEntry_of_asks {kid : Value} (i : ℕ) (h : Asks P s kid) :
    ∃ header, checkEntry P resolve payload i s = checkHeader P resolve payload i s header ∧
      isText (header.get? "alg") "EdDSA" = true ∧ header.get? "kid" = some kid ∧
      truthy (some kid) = true := by
  obtain ⟨header, hdecode, halg, hkid, htruthy⟩ := h
  refine ⟨header, ?_, halg, hkid, htruthy⟩
  rw [checkEntry, hdecode]
  cases header with
  | null => cases hkid
  | _ => rfl

theorem throws_of_malformed (i : ℕ) (h : Malformed P resolve payload s) :
    ∃ e, checkEntry P resolve payload i s = .error e := by
  cases h with
  | nullHeader hdecode => exact ⟨.typeError, by rw [checkEntry, hdecode]⟩
  | @alg header hdecode halg htext =>
    refine ⟨.typeError, ?_⟩
    rw [checkEntry, hdecode]
    cases header with
    | null => rfl
    | _ =>
      simp only [checkHeader, halg, Bool.not_false, if_true, template_of_none htext]
      rfl
  | @rejection kid e hasks hresolve htext =>
    obtain ⟨header, hentry, halg, hkid, htruthy⟩ := checkEntry_of_asks i hasks
    refine ⟨.typeError, ?_⟩
    rw [hentry, checkHeader_of_asks i halg hkid htruthy, hresolve]
    rcases e with _ | v
    · rfl
    · cases v with
      | null => rfl
      | _ =>
        simp only [messageOf, bind, Except.bind, template_of_none (htext _ rfl)]
  | unresolved hasks hresolve hjwk htext =>
    obtain ⟨header, hentry, halg, hkid, htruthy⟩ := checkEntry_of_asks i hasks
    refine ⟨.typeError, ?_⟩
    rw [hentry, checkHeader_of_asks i halg hkid htruthy, hresolve]
    simp only [hjwk, Bool.not_false, if_true, template_of_none (v := some _) htext]
    rfl
  | unusable hasks hresolve hjwk hunusable =>
    obtain ⟨header, hentry, halg, hkid, htruthy⟩ := checkEntry_of_asks i hasks
    obtain ⟨e, hthrows⟩ : ∃ e, verifies P payload s _ = .error e :=
      verifies_throws_iff.mpr hunusable
    refine ⟨e, ?_⟩
    rw [hentry, checkHeader_of_asks i halg hkid htruthy, hresolve]
    simp only [hjwk, Bool.not_true, Bool.false_eq_true, if_false, Option.getD_some, hthrows]
    rfl
  | unverified hasks hresolve hjwk hverifies htext =>
    obtain ⟨header, hentry, halg, hkid, htruthy⟩ := checkEntry_of_asks i hasks
    refine ⟨.typeError, ?_⟩
    rw [hentry, checkHeader_of_asks i halg hkid htruthy, hresolve]
    simp only [hjwk, Bool.not_true, Bool.false_eq_true, if_false, Option.getD_some, hverifies,
      bind, Except.bind, template_of_none (v := some _) htext]

theorem checkEntry_throws_iff (i : ℕ) :
    (∃ e, checkEntry P resolve payload i s = .error e) ↔ Malformed P resolve payload s :=
  ⟨fun ⟨_, h⟩ => malformed_of_throws h, throws_of_malformed i⟩

end Gatekeeper.Agent
