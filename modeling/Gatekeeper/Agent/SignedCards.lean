import Gatekeeper.Agent.CardSignatureTheorems
import Gatekeeper.Agent.SampleCaller

/-!
# A signature pins down its card

Which cards a signature counts for: those that are equal to the signed one up to the order of
keys and up to numbers that JSON has no text for, where no other signature makes the loop throw.
-/

namespace Gatekeeper.Agent

open Ecma Encoding
open Js (Error)

/-! ## The entry of a signed card -/

variable {P : CardPlatform} {resolve : KeyResolver} {sk : P.PrivateKey} {kid : Str}

/-- A signed card carries one signature. -/
theorem signaturesOf_signCard (ms : List (Str × Value)) :
    signaturesOf (signCard P sk kid (.object ms)) = [signatureEntry P sk kid (.object ms)] := by
  rw [signCard, signaturesOf, Value.get?, lookup_setMember]

theorem mem_signCard (ms : List (Str × Value)) :
    signatureEntry P sk kid (.object ms) ∈ signaturesOf (signCard P sk kid (.object ms)) := by
  rw [signaturesOf_signCard]
  exact List.mem_singleton_self _

theorem eq_signatureEntry {c s : Value} (h : s ∈ signaturesOf (signCard P sk kid c)) :
    s = signatureEntry P sk kid c := by
  cases c with
  | object ms =>
    rw [signaturesOf_signCard] at h
    exact List.mem_singleton.mp h
  | _ => cases h

/-! ## What is counted -/

/-- `verifyCard` returns a report that counts the signature at this place. -/
def Counted (P : CardPlatform) (resolve : KeyResolver) (card : Value) (i : ℕ) : Prop :=
  ∃ os, outcomes P resolve card = .ok os ∧ verifyCard P resolve card = .ok (cardReport os) ∧
    os[i]? = some .verified

/-- The key has an id, and no signature of the card makes the loop throw. -/
def Countable (P : CardPlatform) (resolve : KeyResolver) (kid : Str) (card : Value) : Prop :=
  kid ≠ [] ∧ ∀ s ∈ signaturesOf card, ¬ Malformed P resolve (cardPayload card) s

/-- The values differ, but only where one has `null` and the other a number that JSON has no
text for. -/
def DifferByNull (v w : Value) : Prop := v.nulled.Same w.nulled ∧ ¬ v.Same w

/-- The loop over the signatures from place `i` on ends when none of them is malformed. -/
theorem exists_checkEntries {payload : String} {ss : List Value} (i : ℕ) :
    (∃ os, checkEntries P resolve payload i ss = .ok os) ↔
      ∀ s ∈ ss, ¬ Malformed P resolve payload s := by
  induction ss generalizing i with
  | nil => exact iff_of_true ⟨[], rfl⟩ (List.forall_mem_nil _)
  | cons s ss ih =>
    rw [List.forall_mem_cons, ← ih (i + 1), ← checkEntry_throws_iff i, checkEntries]
    cases checkEntry P resolve payload i s with
    | error e => exact iff_of_false (by rintro ⟨os, ⟨⟩⟩) fun h => h.1 ⟨e, rfl⟩
    | ok o =>
      cases checkEntries P resolve payload (i + 1) ss with
      | error e => exact iff_of_false (by rintro ⟨os, ⟨⟩⟩) (by rintro ⟨-, os, ⟨⟩⟩)
      | ok os => exact iff_of_true ⟨o :: os, rfl⟩ ⟨by rintro ⟨e, ⟨⟩⟩, os, rfl⟩

/-- The outcome at a place is what the body of the loop makes of the signature there. -/
theorem checkEntry_of_getElem? {payload : String} {ss : List Value} {os : List EntryOutcome}
    {n i : ℕ} (h : checkEntries P resolve payload n ss = .ok os) {s : Value}
    (hs : ss[i]? = some s) :
    ∃ o, os[i]? = some o ∧ checkEntry P resolve payload (n + i) s = .ok o := by
  induction ss generalizing n i os with
  | nil => cases hs
  | cons t ss ih =>
    rw [checkEntries] at h
    cases hentry : checkEntry P resolve payload n t with
    | error e =>
      rw [hentry] at h
      cases h
    | ok o =>
      cases hentries : checkEntries P resolve payload (n + 1) ss with
      | error e =>
        rw [hentry, hentries] at h
        cases h
      | ok rest =>
        rw [hentry, hentries] at h
        obtain rfl := Except.ok.inj h
        cases i with
        | zero =>
          obtain rfl := Option.some.inj hs
          exact ⟨o, rfl, hentry⟩
        | succ i =>
          obtain ⟨o', ho', hcheck⟩ := ih hentries hs
          exact ⟨o', ho', by rwa [Nat.add_right_comm] at hcheck⟩

theorem verifyCard_of_mem {card s : Value} {i : ℕ} (h : (signaturesOf card)[i]? = some s) :
    verifyCard P resolve card = (outcomes P resolve card).map cardReport := by
  rw [verifyCard, if_neg]
  rw [List.isEmpty_iff]
  intro hnil
  rw [hnil] at h
  cases h

/-- A signature is counted when the loop ends and the payload is the one that was signed. -/
theorem counted_iff (hP : P.Lawful) (hideal : P.Ideal)
    (hresolve : Resolves resolve kid (P.publicKey sk)) {c c' s : Value} {i : ℕ}
    (hmade : s ∈ signaturesOf (signCard P sk kid c)) (hcarried : (signaturesOf c')[i]? = some s) :
    Counted P resolve c' i ↔ Countable P resolve kid c' ∧ cardPayload c' = cardPayload c := by
  obtain rfl := eq_signatureEntry hmade
  have hcheck := checkEntry_signatureEntry hP hideal hresolve (cardPayload c') (0 + i) c
  constructor
  · rintro ⟨os, hos, -, hverified⟩
    have hloop := (exists_checkEntries 0).mp ⟨os, hos⟩
    obtain ⟨o, ho, hentry⟩ := checkEntry_of_getElem? hos hcarried
    obtain rfl := Option.some.inj (ho.symm.trans hverified)
    obtain ⟨hkid, hpayload⟩ := hcheck.mp hentry
    exact ⟨⟨hkid, hloop⟩, hpayload⟩
  · rintro ⟨⟨hkid, hloop⟩, hpayload⟩
    obtain ⟨os, hos⟩ := (exists_checkEntries 0).mpr hloop
    obtain ⟨o, ho, hentry⟩ := checkEntry_of_getElem? hos hcarried
    obtain rfl := Except.ok.inj (hentry.symm.trans (hcheck.mpr ⟨hkid, hpayload⟩))
    refine ⟨os, hos, ?_, ho⟩
    rw [verifyCard_of_mem hcarried, outcomes, hos]
    rfl

/-- A signature that `signCard` made does not make the loop throw, on any card. -/
theorem not_malformed_signatureEntry (hP : P.Lawful)
    (hresolve : Resolves resolve kid (P.publicKey sk)) (payload : String) (card : Value) :
    ¬ Malformed P resolve payload (signatureEntry P sk kid card) := by
  obtain ⟨jwk, hjwk, hkey⟩ := hresolve
  obtain ⟨halg, hkid⟩ := get?_protectedHeader kid
  have hdecode := headerOf_signatureEntry hP sk kid card
  have hverifies := verifies_signatureEntry hP hkey sk kid card payload
  have hasks : ∀ k, Asks P (signatureEntry P sk kid card) k → k = .string kid := by
    rintro k ⟨header, h, -, hk, -⟩
    obtain rfl := Option.some.inj (hdecode.symm.trans h)
    exact Option.some.inj (hk.symm.trans hkid)
  intro h
  cases h with
  | nullHeader h => cases hdecode.symm.trans h
  | alg h hbad =>
    obtain rfl := Option.some.inj (hdecode.symm.trans h)
    rw [halg] at hbad
    exact absurd hbad (by decide +kernel)
  | rejection h hreject =>
    obtain rfl := hasks _ h
    cases hjwk.symm.trans hreject
  | unresolved h _ _ htext =>
    obtain rfl := hasks _ h
    cases htext
  | unusable h hjwk' _ hunusable =>
    obtain rfl := hasks _ h
    obtain rfl := Option.some.inj (Except.ok.inj (hjwk.symm.trans hjwk'))
    obtain ⟨e, he⟩ : ∃ e, verifies P payload (signatureEntry P sk kid card) jwk = .error e :=
      verifies_throws_iff.mpr hunusable
    cases hverifies.symm.trans he
  | unverified h _ _ _ htext =>
    obtain rfl := hasks _ h
    cases htext

/-! ## What a signature pins down -/

theorem canonicalize_exact_iff {v w : Value} (hv : v.Distinct) (hw : w.Distinct) :
    (canonicalize v = canonicalize w ↔ v.Same w) ↔ ¬ DifferByNull v w := by
  rw [canonicalize_inj hv hw]
  constructor
  · rintro h ⟨hnulled, hne⟩
    exact hne (h.mp hnulled)
  · intro h
    refine ⟨fun hnulled => ?_, nulled_same hv hw⟩
    by_contra hne
    exact h ⟨hnulled, hne⟩

/-- Values that JSON has text for do not differ so. -/
theorem not_differByNull_of_finite {v w : Value} (hv : v.Finite) (hw : w.Finite) :
    ¬ DifferByNull v w := by
  rintro ⟨hnulled, hne⟩
  rw [nulled_of_finite hv, nulled_of_finite hw] at hnulled
  exact hne hnulled

/-- Canonical JSON tells values apart up to the order of keys if and only if they do not differ
in a `null` for a number without a text. A signature is counted for the cards that are so equal
to the signed one if and only if, where it can be counted, they do not differ in such a `null`,
and where it cannot, they are not equal. -/
theorem signature_pins_iff (hP : P.Lawful) (hideal : P.Ideal) :
    (∀ v w : Value, v.Distinct → w.Distinct →
      ((canonicalize v = canonicalize w ↔ v.Same w) ↔ ¬ DifferByNull v w)) ∧
    ∀ (resolve : KeyResolver) (sk : P.PrivateKey) (kid : Str),
      Resolves resolve kid (P.publicKey sk) → ∀ (c c' s : Value) (i : ℕ),
      c.Distinct → c'.Distinct → s ∈ signaturesOf (signCard P sk kid c) →
      (signaturesOf c')[i]? = some s →
      ((Counted P resolve c' i ↔ (withoutSignatures c).Same (withoutSignatures c')) ↔
        (Countable P resolve kid c' →
          ¬ DifferByNull (withoutSignatures c) (withoutSignatures c')) ∧
        (¬ Countable P resolve kid c' →
          ¬ (withoutSignatures c).Same (withoutSignatures c'))) := by
  refine ⟨fun v w hv hw => canonicalize_exact_iff hv hw, ?_⟩
  intro resolve sk kid hresolve c c' s i hc hc' hmade hcarried
  have hexact := canonicalize_exact_iff (distinct_withoutSignatures hc)
    (distinct_withoutSignatures hc')
  rw [canonicalize_inj (distinct_withoutSignatures hc) (distinct_withoutSignatures hc'),
    ← cardPayload_inj hc hc'] at hexact
  rw [counted_iff hP hideal hresolve hmade hcarried, eq_comm (a := cardPayload c')]
  by_cases hcount : Countable P resolve kid c'
  · rw [← hexact]
    simp only [hcount, true_and, true_imp_iff, not_true, false_imp_iff, and_true]
  · simp only [hcount, false_and, false_iff, false_imp_iff, not_false_iff, true_imp_iff, true_and]

/-! ## A sample card -/

/-- The signing input of the sample card. -/
def sampleCardInput : String :=
  "eyJhbGciOiJFZERTQSIsImtpZCI6ImRpZDp3ZWI6YWdlbnQuZXhhbXBsZSN3YmEiLCJ0eXAiOiJhMmEtYWdlbnQtY2" ++
    "FyZCtqd3MifQ.eyJuYW1lIjoiVGVzdCIsIngiOm51bGx9"

/-- Its Ed25519 signature by the sample key. -/
def sampleCardSignature : Bytes :=
  bigEndian 32 0xb69d2aada89cf23ba10dd2a4817d556e7a6c849b5cefd903b32d15a36f632ac3 ++
    bigEndian 32 0x352fb9d8362f9923e13fb9aaec2dde7a6e8e1b1868126a75cd4984616ca6f50f

/-- On other messages the message itself is written, at another length. -/
def sampleCardSign (m : Bytes) : Bytes :=
  if m = utf8 sampleCardInput then sampleCardSignature else List.replicate 65 0 ++ m

def sampleCardPlatform : CardPlatform where
  Key := Bytes
  PrivateKey := Unit
  publicKey := fun _ => samplePublicKey
  sign := fun _ m => sampleCardSign m
  verify := fun key m s => key == samplePublicKey && s == sampleCardSign m
  importKey := fun x =>
    if isText (some x) sampleKeyText then .ok samplePublicKey else .error .typeError
  fromBase64Url := fun
    | some (.string t) => .ok (base64UrlDecode (String.ofList (toChars t)))
    | _ => .error .typeError

theorem sampleCardSign_injective : Function.Injective sampleCardSign := by
  have hlen : ∀ m : Bytes, sampleCardSignature ≠ List.replicate 65 0 ++ m := by
    intro m h
    have hlength := congrArg List.length h
    rw [sampleCardSignature, List.length_append, length_bigEndian, List.length_append,
      List.length_replicate, length_bigEndian] at hlength
    omega
  intro m m' h
  unfold sampleCardSign at h
  split_ifs at h with hm hm' hm'
  · rw [hm, hm']
  · exact absurd h (hlen _)
  · exact absurd h.symm (hlen _)
  · exact List.append_cancel_left h

theorem sampleCard_lawful : sampleCardPlatform.Lawful where
  fromBase64Url_encode := by
    intro b
    show Except.ok (base64UrlDecode (String.ofList (toChars (ofString (base64UrlEncode b))))) = _
    rw [toChars_ofString, String.ofList_toList, base64UrlDecode_encode]

theorem sampleCard_ideal : sampleCardPlatform.Ideal where
  verify_sign := by
    intro key m sk m'
    change Bytes at key
    show (key == samplePublicKey && sampleCardSign m' == sampleCardSign m) = true ↔ _
    rw [Bool.and_eq_true, beq_iff_eq, beq_iff_eq, sampleCardSign_injective.eq_iff]
    exact and_congr_right fun _ => eq_comm

def sampleKid : Str := ofString "did:web:agent.example#wba"

def sampleJwk : Value :=
  .object [(ofString "kty", .string (ofString "OKP")),
    (ofString "crv", .string (ofString "Ed25519")),
    (ofString "x", .string (ofString sampleKeyText))]

def sampleResolver : KeyResolver := fun _ => .ok (some sampleJwk)

theorem sample_resolves :
    Resolves sampleResolver sampleKid (sampleCardPlatform.publicKey ()) := by
  refine ⟨sampleJwk, rfl, ?_⟩
  have hget : sampleJwk.get? "x" = some (.string (ofString sampleKeyText)) := by rfl
  have hcheck : (isText (sampleJwk.get? "kty") "OKP" && isText (sampleJwk.get? "crv") "Ed25519" &&
      truthy (sampleJwk.get? "x")) = true := by decide +kernel
  rw [publicKeyFromJwk, if_pos hcheck, hget]
  rfl

/-- A card that is signed. -/
def testCard (x : Value) : Value :=
  .object [(ofString "x", x), (ofString "name", .string (ofString "Test"))]

/-- The card with `null` under `x` that carries the signature on `testCard x`. -/
def presentedCard (x : Value) : Value :=
  .object [(ofString "name", .string (ofString "Test")),
    (ofString "signatures",
      .array [signatureEntry sampleCardPlatform () sampleKid (testCard x)]),
    (ofString "x", .null)]

theorem signaturesOf_members (name x : Value) (ss : List Value) :
    signaturesOf (.object [(ofString "name", name), (ofString "signatures", .array ss),
      (ofString "x", x)]) = ss := by
  have hne : (ofString "signatures" == ofString "name") = false := ofString_beq (by decide)
  rw [signaturesOf, Value.get?, List.lookup_cons, hne, List.lookup_cons_self]

theorem withoutSignatures_members (name signatures x : Value) :
    withoutSignatures (.object [(ofString "name", name), (ofString "signatures", signatures),
      (ofString "x", x)]) = .object [(ofString "name", name), (ofString "x", x)] := by
  have hname : ofString "name" ≠ ofString "signatures" := ofString_ne (by decide)
  have hx : ofString "x" ≠ ofString "signatures" := ofString_ne (by decide)
  simp [withoutSignatures, hname, hx]

theorem signaturesOf_presentedCard (x : Value) :
    signaturesOf (presentedCard x) =
      [signatureEntry sampleCardPlatform () sampleKid (testCard x)] :=
  signaturesOf_members _ _ _

theorem withoutSignatures_presentedCard (x : Value) :
    withoutSignatures (presentedCard x) =
      .object [(ofString "name", .string (ofString "Test")), (ofString "x", .null)] :=
  withoutSignatures_members _ _ _

theorem withoutSignatures_testCard (x : Value) : withoutSignatures (testCard x) = testCard x := by
  have hname : ofString "name" ≠ ofString "signatures" := ofString_ne (by decide)
  have hx : ofString "x" ≠ ofString "signatures" := ofString_ne (by decide)
  simp [testCard, withoutSignatures, hname, hx]

theorem distinct_testCard {x : Value} (h : x.Distinct) : (testCard x).Distinct :=
  have hkeys : (["x", "name"].map ofString).Nodup := nodup_ofString (by decide)
  ⟨hkeys, h, trivial, trivial⟩

theorem distinct_presentedCard (x : Value) : (presentedCard x).Distinct :=
  have hkeys : (["name", "signatures", "x"].map ofString).Nodup := nodup_ofString (by decide)
  have hparts : (["protected", "signature"].map ofString).Nodup := nodup_ofString (by decide)
  ⟨hkeys, trivial, ⟨⟨hparts, trivial, trivial, trivial⟩, trivial⟩, trivial, trivial⟩

theorem countable_presentedCard (x : Value) :
    Countable sampleCardPlatform sampleResolver sampleKid (presentedCard x) := by
  refine ⟨by decide +kernel, fun s hs => ?_⟩
  rw [signaturesOf_presentedCard, List.mem_singleton] at hs
  rw [hs]
  exact not_malformed_signatureEntry sampleCard_lawful sample_resolves _ _

/-- The signed card in another order of its keys. -/
theorem signature_pins_sample :
    Counted sampleCardPlatform sampleResolver (presentedCard .null) 0 := by
  have hmade : signatureEntry sampleCardPlatform () sampleKid (testCard .null) ∈
      signaturesOf (signCard sampleCardPlatform () sampleKid (testCard .null)) :=
    mem_signCard _
  have hcarried : (signaturesOf (presentedCard .null))[0]? =
      some (signatureEntry sampleCardPlatform () sampleKid (testCard .null)) := by
    rw [signaturesOf_presentedCard]
    rfl
  have hpins := (signature_pins_iff sampleCard_lawful sampleCard_ideal).2 sampleResolver ()
    sampleKid sample_resolves (testCard .null) (presentedCard .null) _ 0
    (distinct_testCard trivial) (distinct_presentedCard _) hmade hcarried
  rw [withoutSignatures_presentedCard, withoutSignatures_testCard] at hpins
  refine (hpins.mpr ⟨fun _ => not_differByNull_of_finite ?_ ?_,
    fun h => absurd (countable_presentedCard _) h⟩).mpr ?_
  · exact ⟨trivial, trivial, trivial⟩
  · exact ⟨trivial, trivial, trivial⟩
  · refine ⟨rfl, ⟨.null, ?_, trivial⟩, ⟨.string (ofString "Test"), ?_, rfl⟩, trivial⟩
    · exact List.mem_cons_of_mem _ (List.mem_singleton_self _)
    · exact List.mem_cons_self

/-- The signature on a card with a number too large for the language counts for the card that
has `null` there. -/
theorem null_for_overflow :
    Js.readNumber "1e999".toList = some (.infinity false, []) ∧
      ¬ (Counted sampleCardPlatform sampleResolver
          (presentedCard (.number (.infinity false))) 0 ↔
        (withoutSignatures (testCard (.number (.infinity false)))).Same
          (withoutSignatures (presentedCard (.number (.infinity false))))) := by
  refine ⟨by decide +kernel, fun h => ?_⟩
  have hmade : signatureEntry sampleCardPlatform () sampleKid
      (testCard (.number (.infinity false))) ∈ signaturesOf (signCard sampleCardPlatform ()
        sampleKid (testCard (.number (.infinity false)))) := mem_signCard _
  have hcarried : (signaturesOf (presentedCard (.number (.infinity false))))[0]? =
      some (signatureEntry sampleCardPlatform () sampleKid
        (testCard (.number (.infinity false)))) := by
    rw [signaturesOf_presentedCard]
    rfl
  have hcounted := counted_iff sampleCard_lawful sampleCard_ideal sample_resolves hmade hcarried
  have hpayload : cardPayload (presentedCard (.number (.infinity false))) =
      cardPayload (testCard (.number (.infinity false))) := by
    decide +kernel
  have hsame := h.mp (hcounted.mpr ⟨countable_presentedCard _, hpayload⟩)
  rw [withoutSignatures_presentedCard, withoutSignatures_testCard] at hsame
  obtain ⟨-, ⟨y, hy, hxy⟩, -⟩ := hsame
  have hx : ofString "x" ≠ ofString "name" := ofString_ne (by decide)
  simp only [List.mem_cons, Prod.mk.injEq, hx, false_and, true_and, List.not_mem_nil, or_false,
    false_or] at hy
  rw [hy] at hxy
  exact hxy

end Gatekeeper.Agent
