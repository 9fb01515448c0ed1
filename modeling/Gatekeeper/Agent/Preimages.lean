import Gatekeeper.Gate.SampleTenant
import Gatekeeper.Agent.Digests

/-!
# What the hash is fed with

The bytes both sides hash determine the fields, as far as UTF-8 does: half of a character that
stands alone in a JavaScript text is written as the replacement character. Those of a commitment
are never those of an action, which has fewer fields, nor those of claims: sorted claims cannot
have the domain as their first key and a digest as their third.
-/

namespace Gatekeeper.Agent.Digests

open Ecma Encoding
open Js (Error bind_eq_ok)
open Gate (Crates RString)

/-! ## The pre-images -/

/-- Hashed for a commitment, by the contract or by the agent. -/
def IsCommitmentPreimage (C : Crates) (b : Bytes) : Prop :=
  (∃ binding action, Gate.preimage (Gate.commitmentParts C binding action) = b) ∨
    ∃ binding action, (commitmentParts C.sha256 binding action >>= preimage) = .ok b

/-- Hashed for the digest of an action, by the contract or by the agent. -/
def IsActionPreimage (b : Bytes) : Prop :=
  (∃ action, Gate.preimage (Gate.actionParts action) = b) ∨
    ∃ action, (actionParts action >>= preimage) = .ok b

/-- Hashed for the digest of claims. -/
def IsClaimsPreimage (b : Bytes) : Prop := ∃ claims, (claimsParts claims >>= preimage) = .ok b

/-! ## Their fields -/

/-- The bytes are the frames of these fields. -/
structure Frames (fields : List Bytes) (b : Bytes) : Prop where
  fits : ∀ f ∈ fields, f.length < 2 ^ 64
  bytes : frames fields = b

theorem Frames.unique {fs gs : List Bytes} {b : Bytes} (hf : Frames fs b) (hg : Frames gs b) :
    fs = gs :=
  frames_inj hf.fits hg.fits (hf.bytes.trans hg.bytes.symm)

theorem frames_of_texts {parts : List String} (h : ∀ p ∈ parts, p.utf8ByteSize < 2 ^ 64) :
    Frames (parts.map utf8) (Gate.preimage parts) := by
  refine ⟨fun f hf => ?_, rfl⟩
  obtain ⟨p, hp, rfl⟩ := List.mem_map.mp hf
  rw [length_utf8]
  exact h p hp

theorem frames_of_preimage {parts : List Value} {b : Bytes} (h : preimage parts = .ok b) :
    ∃ fields, List.Forall₂ IsField parts fields ∧ Frames fields b := by
  obtain ⟨fields, hfields, hframes⟩ := preimage_eq_ok.mp h
  exact ⟨fields, hfields, fits_of_fields hfields, hframes⟩

/-- What is hashed for texts is the frames of their bytes. -/
theorem preimage_strings {ss : List Str} {b : Bytes} :
    preimage (ss.map Value.string) = .ok b ↔ Frames (ss.map bytesOf) b := by
  constructor
  · intro h
    obtain ⟨fields, hfields, hframes⟩ := frames_of_preimage h
    rwa [fields_of_strings hfields] at hframes
  · intro h
    refine preimage_eq_ok.mpr ⟨_, fields_of_fits fun s hs => ?_, h.bytes⟩
    exact h.fits _ (List.mem_map_of_mem hs)

theorem field_of_text {s : String} {field : Bytes} (h : IsField (text s) field) :
    field = utf8 s := by
  rw [← (isField_string.mp h).1, bytesOf_ofString]

/-- A commitment is over six fields, the first of them the domain and the fifth a digest. -/
theorem commitment_fields {C : Crates} {b : Bytes} (h : IsCommitmentPreimage C b) :
    ∃ issuer subject claims digest nonce,
      Frames [utf8 bindingDomain, issuer, subject, claims, utf8 (hexEncode digest), nonce] b := by
  rcases h with ⟨binding, action, rfl⟩ | ⟨binding, action, h⟩
  · exact ⟨_, _, _, _, _, frames_of_texts fun p => Gate.fits_commitmentParts⟩
  · obtain ⟨parts, hparts, h⟩ := bind_eq_ok.mp h
    obtain ⟨issuer, _, hparts⟩ := bind_eq_ok.mp hparts
    obtain ⟨digest, hdigest, hparts⟩ := bind_eq_ok.mp hparts
    obtain ⟨_, _, hdigest⟩ := bind_eq_ok.mp hdigest
    obtain ⟨hashed, -, rfl⟩ := sha256Hex_eq_ok.mp hdigest
    obtain rfl := Except.ok.inj hparts
    obtain ⟨fields, hfields, hframes⟩ := frames_of_preimage h
    -- the six fields, one after the other
    cases hfields with | cons hdomain hfields =>
    cases hfields with | cons _ hfields =>
    cases hfields with | cons _ hfields =>
    cases hfields with | cons _ hfields =>
    cases hfields with | cons hdigest hfields =>
    cases hfields with | cons _ hfields =>
    cases hfields
    rw [field_of_text hdomain, field_of_text hdigest] at hframes
    exact ⟨_, _, _, _, _, hframes⟩

/-- The digest of an action is over four fields. -/
theorem action_fields {b : Bytes} (h : IsActionPreimage b) :
    ∃ fields, fields.length = 4 ∧ Frames fields b := by
  rcases h with ⟨action, rfl⟩ | ⟨action, h⟩
  · exact ⟨_, rfl, frames_of_texts fun p => Gate.fits_actionParts⟩
  · obtain ⟨parts, hparts, h⟩ := bind_eq_ok.mp h
    obtain ⟨kind, _, hparts⟩ := bind_eq_ok.mp hparts
    obtain ⟨amount, _, hparts⟩ := bind_eq_ok.mp hparts
    obtain rfl := Except.ok.inj hparts
    obtain ⟨fields, hfields, hframes⟩ := frames_of_preimage h
    exact ⟨fields, hfields.length_eq.symm, hframes⟩

/-- The digest of claims is over the bytes of the sorted keys and of the texts. -/
theorem claims_fields {b : Bytes} (h : IsClaimsPreimage b) :
    ∃ ms, Frames ((claimTexts ms).map bytesOf) b := by
  obtain ⟨claims, h⟩ := h
  obtain ⟨parts, hparts, h⟩ := bind_eq_ok.mp h
  obtain ⟨ms, _, hparts⟩ := bind_eq_ok.mp hparts
  obtain rfl := Except.ok.inj hparts
  obtain ⟨fields, hfields, hframes⟩ := frames_of_preimage h
  rw [flatMap_claimParts] at hfields
  rw [fields_of_strings hfields] at hframes
  exact ⟨ms, hframes⟩

/-! ## Sorted keys -/

theorem getElem?_claimTexts (ms : List (Str × Value)) (i : ℕ) :
    (claimTexts ms)[2 * i]? = (sortMembers ms)[i]?.map Prod.fst := by
  rw [claimTexts]
  induction sortMembers ms generalizing i with
  | nil => rfl
  | cons m l ih =>
    cases i with
    | zero => rfl
    | succ i =>
      rw [List.getElem?_cons_succ, ← ih]
      rfl

/-- The first key comes before the third. -/
theorem keyLe_of_getElem? {ms : List (Str × Value)} {j k : Str}
    (hj : (claimTexts ms)[0]? = some j) (hk : (claimTexts ms)[4]? = some k) : keyLe j k := by
  have hfirst := getElem?_claimTexts ms 0
  have hthird := getElem?_claimTexts ms 2
  rw [hj] at hfirst
  rw [hk] at hthird
  obtain ⟨m, hm, rfl⟩ := Option.map_eq_some_iff.mp hfirst.symm
  obtain ⟨n, hn, rfl⟩ := Option.map_eq_some_iff.mp hthird.symm
  obtain ⟨_, rfl⟩ := List.getElem?_eq_some_iff.mp hm
  obtain ⟨_, rfl⟩ := List.getElem?_eq_some_iff.mp hn
  exact List.pairwise_iff_getElem.mp (List.pairwise_insertionSort memberLe ms) _ _ _ _ (by decide)

theorem hexDigit_le (n : ℕ) : (hexDigit n).toNat ≤ 'f'.toNat := by
  by_cases hn : n < 16
  · have table : ∀ i : Fin 16, (hexDigit i).toNat ≤ 'f'.toNat := by decide
    exact table ⟨n, hn⟩
  · have hlen : "0123456789abcdef".toList.length ≤ n := Nat.not_lt.mp hn
    rw [hexDigit, List.getD_eq_getElem?_getD, List.getElem?_eq_none hlen]
    decide

theorem hexDigit_ne (n : ℕ) : hexDigit n ≠ '\uFFFD' := by
  intro h
  have hle := hexDigit_le n
  rw [h] at hle
  exact absurd hle (by decide)

/-- The domain, as a key, comes after a digest. -/
theorem not_keyLe {j k : Str} {digest : Bytes} (hj : bytesOf j = utf8 bindingDomain)
    (hk : bytesOf k = utf8 (hexEncode digest)) : ¬ keyLe j k := by
  rw [bytesOf_eq_utf8] at hj hk
  rw [hexEncode, String.toList_ofList] at hk
  -- the first code unit of the domain is that of `t`
  obtain ⟨us, rfl⟩ : ∃ us, j = UInt16.ofNat 't'.toNat :: us :=
    head_of_toChars (hj.trans (by rfl)) (by decide) (by decide)
  cases digest with
  | nil =>
    obtain rfl : k = [] := by
      by_contra hne
      exact toChars_ne_nil hne hk
    exact not_keyLe_nil _ us
  | cons b digest =>
    have hle := hexDigit_le (b.toNat / 16)
    have hf : 'f'.toNat = 0x66 := rfl
    obtain ⟨vs, rfl⟩ := head_of_toChars hk (by omega) (hexDigit_ne _)
    intro h
    have hunits := le_of_keyLe h
    rw [UInt16.toNat_ofNat', UInt16.toNat_ofNat', Nat.mod_eq_of_lt (by decide)] at hunits
    have ht : 't'.toNat = 0x74 := rfl
    omega

/-- A pre-image of a commitment is none of an action or of claims. -/
theorem not_claimsPreimage {C : Crates} {b : Bytes} (h : IsCommitmentPreimage C b) :
    ¬ IsClaimsPreimage b := by
  intro hclaims
  obtain ⟨issuer, subject, claims, digest, nonce, hframes⟩ := commitment_fields h
  obtain ⟨ms, hframes'⟩ := claims_fields hclaims
  have hfields := hframes'.unique hframes
  have hfirst := congrArg (·[0]?) hfields
  have hfifth := congrArg (·[4]?) hfields
  simp only [List.getElem?_map] at hfirst hfifth
  obtain ⟨j, hj, hdomain⟩ := Option.map_eq_some_iff.mp hfirst
  obtain ⟨k, hk, hdigest⟩ := Option.map_eq_some_iff.mp hfifth
  exact not_keyLe hdomain hdigest (keyLe_of_getElem? hj hk)

theorem not_actionPreimage {C : Crates} {b : Bytes} (h : IsCommitmentPreimage C b) :
    ¬ IsActionPreimage b := by
  intro haction
  obtain ⟨_, _, _, _, _, hframes⟩ := commitment_fields h
  obtain ⟨fields, hlength, hframes'⟩ := action_fields haction
  rw [hframes'.unique hframes] at hlength
  cases hlength

/-- The bytes that are hashed determine the list of fields: the contract's as they are, those of
the agent up to their bytes in UTF-8, and so as they are where they are well-formed. What is hashed
for a commitment is never hashed for an action or for claims. -/
theorem preimages_separate (C : Crates) :
    (∀ ps qs : List RString, Gate.preimage (ps.map (·.val)) = Gate.preimage (qs.map (·.val)) →
        ps = qs) ∧
      (∀ (ps qs : List Str) (b : Bytes), preimage (ps.map Value.string) = .ok b →
        (preimage (qs.map Value.string) = .ok b ↔ qs.map bytesOf = ps.map bytesOf)) ∧
      (∀ (ps qs : List String) (b : Bytes), preimage (ps.map text) = .ok b →
        preimage (qs.map text) = .ok b → ps = qs) ∧
      ∀ b, IsCommitmentPreimage C b → ¬ IsActionPreimage b ∧ ¬ IsClaimsPreimage b := by
  refine ⟨fun ps qs h => ?_, fun ps qs b hp => ?_, fun ps qs b hp hq => ?_, fun b h =>
    ⟨not_actionPreimage h, not_claimsPreimage h⟩⟩
  · have hfits : ∀ rs : List RString, ∀ p ∈ rs.map (·.val), p.utf8ByteSize < 2 ^ 64 := by
      intro rs p hp
      obtain ⟨r, -, rfl⟩ := List.mem_map.mp hp
      exact r.fits
    exact List.map_injective_iff.mpr (fun _ _ => RString.ext)
      (Gate.preimage_inj (hfits ps) (hfits qs) h)
  · rw [preimage_strings] at hp ⊢
    constructor
    · exact fun hq => hq.unique hp
    · intro heq
      rwa [heq]
  · have htext : ∀ rs : List String, rs.map text = (rs.map ofString).map Value.string := by
      intro rs
      rw [List.map_map]
      rfl
    rw [htext, preimage_strings] at hp hq
    have hfields := hp.unique hq
    rw [List.map_map, List.map_map] at hfields
    exact List.map_injective_iff.mpr bytesOf_ofString_injective hfields

/-- Half of a character and the replacement character are hashed as one. -/
theorem halves_confused :
    ¬ ∀ (ps qs : List Str) (b : Bytes), preimage (ps.map Value.string) = .ok b →
      preimage (qs.map Value.string) = .ok b → ps = qs := by
  intro h
  have hhalf : preimage ([[0xD800]].map Value.string) =
      .ok [0, 0, 0, 0, 0, 0, 0, 3, 0xEF, 0xBF, 0xBD] := by decide
  have hwhole : preimage ([[0xFFFD]].map Value.string) =
      .ok [0, 0, 0, 0, 0, 0, 0, 3, 0xEF, 0xBF, 0xBD] := by decide
  exact absurd (h _ _ _ hhalf hwhole) (by decide)

/-- What the contract hashes for a sample commitment. -/
def sampleCommitmentBytes : Bytes :=
  Gate.preimage (Gate.commitmentParts Gate.sampleCrates
    (Gate.bindingFor Gate.sampleCrates Gate.sampleNonce Gate.sampleAction) Gate.sampleAction)

theorem preimages_separate_sample :
    ¬ IsActionPreimage sampleCommitmentBytes ∧ ¬ IsClaimsPreimage sampleCommitmentBytes :=
  (preimages_separate Gate.sampleCrates).2.2.2 _
    (.inl ⟨Gate.bindingFor Gate.sampleCrates Gate.sampleNonce Gate.sampleAction,
      Gate.sampleAction, rfl⟩)

end Gatekeeper.Agent.Digests
