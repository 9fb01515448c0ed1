import Mathlib.Algebra.Group.Nat.Defs
import Mathlib.Order.Lattice
import Gatekeeper.Lib.EcmaOps
import Gatekeeper.Lib.Sha256

/-!
# Digests of any JSON

The digests of `credential-binding.mjs` on whatever JSON they are given, the bytes they hash,
and how far the digest of claims tells claims apart. It sorts the keys of the claims, but not
those inside a claim. `ModelAgreement` relates them to the functions of `CredentialBinding`.
-/

namespace Gatekeeper.Agent.Digests

open Ecma Encoding
open Js (Error bind_eq_ok)

/-! ## The functions -/

def bindingDomain : String := "t3-gatekeeper/cred-binding/v1"

/-- A text as a value. -/
def text (s : String) : Value := .string (ofString s)

/-- `v ?? w`. -/
def orElse (v : Option Value) (w : Value) : Value :=
  match v with
  | none | some .null => w
  | some v => v

/-- `v.name`, which throws on `null`. -/
def read (v : Value) (name : String) : Except Error (Option Value) :=
  match v with
  | .null => .error .typeError
  | v => .ok (v.get? name)

/-- A field behind its length. `writeBigUInt64BE` throws when that has more than eight bytes. -/
def framed (b : Bytes) : Except Error Bytes :=
  if b.length < 2 ^ 64 then .ok (frame b) else .error .rangeError

/-- The bytes the hash is fed with. -/
def preimage : List Value → Except Error Bytes
  | [] => .ok []
  | p :: ps => do
    let t ← template (some p)
    let field ← framed (bytesOf t)
    let fields ← preimage ps
    return field ++ fields

def sha256Hex (sha256 : Bytes → Bytes) (parts : List Value) : Except Error String := do
  let bytes ← preimage parts
  return hexEncode (sha256 bytes)

/-- The fields of an action that its digest covers. -/
def actionParts (action : Value) : Except Error (List Value) := do
  let kind ← read action "kind"
  let amount ← template (some (orElse (action.get? "amount_cents") (.number (.ofRat 0))))
  return [orElse kind (text ""), orElse (action.get? "asset") (text ""), .string amount,
    orElse (action.get? "counterparty") (text "")]

def actionDigest (sha256 : Bytes → Bytes) (action : Value) : Except Error String := do
  let parts ← actionParts action
  sha256Hex sha256 parts

/-- The fields the commitment covers. -/
def commitmentParts (sha256 : Bytes → Bytes) (binding action : Value) :
    Except Error (List Value) := do
  let issuer ← read binding "issuer"
  let digest ← actionDigest sha256 action
  return [text bindingDomain, orElse issuer (text ""),
    orElse (binding.get? "subject") (text ""), orElse (binding.get? "claims_digest") (text ""),
    text digest, orElse (binding.get? "nonce") (text "")]

def expectedCommitment (sha256 : Bytes → Bytes) (binding action : Value) :
    Except Error String := do
  let parts ← commitmentParts sha256 binding action
  sha256Hex sha256 parts

/-- `Object.keys(v)`, each with the value it names. -/
def entries : Value → Except Error (List (Str × Value))
  | .null => .error .typeError
  | .object ms => .ok ms
  | .array xs => .ok (xs.mapIdx fun i x => (ofString i.repr, x))
  | .string s => .ok (s.mapIdx fun i u => (ofString i.repr, .string [u]))
  | .bool _ | .number _ => .ok []

/-- A claim's key and the text of its value. -/
def claimParts (m : Str × Value) : List Value := [.string m.1, text (String.ofList m.2.write)]

def claimsParts (claims : Value) : Except Error (List Value) := do
  let ms ← entries claims
  return (sortMembers ms).flatMap claimParts

def claimsDigest (sha256 : Bytes → Bytes) (claims : Value) : Except Error String := do
  let parts ← claimsParts claims
  sha256Hex sha256 parts

/-! ## The bytes of a list of parts -/

/-- The bytes that are hashed for a part. -/
structure IsField (p : Value) (field : Bytes) : Prop where
  bytes : ∃ t, template (some p) = .ok t ∧ bytesOf t = field
  fits : field.length < 2 ^ 64

theorem framed_eq_ok {b c : Bytes} : framed b = .ok c ↔ b.length < 2 ^ 64 ∧ frame b = c := by
  rw [framed]
  split_ifs with h
  · rw [Except.ok.injEq]
    exact (and_iff_right h).symm
  · exact iff_of_false (by rintro ⟨⟩) fun hc => h hc.1

/-- Parts are hashed as the frames of their fields. -/
theorem preimage_eq_ok {ps : List Value} {b : Bytes} :
    preimage ps = .ok b ↔ ∃ fields, List.Forall₂ IsField ps fields ∧ frames fields = b := by
  induction ps generalizing b with
  | nil =>
    rw [preimage, Except.ok.injEq]
    constructor
    · intro h
      exact ⟨[], .nil, h⟩
    · rintro ⟨fields, hfields, h⟩
      cases hfields
      exact h
  | cons p ps ih =>
    rw [preimage]
    constructor
    · intro h
      obtain ⟨t, ht, h⟩ := bind_eq_ok.mp h
      obtain ⟨field, hfield, h⟩ := bind_eq_ok.mp h
      obtain ⟨rest, hrest, h⟩ := bind_eq_ok.mp h
      obtain ⟨hfits, rfl⟩ := framed_eq_ok.mp hfield
      obtain ⟨fields, hfields, rfl⟩ := ih.mp hrest
      exact ⟨bytesOf t :: fields, .cons ⟨⟨t, ht, rfl⟩, hfits⟩ hfields, Except.ok.inj h⟩
    · rintro ⟨_, hfields, rfl⟩
      cases hfields with
      | cons hfield hfields =>
        obtain ⟨⟨t, ht, rfl⟩, hfits⟩ := hfield
        rw [ht, ih.mpr ⟨_, hfields, rfl⟩]
        show (framed (bytesOf t) >>= fun field => _) = _
        rw [framed_eq_ok.mpr ⟨hfits, rfl⟩]
        rfl

theorem fits_of_fields {ps : List Value} {fields : List Bytes}
    (h : List.Forall₂ IsField ps fields) : ∀ f ∈ fields, f.length < 2 ^ 64 := by
  induction h with
  | nil => exact List.forall_mem_nil _
  | cons hfield _ ih => exact List.forall_mem_cons.mpr ⟨hfield.fits, ih⟩

/-- The hash is over bytes that determine the fields. -/
theorem fields_eq {ps qs : List Value} {fs gs : List Bytes} (hf : List.Forall₂ IsField ps fs)
    (hg : List.Forall₂ IsField qs gs) (h : frames fs = frames gs) : fs = gs :=
  frames_inj (fits_of_fields hf) (fits_of_fields hg) h

theorem isField_string {s : Str} {field : Bytes} :
    IsField (.string s) field ↔ bytesOf s = field ∧ field.length < 2 ^ 64 := by
  constructor
  · rintro ⟨⟨t, ht, hbytes⟩, hfits⟩
    obtain rfl : s = t := Except.ok.inj ht
    exact ⟨hbytes, hfits⟩
  · rintro ⟨hbytes, hfits⟩
    exact ⟨⟨s, rfl, hbytes⟩, hfits⟩

/-- Texts are hashed as their bytes. -/
theorem fields_of_strings {ss : List Str} {fields : List Bytes}
    (h : List.Forall₂ IsField (ss.map Value.string) fields) : fields = ss.map bytesOf := by
  induction ss generalizing fields with
  | nil =>
    cases h
    rfl
  | cons s ss ih =>
    cases h with
    | cons hfield hfields => rw [ih hfields, List.map_cons, (isField_string.mp hfield).1]

theorem fields_of_fits {ss : List Str} (h : ∀ s ∈ ss, (bytesOf s).length < 2 ^ 64) :
    List.Forall₂ IsField (ss.map Value.string) (ss.map bytesOf) := by
  induction ss with
  | nil => exact .nil
  | cons s ss ih =>
    rw [List.forall_mem_cons] at h
    exact .cons (isField_string.mpr ⟨rfl, h.1⟩) (ih h.2)

theorem sha256Hex_eq_ok {sha256 : Bytes → Bytes} {parts : List Value} {d : String} :
    sha256Hex sha256 parts = .ok d ↔
      ∃ b, preimage parts = .ok b ∧ hexEncode (sha256 b) = d := by
  rw [sha256Hex, bind_eq_ok]
  refine exists_congr fun b => and_congr_right fun _ => ?_
  exact ⟨Except.ok.inj, congrArg Except.ok⟩

/-! ## Claims -/

variable {sha256 : Bytes → Bytes} {ms ns : List (Str × Value)}

/-- The keys and the texts that are hashed for the members of an object. -/
def claimTexts (ms : List (Str × Value)) : List Str :=
  (sortMembers ms).flatMap fun m => [m.1, ofString (String.ofList m.2.write)]

theorem flatMap_claimParts (ms : List (Str × Value)) :
    (sortMembers ms).flatMap claimParts = (claimTexts ms).map Value.string := by
  rw [claimTexts, List.map_flatMap]
  rfl

theorem claimsParts_object (ms : List (Str × Value)) :
    claimsParts (.object ms) = .ok ((claimTexts ms).map Value.string) := by
  rw [← flatMap_claimParts]
  rfl

/-- What is hashed of the members: the bytes of each key, and the value up to numbers that JSON
has no text for. -/
def seen (ms : List (Str × Value)) : List (Bytes × Value) :=
  (sortMembers ms).map fun m => (bytesOf m.1, m.2.nulled)

/-- Alternating bytes of keys and of values determine both. -/
theorem claimBytes_eq_iff {ps qs : List (Str × Value)} :
    (ps.flatMap fun m => [bytesOf m.1, utf8 (String.ofList m.2.write)]) =
        (qs.flatMap fun m => [bytesOf m.1, utf8 (String.ofList m.2.write)]) ↔
      ps.map (fun m => (bytesOf m.1, m.2.nulled)) =
        qs.map fun m => (bytesOf m.1, m.2.nulled) := by
  induction ps generalizing qs with
  | nil => cases qs <;> simp
  | cons p ps ih =>
    cases qs with
    | nil => simp
    | cons q qs =>
      rw [List.flatMap_cons, List.flatMap_cons, List.map_cons, List.map_cons, List.cons_append,
        List.cons_append, List.cons_append, List.cons_append, List.nil_append, List.nil_append,
        List.cons.injEq, List.cons.injEq, List.cons.injEq, Prod.mk.injEq, utf8_inj,
        String.ofList_inj, write_eq_iff, ih, and_assoc]

theorem claimTexts_bytes (ms : List (Str × Value)) :
    (claimTexts ms).map bytesOf =
      (sortMembers ms).flatMap fun m => [bytesOf m.1, utf8 (String.ofList m.2.write)] := by
  rw [claimTexts, List.map_flatMap]
  simp only [List.map_cons, List.map_nil, bytesOf_ofString]

/-- A digest of claims is over the frames of the keys and the texts. -/
theorem claimsDigest_eq_ok {d : String} (h : claimsDigest sha256 (.object ms) = .ok d) :
    ∃ b, (claimsParts (.object ms) >>= preimage) = .ok b ∧
      List.Forall₂ IsField ((claimTexts ms).map Value.string) ((claimTexts ms).map bytesOf) ∧
      frames ((claimTexts ms).map bytesOf) = b ∧ hexEncode (sha256 b) = d := by
  rw [claimsDigest, claimsParts_object] at h
  obtain ⟨b, hb, hd⟩ := sha256Hex_eq_ok.mp h
  obtain ⟨fields, hfields, hframes⟩ := preimage_eq_ok.mp hb
  obtain rfl := fields_of_strings hfields
  refine ⟨b, ?_, hfields, hframes, hd⟩
  rw [claimsParts_object]
  exact hb

/-- Claims of a size that a text can have get a digest. -/
theorem exists_claimsDigest (sha256 : Bytes → Bytes)
    (h : ∀ m ∈ ms, (bytesOf m.1).length < 2 ^ 64 ∧
      (String.ofList m.2.write).utf8ByteSize < 2 ^ 64) :
    ∃ d, claimsDigest sha256 (.object ms) = .ok d := by
  have hfits : ∀ s ∈ claimTexts ms, (bytesOf s).length < 2 ^ 64 := by
    intro s hs
    rw [claimTexts, List.mem_flatMap] at hs
    obtain ⟨m, hm, hs⟩ := hs
    obtain ⟨hkey, hvalue⟩ := h m ((perm_sortMembers ms).mem_iff.mp hm)
    rcases List.mem_pair.mp hs with rfl | rfl
    · exact hkey
    · rwa [bytesOf_ofString, length_utf8]
  rw [claimsDigest, claimsParts_object]
  exact ⟨_, sha256Hex_eq_ok.mpr ⟨_, preimage_eq_ok.mpr ⟨_, fields_of_fits hfits, rfl⟩, rfl⟩⟩

/-- The bytes that are hashed for either of two claims objects. -/
def claimsPreimages (ms ns : List (Str × Value)) : Set Bytes :=
  {b | (claimsParts (.object ms) >>= preimage) = .ok b ∨
    (claimsParts (.object ns) >>= preimage) = .ok b}

/-- What is hashed for claims is the frames of their texts. -/
theorem claimsPreimage_eq {b : Bytes} (h : (claimsParts (.object ms) >>= preimage) = .ok b) :
    frames ((claimTexts ms).map bytesOf) = b := by
  rw [claimsParts_object] at h
  obtain ⟨fields, hfields, rfl⟩ := preimage_eq_ok.mp h
  rw [fields_of_strings hfields]

/-- A hash has no collision on two preimages that it tells apart. -/
theorem injOn_claimsPreimages
    (h : sha256 (frames ((claimTexts ms).map bytesOf)) =
        sha256 (frames ((claimTexts ns).map bytesOf)) →
      (claimTexts ms).map bytesOf = (claimTexts ns).map bytesOf) :
    Set.InjOn sha256 (claimsPreimages ms ns) := by
  rintro b (hb | hb) c (hc | hc) heq
  all_goals
    have hb' := claimsPreimage_eq hb
    have hc' := claimsPreimage_eq hc
    subst hb' hc'
  · rfl
  · rw [h heq]
  · rw [h heq.symm]
  · rfl

/-- Without a collision the digests are equal when what is hashed is. -/
theorem claimsDigest_eq_iff {d e : String} (hsha : Set.InjOn sha256 (claimsPreimages ms ns))
    (hd : claimsDigest sha256 (.object ms) = .ok d)
    (he : claimsDigest sha256 (.object ns) = .ok e) : d = e ↔ seen ms = seen ns := by
  obtain ⟨b, hb, hfields, hframes, rfl⟩ := claimsDigest_eq_ok hd
  obtain ⟨c, hc, hfields', hframes', rfl⟩ := claimsDigest_eq_ok he
  rw [seen, seen, ← claimBytes_eq_iff, ← claimTexts_bytes, ← claimTexts_bytes]
  constructor
  · intro h
    have hbytes : b = c := hsha (.inl hb) (.inr hc) (hexEncode_injective h)
    exact fields_eq hfields hfields' (hframes.trans (hbytes.trans hframes'.symm))
  · intro h
    rw [← hframes, ← hframes', h]

/-! ## Which claims a digest tells apart -/

/-- The same claims, of which one has its own keys in another order. -/
def Reordered (ms ns : List (Str × Value)) : Prop :=
  (Value.object ms).Same (.object ns) ∧ ∃ k x y, (k, x) ∈ ms ∧ (k, y) ∈ ns ∧ x ≠ y

/-- Different claims that differ only in halves of characters in their keys, or where one has
`null` and the other a number that JSON has no text for. -/
def Blurred (ms ns : List (Str × Value)) : Prop :=
  ¬ (Value.object ms).Same (.object ns) ∧ seen ms = seen ns

/-- The same objects have the same keys in the order they are hashed. -/
theorem sortedKeys_eq (hms : (Value.object ms).Distinct) (hns : (Value.object ns).Distinct)
    (h : (Value.object ms).Same (.object ns)) :
    (sortMembers ms).map Prod.fst = (sortMembers ns).map Prod.fst := by
  rw [same_iff hms hns, Value.sorted, Value.sorted, Value.object.injEq, sortedMembers_eq,
    sortedMembers_eq, ← map_sortMembers, ← map_sortMembers] at h
  have hkeys := congrArg (List.map Prod.fst) h
  rw [List.map_map, List.map_map] at hkeys
  exact hkeys

/-- What is hashed of two objects with the same keys is equal when the values under each key
have one text. -/
theorem nulled_eq_of_seen (hms : (Value.object ms).Distinct) (hns : (Value.object ns).Distinct)
    (hsame : (Value.object ms).Same (.object ns)) (h : seen ms = seen ns) {k : Str}
    {x y : Value} (hx : (k, x) ∈ ms) (hy : (k, y) ∈ ns) : x.nulled = y.nulled := by
  have hvalues := congrArg (List.map Prod.snd) h
  rw [seen, seen, List.map_map, List.map_map] at hvalues
  have hzip : (sortMembers ms).map (fun m => (m.1, m.2.nulled)) =
      (sortMembers ns).map fun m => (m.1, m.2.nulled) := by
    calc (sortMembers ms).map (fun m => (m.1, m.2.nulled))
        = ((sortMembers ms).map Prod.fst).zip ((sortMembers ms).map fun m => m.2.nulled) :=
          List.zip_map'.symm
      _ = ((sortMembers ns).map Prod.fst).zip ((sortMembers ns).map fun m => m.2.nulled) :=
          congrArg₂ List.zip (sortedKeys_eq hms hns hsame) hvalues
      _ = (sortMembers ns).map fun m => (m.1, m.2.nulled) := List.zip_map'
  have hmem : (k, x.nulled) ∈ (sortMembers ns).map fun m => (m.1, m.2.nulled) := by
    rw [← hzip]
    exact List.mem_map.mpr ⟨(k, x), (perm_sortMembers ms).mem_iff.mpr hx, rfl⟩
  obtain ⟨n, hn, heq⟩ := List.mem_map.mp hmem
  obtain ⟨hkey, hvalue⟩ := Prod.mk.inj heq
  obtain rfl := eq_of_key_eq hns.1 ((perm_sortMembers ns).mem_iff.mp hn) hy hkey
  exact hvalue.symm

/-- Of the same claims the same is hashed when no claim has its keys in another order. -/
theorem seen_eq_iff (hms : (Value.object ms).Distinct) (hns : (Value.object ns).Distinct)
    (hsame : (Value.object ms).Same (.object ns)) :
    seen ms = seen ns ↔ ∀ k x y, (k, x) ∈ ms → (k, y) ∈ ns → x = y := by
  have hfind : ∀ m ∈ ms, ∃ y, (m.1, y) ∈ ns ∧ m.2.Same y := sameMembers_iff.mp hsame.2
  constructor
  · intro h k x y hx hy
    obtain ⟨z, hz, hxz⟩ := hfind _ hx
    obtain rfl : z = y := (Prod.mk.inj (eq_of_key_eq hns.1 hz hy rfl)).2
    exact eq_of_same (allDistinctMembers_iff.mp hns.2 _ hy) hxz
      (nulled_eq_of_seen hms hns hsame h hx hy)
  · intro h
    have hsub : ms ⊆ ns := by
      intro m hm
      obtain ⟨y, hy, -⟩ := hfind m hm
      rw [← h m.1 m.2 y hm hy] at hy
      exact hy
    have hperm : ms.Perm ns :=
      (List.Nodup.subperm (List.Nodup.of_map _ hms.1) hsub).perm_of_length_le
        (le_of_eq hsame.1.symm)
    rw [seen, seen, (sortMembers_eq_iff hms.1).mpr hperm]

/-- Members with well-formed keys and finite numbers are read off what is hashed. -/
theorem sortMembers_of_seen (h : ∀ m ∈ ms, (∃ s, m.1 = ofString s) ∧ m.2.Finite) :
    (seen ms).map (fun p => (ofString ((ofUtf8 p.1).getD ""), p.2)) = sortMembers ms := by
  rw [seen, List.map_map]
  calc _ = (sortMembers ms).map id := by
        refine List.map_congr_left fun m hm => ?_
        obtain ⟨⟨s, hs⟩, hfinite⟩ := h m ((perm_sortMembers ms).mem_iff.mp hm)
        refine Prod.ext ?_ (nulled_of_finite hfinite)
        show ofString ((ofUtf8 (bytesOf m.1)).getD "") = m.1
        rw [hs, bytesOf_ofString, ofUtf8_utf8]
        rfl
    _ = sortMembers ms := List.map_id _

/-- Such members are told apart. -/
theorem not_blurred (hms : (Value.object ms).Distinct)
    (h : ∀ m ∈ ms, (∃ s, m.1 = ofString s) ∧ m.2.Finite)
    (h' : ∀ n ∈ ns, (∃ s, n.1 = ofString s) ∧ n.2.Finite) : ¬ Blurred ms ns := by
  rintro ⟨hne, hseen⟩
  have hsort : sortMembers ms = sortMembers ns := by
    rw [← sortMembers_of_seen h, hseen, sortMembers_of_seen h']
  exact hne (same_of_perm hms ((sortMembers_eq_iff hms.1).mp hsort))

/-- The digests of two claims objects are equal exactly when the objects are, up to the order of
keys, unless one claim has its own keys in another order, or only what has no text of its own
differs. -/
theorem claimsDigest_exact_iff {d e : String} (hms : (Value.object ms).Distinct)
    (hns : (Value.object ns).Distinct) (hsha : Set.InjOn sha256 (claimsPreimages ms ns))
    (hd : claimsDigest sha256 (.object ms) = .ok d)
    (he : claimsDigest sha256 (.object ns) = .ok e) :
    (d = e ↔ (Value.object ms).Same (.object ns)) ↔ ¬ (Reordered ms ns ∨ Blurred ms ns) := by
  rw [claimsDigest_eq_iff hsha hd he, not_or]
  by_cases hsame : (Value.object ms).Same (.object ns)
  · have hclear : ¬ Blurred ms ns := fun h => h.1 hsame
    rw [iff_true_right hsame, seen_eq_iff hms hns hsame, and_iff_left hclear]
    constructor
    · rintro h ⟨-, k, x, y, hx, hy, hne⟩
      exact hne (h k x y hx hy)
    · intro h k x y hx hy
      by_contra hne
      exact h ⟨hsame, k, x, y, hx, hy, hne⟩
  · have hordered : ¬ Reordered ms ns := fun h => hsame h.1
    rw [iff_false_right hsame, and_iff_right hordered]
    exact ⟨fun h hblurred => h hblurred.2, fun h hseen => h ⟨hsame, hseen⟩⟩

/-! ## Samples -/

def sampleClaims : List (Str × Value) :=
  [(ofString "accreditedInvestor", .bool true), (ofString "jurisdiction", text "SG")]

theorem sampleClaims_distinct {l : List (Str × Value)} (h : l.Perm sampleClaims) :
    (Value.object l).Distinct := by
  refine ⟨?_, allDistinctMembers_iff.mpr fun m hm => ?_⟩
  · have hkeys : (["accreditedInvestor", "jurisdiction"].map ofString).Nodup :=
      nodup_ofString (by decide)
    exact (h.map Prod.fst).nodup_iff.mpr hkeys
  · rw [h.mem_iff, sampleClaims, List.mem_pair] at hm
    rcases hm with rfl | rfl <;> trivial

theorem exists_sampleDigest {l : List (Str × Value)} (h : l.Perm sampleClaims) :
    ∃ d, claimsDigest Sha256.sha256 (.object l) = .ok d := by
  refine exists_claimsDigest Sha256.sha256 fun m hm => ?_
  rw [h.mem_iff, sampleClaims, List.mem_pair] at hm
  rcases hm with rfl | rfl
  · rw [bytesOf_ofString, length_utf8]
    decide
  · rw [bytesOf_ofString, length_utf8]
    decide

/-- Flat claims in another order have the same digest. -/
theorem claimsDigest_exact_sample :
    ∃ d e, claimsDigest Sha256.sha256 (.object sampleClaims) = .ok d ∧
      claimsDigest Sha256.sha256 (.object sampleClaims.reverse) = .ok e ∧ d = e := by
  have hperm : sampleClaims.reverse.Perm sampleClaims := List.reverse_perm _
  have hms := sampleClaims_distinct (.refl _)
  have hsame : (Value.object sampleClaims).Same (.object sampleClaims.reverse) :=
    same_of_perm hms hperm.symm
  obtain ⟨d, hd⟩ := exists_sampleDigest (.refl _)
  obtain ⟨e, he⟩ := exists_sampleDigest hperm
  have hordered : ¬ Reordered sampleClaims sampleClaims.reverse := by
    rintro ⟨-, k, x, y, hx, hy, hne⟩
    rw [hperm.mem_iff] at hy
    exact hne (Prod.mk.inj (eq_of_key_eq hms.1 hx hy rfl)).2
  refine ⟨d, e, hd, he, ?_⟩
  have hexact := claimsDigest_exact_iff hms (sampleClaims_distinct hperm)
    (injOn_claimsPreimages fun _ => by decide +kernel) hd he
  exact (hexact.mpr (not_or.mpr ⟨hordered, fun h => h.1 hsame⟩)).mpr hsame

/-- The members of a credential's status. -/
def sampleStatus : List (Str × Value) :=
  [(ofString "id", text "status-7"), (ofString "type", text "BitstringStatusListEntry")]

def statusClaims (status : List (Str × Value)) : List (Str × Value) :=
  [(ofString "credentialStatus", .object status)]

theorem statusClaims_distinct {l : List (Str × Value)} (h : l.Perm sampleStatus) :
    (Value.object (statusClaims l)).Distinct := by
  have hkeys : (["id", "type"].map ofString).Nodup := nodup_ofString (by decide)
  refine ⟨List.nodup_singleton _, ⟨(h.map Prod.fst).nodup_iff.mpr hkeys, ?_⟩, trivial⟩
  refine allDistinctMembers_iff.mpr fun m hm => ?_
  rw [h.mem_iff, sampleStatus, List.mem_pair] at hm
  rcases hm with rfl | rfl <;> trivial

theorem exists_statusDigest {l : List (Str × Value)}
    (h : l = sampleStatus ∨ l = sampleStatus.reverse) :
    ∃ d, claimsDigest Sha256.sha256 (.object (statusClaims l)) = .ok d := by
  refine exists_claimsDigest Sha256.sha256 fun m hm => ?_
  rw [statusClaims, List.mem_singleton] at hm
  rw [hm, bytesOf_ofString, length_utf8]
  rcases h with rfl | rfl
  · decide
  · decide

/-- The order of the keys inside a claim changes the digest. -/
theorem claimsDigest_not_exact :
    (Value.object (statusClaims sampleStatus)).Same
        (.object (statusClaims sampleStatus.reverse)) ∧
      ∃ d e, claimsDigest Sha256.sha256 (.object (statusClaims sampleStatus)) = .ok d ∧
        claimsDigest Sha256.sha256 (.object (statusClaims sampleStatus.reverse)) = .ok e ∧ d ≠ e := by
  have hperm : sampleStatus.reverse.Perm sampleStatus := List.reverse_perm _
  have hms := statusClaims_distinct (.refl _)
  obtain ⟨d, hd⟩ := exists_statusDigest (.inl rfl)
  obtain ⟨e, he⟩ := exists_statusDigest (.inr rfl)
  refine ⟨⟨rfl, ⟨_, List.mem_singleton_self _, same_of_perm hms.2.1 hperm.symm⟩, trivial⟩,
    d, e, hd, he, fun h => ?_⟩
  have hsha : Sha256.sha256 (frames ((claimTexts (statusClaims sampleStatus)).map bytesOf)) ≠
      Sha256.sha256 (frames ((claimTexts (statusClaims sampleStatus.reverse)).map bytesOf)) := by
    decide +kernel
  have hseen :=
    (claimsDigest_eq_iff (injOn_claimsPreimages fun heq => absurd heq hsha) hd he).mp h
  -- the first key of the status is `id` in one and `type` in the other
  have hvalue := (Prod.mk.inj (List.cons.inj hseen).1).2
  have hkey := (Prod.mk.inj (List.cons.inj (Value.object.inj hvalue)).1).1
  exact ofString_ne (by decide) hkey

end Gatekeeper.Agent.Digests
