import Gatekeeper.Agent.StatusListTheorems

/-!
# What a published list revokes

`buildStatusList` turns away an index past the end and passes a negative one on to `setBit`,
which drops it or marks another holder.
-/

namespace Gatekeeper.Agent

open Bitstring Encoding Js

/-! ## The loop -/

/-- The indices that stop the loop, over this many bytes. -/
def Stops (length bytes : ℕ) (i : Whole) : Prop :=
  (length : ℤ) ≤ i.val ∨ 8 * (bytes : ℤ) ≤ toInt32 i.val

/-- Setting a bit fails past the last byte only. -/
theorem setBit_true_cases (bytes : Bytes) (i : Whole) :
    (8 * (bytes.length : ℤ) ≤ toInt32 i.val ∧ ∃ e, setBit bytes i true = .error e) ∨
    (toInt32 i.val < 8 * (bytes.length : ℤ) ∧ ∃ marked, setBit bytes i true = .ok marked ∧
      marked.length = bytes.length ∧
      ∀ m, bitAt marked m = 1 ↔ bitAt bytes m = 1 ∨ toInt32 i.val = m) := by
  rw [setBit_whole]
  by_cases hneg : toInt32 i.val < 0
  · refine .inr ⟨by omega, bytes, by rw [if_pos hneg], rfl, fun m => ?_⟩
    rw [or_iff_left (by omega)]
  rw [if_neg hneg]
  by_cases hend : 8 * (bytes.length : ℤ) ≤ toInt32 i.val
  · exact .inl ⟨hend, by rw [if_pos hend]; exact ⟨_, rfl⟩⟩
  · refine .inr ⟨by omega, _, by rw [if_neg hend], length_writeBit _ _ _, fun m => ?_⟩
    rw [bitAt_writeBit (by omega)]
    by_cases hm : m = (toInt32 i.val).toNat
    · rw [if_pos hm]
      exact ⟨fun _ => .inr (by omega), fun _ => rfl⟩
    · rw [if_neg hm, or_iff_left (by omega)]

/-- The loop throws at the first index that stops it; otherwise it marks the low 32 bits of
each. -/
theorem markRevoked_cases (length : ℕ) (revoked : List Whole) (bytes : Bytes) :
    ((∃ i ∈ revoked, Stops length bytes.length i) ∧
      ∃ e, markRevoked length revoked bytes = .error e) ∨
    ((∀ i ∈ revoked, ¬ Stops length bytes.length i) ∧
      ∃ marked, markRevoked length revoked bytes = .ok marked ∧ marked.length = bytes.length ∧
        ∀ m, bitAt marked m = 1 ↔ bitAt bytes m = 1 ∨ ∃ i ∈ revoked, toInt32 i.val = m) := by
  induction revoked generalizing bytes with
  | nil =>
    refine .inr ⟨by simp, bytes, rfl, rfl, fun m => ?_⟩
    simp
  | cons i revoked ih =>
    rw [markRevoked]
    by_cases hlength : (length : ℤ) ≤ i.val
    · rw [if_pos hlength]
      exact .inl ⟨⟨i, List.mem_cons_self, .inl hlength⟩, _, rfl⟩
    rw [if_neg hlength]
    rcases setBit_true_cases bytes i with ⟨hend, e, he⟩ | ⟨hend, next, hnext, hlen, hbits⟩
    · rw [he]
      exact .inl ⟨⟨i, List.mem_cons_self, .inr hend⟩, e, rfl⟩
    rw [hnext]
    have hstep : ((.ok next : Except Error Bytes) >>= fun bytes =>
        markRevoked length revoked bytes) = markRevoked length revoked next := rfl
    rw [hstep]
    have hi : ¬ Stops length bytes.length i := by
      rintro (h | h) <;> omega
    rcases ih next with ⟨⟨j, hj, hstop⟩, he⟩ | ⟨hnone, marked, hmarked, hmarkedLen, hmarkedBits⟩
    · rw [hlen] at hstop
      exact .inl ⟨⟨j, List.mem_cons_of_mem _ hj, hstop⟩, he⟩
    · rw [hlen] at hnone
      refine .inr ⟨?_, marked, hmarked, by omega, fun m => ?_⟩
      · rintro j hj
        rcases List.mem_cons.mp hj with rfl | hj
        · exact hi
        · exact hnone j hj
      · rw [hmarkedBits, hbits]
        simp only [List.mem_cons, exists_eq_or_imp, or_assoc]

/-! ## The document -/

def listBytes (length : ℕ) : ℕ := (length + 7) / 8

/-- The list a document holds. -/
def publishedList (doc : Value) : Value := (doc.get? "credentialSubject").get? "encodedList"

theorem publishedList_document (N : Node) (o : StatusListOptions) (bytes : Bytes) :
    publishedList (statusListDocument N o bytes) = .string (encodeList N bytes) := by
  rw [publishedList, statusListDocument]
  split <;> simp [Value.get?, List.lookup_cons, statusListSubject]

/-- A list of sufficient length is published unless an index stops the loop, and then holds the
low 32 bits of each index. -/
theorem buildStatusList_cases {N : Node} (hN : N.Lawful) {o : StatusListOptions}
    (hmin : minimumEntries ≤ o.length) :
    ((∃ i ∈ o.revoked, Stops o.length (listBytes o.length) i) ∧
      ∃ e, buildStatusList N o = .error e) ∨
    ((∀ i ∈ o.revoked, ¬ Stops o.length (listBytes o.length) i) ∧
      ∃ doc marked, buildStatusList N o = .ok doc ∧
        decodeList N (publishedList doc) = .ok marked ∧ marked.length = listBytes o.length ∧
        ∀ m, bitAt marked m = 1 ↔ ∃ i ∈ o.revoked, toInt32 i.val = m) := by
  have hbuild : buildStatusList N o =
      (markRevoked o.length o.revoked (List.replicate (listBytes o.length) 0)).map
        (statusListDocument N o) := by
    rw [buildStatusList, if_neg (not_lt.mpr hmin)]
    rfl
  rw [hbuild]
  have hcases := markRevoked_cases o.length o.revoked (List.replicate (listBytes o.length) 0)
  simp only [List.length_replicate, bitAt_zeros, Nat.zero_ne_one, false_or] at hcases
  rcases hcases with ⟨hstop, e, he⟩ | ⟨hnone, marked, hmarked, hlen, hbits⟩
  · rw [he]
    exact .inl ⟨hstop, e, rfl⟩
  · rw [hmarked]
    refine .inr ⟨hnone, _, marked, rfl, ?_, hlen, hbits⟩
    rw [publishedList_document, decodeList_encodeList hN]

/-- What a publisher asks of `buildStatusList`: it throws when an index is outside the list, and
only then; otherwise exactly the indices asked for read one. And `setBit` changes one bit, which
can be put back. -/
structure PublishesExactly (N : Node) (o : StatusListOptions) : Prop where
  throws_iff : (∃ e, buildStatusList N o = .error e) ↔
    ∃ i ∈ o.revoked, i.val < 0 ∨ o.length ≤ i.val
  marks : ∀ doc, buildStatusList N o = .ok doc →
    ∃ bytes, decodeList N (publishedList doc) = .ok bytes ∧
      ∀ i : Whole, 0 ≤ i.val → i.val < o.length →
        (getBit bytes (.whole i) = .ok 1 ↔ i ∈ o.revoked)
  sets : ∀ (bytes : Bytes) (i : Whole) (on : Bool), bytes.length ≤ listBytes o.length →
    0 ≤ i.val → i.val < 8 * bytes.length →
    ∃ written, setBit bytes i on = .ok written ∧ written.length = bytes.length ∧
      getBit written (.whole i) = .ok on.toNat ∧
      (∀ j : Whole, j ≠ i → 0 ≤ j.val → j.val < 8 * bytes.length →
        getBit written (.whole j) = getBit bytes (.whole j)) ∧
      ∃ old, setBit written i old = .ok bytes

/-- The lists of indices that are treated so: without a negative index, or with one that stops
the loop. -/
def IndicesCaught (o : StatusListOptions) : Prop :=
  (∀ i ∈ o.revoked, 0 ≤ i.val) ∨ ∃ i ∈ o.revoked, Stops o.length (listBytes o.length) i

theorem getBit_of_inside {bytes : Bytes} {i : Whole} (h0 : 0 ≤ i.val)
    (hlt : i.val < 8 * bytes.length) (h : i.val < 2 ^ 31) :
    getBit bytes (.whole i) = .ok (bitAt bytes i.val.toNat) := (readsBit_of_lt h).inside h0 hlt

theorem setBit_of_inside {bytes : Bytes} {i : Whole} (h0 : 0 ≤ i.val)
    (hlt : i.val < 8 * bytes.length) (h : i.val < 2 ^ 31) (on : Bool) :
    setBit bytes i on = .ok (writeBit bytes i.val.toNat on) := by
  rw [setBit_whole, toInt32_of_lt h0 h, if_neg (by omega), if_neg (by omega)]

/-- Over a list of at most `2 ^ 31` bits `setBit` writes the one bit, and can be undone. -/
theorem setBit_exact {bytes : Bytes} {i : Whole} (on : Bool) (hlen : 8 * bytes.length ≤ 2 ^ 31)
    (h0 : 0 ≤ i.val) (hlt : i.val < 8 * bytes.length) :
    ∃ written, setBit bytes i on = .ok written ∧ written.length = bytes.length ∧
      getBit written (.whole i) = .ok on.toNat ∧
      (∀ j : Whole, j ≠ i → 0 ≤ j.val → j.val < 8 * bytes.length →
        getBit written (.whole j) = getBit bytes (.whole j)) ∧
      ∃ old, setBit written i old = .ok bytes := by
  have hi : i.val.toNat < 8 * bytes.length := by omega
  refine ⟨_, setBit_of_inside h0 hlt (by omega) on, length_writeBit _ _ _, ?_, ?_, ?_⟩
  · rw [getBit_of_inside h0 (by simpa using hlt) (by omega), bitAt_writeBit hi, if_pos rfl]
  · intro j hne hj hjlt
    have hne' : j.val.toNat ≠ i.val.toNat := fun h => hne (whole_ext (by omega))
    rw [getBit_of_inside hj (by simpa using hjlt) (by omega), getBit_of_inside hj hjlt (by omega),
      bitAt_writeBit hi, if_neg hne']
  · refine ⟨bitAt bytes i.val.toNat == 1, ?_⟩
    rw [setBit_of_inside h0 (by simpa using hlt) (by omega), writeBit_undo hi]

/-- An index within the list does not stop the loop. -/
theorem outside_of_stops {length : ℕ} (hmax : length < 2 ^ 31) {i : Whole}
    (h : Stops length (listBytes length) i) : i.val < 0 ∨ length ≤ i.val := by
  rcases h with h | h
  · exact .inr h
  · by_contra hin
    rw [toInt32_of_lt (by omega) (by omega), listBytes] at h
    omega

theorem throws_iff_of_caught {N : Node} (hN : N.Lawful) {o : StatusListOptions}
    (hmin : minimumEntries ≤ o.length) (hmax : o.length < 2 ^ 31) (hcaught : IndicesCaught o) :
    (∃ e, buildStatusList N o = .error e) ↔ ∃ i ∈ o.revoked, i.val < 0 ∨ o.length ≤ i.val := by
  rcases buildStatusList_cases hN hmin with
    ⟨⟨i, hi, hstop⟩, he⟩ | ⟨hnone, doc, marked, hdoc, -⟩
  · exact ⟨fun _ => ⟨i, hi, outside_of_stops hmax hstop⟩, fun _ => he⟩
  · constructor
    · rintro ⟨e, he⟩
      rw [hdoc] at he
      cases he
    · rintro ⟨i, hi, hneg | hlength⟩
      · rcases hcaught with hall | ⟨j, hj, hstop⟩
        · have := hall i hi
          omega
        · exact absurd hstop (hnone j hj)
      · exact absurd (.inl hlength) (hnone i hi)

theorem marks_of_caught {N : Node} (hN : N.Lawful) {o : StatusListOptions}
    (hmin : minimumEntries ≤ o.length) (hmax : o.length < 2 ^ 31) (hcaught : IndicesCaught o)
    {doc : Value} (hdoc : buildStatusList N o = .ok doc) :
    ∃ bytes, decodeList N (publishedList doc) = .ok bytes ∧
      ∀ i : Whole, 0 ≤ i.val → i.val < o.length →
        (getBit bytes (.whole i) = .ok 1 ↔ i ∈ o.revoked) := by
  rcases buildStatusList_cases hN hmin with
    ⟨-, e, he⟩ | ⟨hnone, doc', marked, hdoc', hdecode, hlen, hbits⟩
  · rw [hdoc] at he
    cases he
  · obtain rfl := Except.ok.inj (hdoc.symm.trans hdoc')
    refine ⟨marked, hdecode, fun i h0 hlt => ?_⟩
    have hall : ∀ j ∈ o.revoked, toInt32 j.val = j.val := by
      intro j hj
      have hlength := mt Or.inl (hnone j hj)
      rcases hcaught with hall | ⟨k, hk, hstop⟩
      · exact toInt32_of_lt (hall j hj) (by omega)
      · exact absurd hstop (hnone k hk)
    have hin : i.val < 8 * marked.length := by
      rw [hlen, listBytes]
      omega
    rw [getBit_of_inside h0 hin (by omega), Except.ok.injEq, hbits]
    constructor
    · rintro ⟨j, hj, heq⟩
      rw [hall j hj] at heq
      rwa [whole_ext (m := i) (n := j) (by omega)]
    · intro hi
      exact ⟨i, hi, by rw [hall i hi]; omega⟩

/-- A negative index that does not stop the loop is the one thing a publisher is not told
about. -/
theorem publishesExactly_iff {N : Node} (hN : N.Lawful) {o : StatusListOptions}
    (hmin : minimumEntries ≤ o.length) (hmax : o.length < 2 ^ 31) :
    PublishesExactly N o ↔ IndicesCaught o := by
  have hbytes : 8 * listBytes o.length ≤ 2 ^ 31 := by
    rw [listBytes]
    omega
  constructor
  · intro h
    rcases buildStatusList_cases hN hmin with ⟨hstop, -⟩ | ⟨-, doc, marked, hdoc, -⟩
    · exact .inr hstop
    · refine .inl fun i hi => ?_
      by_contra hneg
      obtain ⟨e, he⟩ := h.throws_iff.mpr ⟨i, hi, .inl (by omega)⟩
      rw [hdoc] at he
      cases he
  · intro hcaught
    exact ⟨throws_iff_of_caught hN hmin hmax hcaught,
      fun doc hdoc => marks_of_caught hN hmin hmax hcaught hdoc,
      fun bytes i on hlen h0 hlt => setBit_exact on (by omega) h0 hlt⟩

def smallWhole (n : ℤ) (h : n.natAbs < 2 ^ 53) : Whole := ⟨n, Double.isDouble_of_lt h⟩

def sampleListOptions : StatusListOptions where
  id := "https://example.test/status/1"
  revoked := [smallWhole 3 (by decide), smallWhole 99 (by decide), smallWhole 131071 (by decide),
    smallWhole 3 (by decide)]

theorem publishesExactly_sample : PublishesExactly sampleNode sampleListOptions := by
  have hcaught : IndicesCaught sampleListOptions := .inl (by decide)
  exact (publishesExactly_iff lawful_sampleNode (le_refl _) (by decide)).mpr hcaught

/-- A publisher that asks for holder -1. -/
def negativeListOptions : StatusListOptions where
  id := "https://example.test/status/1"
  revoked := [smallWhole (-1) (by decide)]

/-- It gets a document that marks nobody. -/
theorem negative_index_published :
    ¬ ∀ (N : Node) (o : StatusListOptions), N.Lawful → minimumEntries ≤ o.length →
      o.length < 2 ^ 31 → PublishesExactly N o := by
  intro h
  have hexact := h sampleNode negativeListOptions lawful_sampleNode (le_refl _) (by decide)
  have hnone : ∀ i ∈ negativeListOptions.revoked,
      ¬ Stops negativeListOptions.length (listBytes negativeListOptions.length) i := by
    intro i hi
    obtain rfl := List.mem_singleton.mp hi
    rintro (hstop | hstop)
    · exact absurd hstop (by decide)
    · exact absurd hstop (by decide)
  obtain ⟨e, he⟩ := hexact.throws_iff.mpr ⟨_, List.mem_singleton_self _, .inl (by decide)⟩
  rcases buildStatusList_cases lawful_sampleNode (o := negativeListOptions) (le_refl _) with
    ⟨⟨i, hi, hstop⟩, -⟩ | ⟨-, doc, marked, hdoc, -⟩
  · exact hnone i hi hstop
  · rw [hdoc] at he
    cases he

end Gatekeeper.Agent
