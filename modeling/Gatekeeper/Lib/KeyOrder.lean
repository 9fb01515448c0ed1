import Mathlib.Data.List.Perm.Subperm
import Mathlib.Data.List.Sort
import Mathlib.Data.List.Lex
import Gatekeeper.Lib.EcmaJson

/-!
# Objects up to the order of their keys

The order of keys by code units, equality of values up to the order of keys at every depth, and
the forms that decide it: a value with its keys sorted, and one with `null` for each number
that JSON has no text for.
-/

namespace Ecma

open Js

/-! ## Sorted members -/

/-- The order of `sort`, by code units. -/
def keyLe (s t : Str) : Prop := s.map UInt16.toNat ≤ t.map UInt16.toNat

instance : DecidableRel keyLe := fun s t =>
  inferInstanceAs (Decidable (s.map UInt16.toNat ≤ t.map UInt16.toNat))

theorem keyLe_antisymm {s t : Str} (h : keyLe s t) (h' : keyLe t s) : s = t :=
  List.map_injective_iff.mpr (fun _ _ => UInt16.toNat_inj.mp) (le_antisymm h h')

theorem not_keyLe_nil (u : UInt16) (us : Str) : ¬ keyLe (u :: us) [] := by
  intro h
  exact absurd h (not_le_of_gt (List.nil_lt_cons u.toNat (us.map UInt16.toNat)))

/-- Texts in order begin with code units in order. -/
theorem le_of_keyLe {u v : UInt16} {us vs : Str} (h : keyLe (u :: us) (v :: vs)) :
    u.toNat ≤ v.toNat := by
  by_contra hlt
  exact not_le_of_gt (List.Lex.rel (not_le.mp hlt)) h

section
variable {α β : Type}

def memberLe (m n : Str × α) : Prop := keyLe m.1 n.1

instance : DecidableRel (@memberLe α) := fun m n => inferInstanceAs (Decidable (keyLe m.1 n.1))

instance : Std.Total (@memberLe α) := ⟨fun _ _ => le_total _ _⟩

instance : IsTrans (Str × α) memberLe := ⟨fun _ _ _ => le_trans⟩

def sortMembers (ms : List (Str × α)) : List (Str × α) := ms.insertionSort memberLe

theorem perm_sortMembers (ms : List (Str × α)) : (sortMembers ms).Perm ms :=
  List.perm_insertionSort _ ms

/-- Sorting does not look at the values. -/
theorem map_sortMembers (f : α → β) (ms : List (Str × α)) :
    (sortMembers ms).map (fun m => (m.1, f m.2)) =
      sortMembers (ms.map fun m => (m.1, f m.2)) :=
  List.map_insertionSort _ _ _ ms fun _ _ _ _ => Iff.rfl

/-- Members with the same key are one, when the keys are distinct. -/
theorem eq_of_key_eq {ms : List (Str × α)} (h : (ms.map Prod.fst).Nodup) {m n : Str × α}
    (hm : m ∈ ms) (hn : n ∈ ms) (hkey : m.1 = n.1) : m = n :=
  List.inj_on_of_nodup_map h hm hn hkey

/-- Distinct keys in another order are sorted alike. -/
theorem sortMembers_eq_iff {ms ns : List (Str × α)} (h : (ms.map Prod.fst).Nodup) :
    sortMembers ms = sortMembers ns ↔ ms.Perm ns := by
  constructor
  · intro heq
    have hperm := perm_sortMembers ns
    rw [← heq] at hperm
    exact (perm_sortMembers ms).symm.trans hperm
  · intro hperm
    have hsorted : (sortMembers ms).Perm (sortMembers ns) :=
      (perm_sortMembers ms).trans (hperm.trans (perm_sortMembers ns).symm)
    refine List.Perm.eq_of_pairwise ?_ (List.pairwise_insertionSort memberLe ms)
      (List.pairwise_insertionSort memberLe ns) hsorted
    intro m n hm hn hle hle'
    have hn' : n ∈ ms := hperm.mem_iff.mpr ((perm_sortMembers ns).mem_iff.mp hn)
    exact eq_of_key_eq h ((perm_sortMembers ms).mem_iff.mp hm) hn' (keyLe_antisymm hle hle')

end

/-! ## Equality up to the order of keys -/

mutual

/-- No object has a key twice. -/
def Value.Distinct : Value → Prop
  | .array xs => allDistinct xs
  | .object ms => (ms.map Prod.fst).Nodup ∧ allDistinctMembers ms
  | _ => True

def allDistinct : List Value → Prop
  | [] => True
  | x :: xs => x.Distinct ∧ allDistinct xs

def allDistinctMembers : List (Str × Value) → Prop
  | [] => True
  | (_, x) :: ms => x.Distinct ∧ allDistinctMembers ms

end

mutual

/-- The values are equal up to the order of keys at every depth. -/
def Value.Same : Value → Value → Prop
  | .null, .null => True
  | .bool a, .bool b => a = b
  | .number x, .number y => x = y
  | .string s, .string t => s = t
  | .array xs, .array ys => sameElements xs ys
  | .object ms, .object ns => ms.length = ns.length ∧ sameMembers ms ns
  | _, _ => False

def sameElements : List Value → List Value → Prop
  | [], [] => True
  | x :: xs, y :: ys => x.Same y ∧ sameElements xs ys
  | _, _ => False

/-- Each member stands somewhere among those of the other object. -/
def sameMembers : List (Str × Value) → List (Str × Value) → Prop
  | [], _ => True
  | (k, x) :: ms, ns => (∃ y, (k, y) ∈ ns ∧ x.Same y) ∧ sameMembers ms ns

end

mutual

/-- The value with the keys of every object in order. -/
def Value.sorted : Value → Value
  | .array xs => .array (sortedElements xs)
  | .object ms => .object (sortMembers (sortedMembers ms))
  | v => v

def sortedElements : List Value → List Value
  | [] => []
  | x :: xs => x.sorted :: sortedElements xs

def sortedMembers : List (Str × Value) → List (Str × Value)
  | [] => []
  | (k, x) :: ms => (k, x.sorted) :: sortedMembers ms

end

theorem sortedMembers_eq (ms : List (Str × Value)) :
    sortedMembers ms = ms.map fun m => (m.1, m.2.sorted) := by
  induction ms with
  | nil => rfl
  | cons m ms ih => rw [sortedMembers, ih, List.map_cons]

theorem sameMembers_iff {ms ns : List (Str × Value)} :
    sameMembers ms ns ↔ ∀ m ∈ ms, ∃ y, (m.1, y) ∈ ns ∧ m.2.Same y := by
  induction ms with
  | nil => simp [sameMembers]
  | cons m ms ih => rw [sameMembers, ih, List.forall_mem_cons]

theorem allDistinctMembers_iff {ms : List (Str × Value)} :
    allDistinctMembers ms ↔ ∀ m ∈ ms, m.2.Distinct := by
  induction ms with
  | nil => simp [allDistinctMembers]
  | cons m ms ih => rw [allDistinctMembers, ih, List.forall_mem_cons]

/-- Objects are the same when the members of one, with sorted values, are those of the other. -/
theorem sameMembers_iff_perm {ms ns : List (Str × Value)} (hms : (ms.map Prod.fst).Nodup)
    (h : ∀ m ∈ ms, ∀ n ∈ ns, m.2.Same n.2 ↔ m.2.sorted = n.2.sorted) :
    ms.length = ns.length ∧ sameMembers ms ns ↔ (sortedMembers ms).Perm (sortedMembers ns) := by
  rw [sortedMembers_eq, sortedMembers_eq, sameMembers_iff]
  have hnodup : (ms.map fun m => (m.1, m.2.sorted)).Nodup := by
    refine List.Nodup.of_map Prod.fst ?_
    rw [List.map_map]
    exact hms
  constructor
  · rintro ⟨hlen, hmem⟩
    refine (List.Nodup.subperm hnodup fun p hp => ?_).perm_of_length_le (by simp [hlen])
    obtain ⟨m, hm, rfl⟩ := List.mem_map.mp hp
    obtain ⟨y, hy, hsame⟩ := hmem m hm
    rw [(h m hm _ hy).mp hsame]
    exact List.mem_map.mpr ⟨_, hy, rfl⟩
  · intro hperm
    refine ⟨by simpa using hperm.length_eq, fun m hm => ?_⟩
    obtain ⟨n, hn, heq⟩ := List.mem_map.mp (hperm.mem_iff.mp (List.mem_map.mpr ⟨m, hm, rfl⟩))
    obtain ⟨hkey, hvalue⟩ := Prod.mk.inj heq
    exact ⟨n.2, by rw [← hkey]; exact hn, (h m hm n hn).mpr hvalue.symm⟩

mutual

/-- Values without repeated keys are the same when they are equal with sorted keys. -/
theorem same_iff : ∀ {v : Value}, v.Distinct → ∀ {w : Value}, w.Distinct →
    (v.Same w ↔ v.sorted = w.sorted)
  | .null, _, w, _ => by cases w <;> simp [Value.Same, Value.sorted]
  | .bool _, _, w, _ => by cases w <;> simp [Value.Same, Value.sorted]
  | .number _, _, w, _ => by cases w <;> simp [Value.Same, Value.sorted]
  | .string _, _, w, _ => by cases w <;> simp [Value.Same, Value.sorted]
  | .array xs, hv, w, hw => by
    cases w with
    | array ys =>
      rw [Value.Same, Value.sorted, Value.sorted, Value.array.injEq]
      exact sameElements_iff hv hw
    | _ => simp [Value.Same, Value.sorted]
  | .object ms, hv, w, hw => by
    cases w with
    | object ns =>
      have hkeys : ((sortedMembers ms).map Prod.fst).Nodup := by
        rw [sortedMembers_eq, List.map_map]
        exact hv.1
      rw [Value.Same, Value.sorted, Value.sorted, Value.object.injEq, sortMembers_eq_iff hkeys]
      exact sameMembers_iff_perm hv.1 fun m hm n hn =>
        members_same_iff hv.2 m hm (allDistinctMembers_iff.mp hw.2 n hn)
    | _ => simp [Value.Same, Value.sorted]

theorem sameElements_iff : ∀ {xs : List Value}, allDistinct xs → ∀ {ys : List Value},
    allDistinct ys → (sameElements xs ys ↔ sortedElements xs = sortedElements ys)
  | [], _, ys, _ => by cases ys <;> simp [sameElements, sortedElements]
  | x :: xs, h, ys, h' => by
    cases ys with
    | nil => simp [sameElements, sortedElements]
    | cons y ys =>
      rw [sameElements, sortedElements, sortedElements, List.cons.injEq, same_iff h.1 h'.1,
        sameElements_iff h.2 h'.2]

theorem members_same_iff : ∀ {ms : List (Str × Value)}, allDistinctMembers ms → ∀ m ∈ ms,
    ∀ {w : Value}, w.Distinct → (m.2.Same w ↔ m.2.sorted = w.sorted)
  | [], _ => fun _ hm => absurd hm List.not_mem_nil
  | (_, _) :: _, h => List.forall_mem_cons.mpr ⟨same_iff h.1, members_same_iff h.2⟩

end

/-! ## What JSON has text for -/

mutual

/-- The value with `null` for each number that is not finite. -/
def Value.nulled : Value → Value
  | .number x => if x.isFinite then .number x else .null
  | .array xs => .array (nulledElements xs)
  | .object ms => .object (nulledMembers ms)
  | v => v

def nulledElements : List Value → List Value
  | [] => []
  | x :: xs => x.nulled :: nulledElements xs

def nulledMembers : List (Str × Value) → List (Str × Value)
  | [] => []
  | (k, x) :: ms => (k, x.nulled) :: nulledMembers ms

end

theorem nulledMembers_eq (ms : List (Str × Value)) :
    nulledMembers ms = ms.map fun m => (m.1, m.2.nulled) := by
  induction ms with
  | nil => rfl
  | cons m ms ih => rw [nulledMembers, ih, List.map_cons]

mutual

theorem nulled_finite : ∀ v : Value, v.nulled.Finite
  | .number x => by
    rw [Value.nulled]
    split_ifs with h
    · exact h
    · trivial
  | .array xs => nulledElements_finite xs
  | .object ms => nulledMembers_finite ms
  | .null | .bool _ | .string _ => trivial

theorem nulledElements_finite : ∀ xs : List Value, allFinite (nulledElements xs)
  | [] => trivial
  | x :: xs => ⟨nulled_finite x, nulledElements_finite xs⟩

theorem nulledMembers_finite : ∀ ms : List (Str × Value), allFiniteMembers (nulledMembers ms)
  | [] => trivial
  | (_, x) :: ms => ⟨nulled_finite x, nulledMembers_finite ms⟩

end

mutual

theorem nulled_of_finite : ∀ {v : Value}, v.Finite → v.nulled = v
  | .number _, h => if_pos h
  | .array _, h => congrArg _ (nulledElements_of_finite h)
  | .object _, h => congrArg _ (nulledMembers_of_finite h)
  | .null, _ | .bool _, _ | .string _, _ => rfl

theorem nulledElements_of_finite : ∀ {xs : List Value}, allFinite xs → nulledElements xs = xs
  | [], _ => rfl
  | _ :: _, h => by rw [nulledElements, nulled_of_finite h.1, nulledElements_of_finite h.2]

theorem nulledMembers_of_finite : ∀ {ms : List (Str × Value)}, allFiniteMembers ms →
    nulledMembers ms = ms
  | [], _ => rfl
  | (_, _) :: _, h => by rw [nulledMembers, nulled_of_finite h.1, nulledMembers_of_finite h.2]

end

mutual

theorem nulled_distinct : ∀ {v : Value}, v.Distinct → v.nulled.Distinct
  | .number x, _ => by
    rw [Value.nulled]
    split_ifs <;> trivial
  | .array _, h => nulledElements_distinct h
  | .object ms, h => by
    refine ⟨?_, nulledMembers_distinct h.2⟩
    rw [nulledMembers_eq, List.map_map]
    exact h.1
  | .null, _ | .bool _, _ | .string _, _ => trivial

theorem nulledElements_distinct : ∀ {xs : List Value}, allDistinct xs →
    allDistinct (nulledElements xs)
  | [], _ => trivial
  | _ :: _, h => ⟨nulled_distinct h.1, nulledElements_distinct h.2⟩

theorem nulledMembers_distinct : ∀ {ms : List (Str × Value)}, allDistinctMembers ms →
    allDistinctMembers (nulledMembers ms)
  | [], _ => trivial
  | (_, _) :: _, h => ⟨nulled_distinct h.1, nulledMembers_distinct h.2⟩

end

mutual

/-- The text does not tell such a number from `null`. -/
theorem write_nulled : ∀ v : Value, v.nulled.write = v.write
  | .number x => by
    rw [Value.nulled]
    split_ifs with h
    · rfl
    · rw [Value.write, Value.write, writeNumber, if_neg h]
  | .array xs => by rw [Value.nulled, Value.write, Value.write, writeElements_nulled]
  | .object ms => by rw [Value.nulled, Value.write, Value.write, writeMembers_nulled]
  | .null | .bool _ | .string _ => rfl

theorem writeElements_nulled : ∀ xs : List Value,
    writeElements (nulledElements xs) = writeElements xs
  | [] => rfl
  | x :: xs => by
    rw [nulledElements, writeElements, writeElements, write_nulled x, writeElements_nulled xs]

theorem writeMembers_nulled : ∀ ms : List (Str × Value),
    writeMembers (nulledMembers ms) = writeMembers ms
  | [] => rfl
  | (k, x) :: ms => by
    rw [nulledMembers, writeMembers, writeMembers, write_nulled x, writeMembers_nulled ms]

end

/-- Texts are equal when the values are, but for numbers that JSON has no text for. -/
theorem write_eq_iff {v w : Value} : v.write = w.write ↔ v.nulled = w.nulled := by
  constructor
  · intro h
    have hv := readText_write (nulled_finite v)
    rw [write_nulled, h, ← write_nulled w, readText_write (nulled_finite w)] at hv
    exact (Option.some.inj hv).symm
  · intro h
    rw [← write_nulled v, h, write_nulled]

mutual

theorem nulled_sorted : ∀ v : Value, v.sorted.nulled = v.nulled.sorted
  | .number x => by
    show (Value.number x).nulled = (Value.number x).nulled.sorted
    rw [Value.nulled]
    split_ifs <;> rfl
  | .array xs => by
    rw [Value.sorted, Value.nulled, Value.nulled, Value.sorted, nulledElements_sorted]
  | .object ms => by
    rw [Value.sorted, Value.nulled, Value.nulled, Value.sorted, nulledMembers_eq,
      map_sortMembers Value.nulled, ← nulledMembers_eq, nulledMembers_sorted]
  | .null | .bool _ | .string _ => rfl

theorem nulledElements_sorted : ∀ xs : List Value,
    nulledElements (sortedElements xs) = sortedElements (nulledElements xs)
  | [] => rfl
  | x :: xs => by
    rw [sortedElements, nulledElements, nulledElements, sortedElements, nulled_sorted x,
      nulledElements_sorted xs]

theorem nulledMembers_sorted : ∀ ms : List (Str × Value),
    nulledMembers (sortedMembers ms) = sortedMembers (nulledMembers ms)
  | [] => rfl
  | (k, x) :: ms => by
    rw [sortedMembers, nulledMembers, nulledMembers, sortedMembers, nulled_sorted x,
      nulledMembers_sorted ms]

end

/-- The text with sorted keys tells values apart up to the order of their keys, and up to
numbers that JSON has no text for. -/
theorem write_sorted_eq_iff {v w : Value} (hv : v.Distinct) (hw : w.Distinct) :
    v.sorted.write = w.sorted.write ↔ v.nulled.Same w.nulled := by
  rw [write_eq_iff, nulled_sorted, nulled_sorted,
    same_iff (nulled_distinct hv) (nulled_distinct hw)]

mutual

/-- Values that are equal up to the order of keys, and have their keys in one order, are equal. -/
theorem eq_of_same : ∀ {v w : Value}, w.Distinct → v.Same w → v.nulled = w.nulled → v = w
  | .null, w, _, hsame, _ => by
    cases w with
    | null => rfl
    | _ => exact hsame.elim
  | .bool _, w, _, hsame, _ => by
    cases w with
    | bool _ => exact congrArg _ hsame
    | _ => exact hsame.elim
  | .number _, w, _, hsame, _ => by
    cases w with
    | number _ => exact congrArg _ hsame
    | _ => exact hsame.elim
  | .string _, w, _, hsame, _ => by
    cases w with
    | string _ => exact congrArg _ hsame
    | _ => exact hsame.elim
  | .array xs, w, hw, hsame, h => by
    cases w with
    | array ys => exact congrArg _ (elements_eq_of_same hw hsame (Value.array.inj h))
    | _ => exact hsame.elim
  | .object ms, w, hw, hsame, h => by
    cases w with
    | object ns =>
      exact congrArg _ (members_eq_of_same hw.1 (allDistinctMembers_iff.mp hw.2) hsame.2
        (fun n hn => hn) (Value.object.inj h))
    | _ => exact hsame.elim

theorem elements_eq_of_same : ∀ {xs ys : List Value}, allDistinct ys → sameElements xs ys →
    nulledElements xs = nulledElements ys → xs = ys
  | [], ys, _, hsame, _ => by
    cases ys with
    | nil => rfl
    | cons _ _ => exact hsame.elim
  | x :: xs, ys, hys, hsame, h => by
    cases ys with
    | nil => exact hsame.elim
    | cons y ys =>
      obtain ⟨hfirst, hrest⟩ := List.cons.inj h
      rw [eq_of_same hys.1 hsame.1 hfirst, elements_eq_of_same hys.2 hsame.2 hrest]

/-- The members found by key among `all` are those at the same places of `ns`. -/
theorem members_eq_of_same {all : List (Str × Value)} (hkeys : (all.map Prod.fst).Nodup)
    (hall : ∀ n ∈ all, n.2.Distinct) : ∀ {ms ns : List (Str × Value)}, sameMembers ms all →
    (∀ n ∈ ns, n ∈ all) → nulledMembers ms = nulledMembers ns → ms = ns
  | [], ns, _, _, h => by
    cases ns with
    | nil => rfl
    | cons _ _ => cases h
  | (k, x) :: ms, ns, hsame, hmem, h => by
    cases ns with
    | nil => cases h
    | cons n ns =>
      obtain ⟨j, z⟩ := n
      rw [List.forall_mem_cons] at hmem
      obtain ⟨⟨y, hy, hxy⟩, hsame⟩ := hsame
      obtain ⟨hfirst, hrest⟩ := List.cons.inj h
      obtain ⟨rfl, hvalue⟩ := Prod.mk.inj hfirst
      obtain rfl : y = z := (Prod.mk.inj (eq_of_key_eq hkeys hy hmem.1 rfl)).2
      rw [eq_of_same (hall _ hy) hxy hvalue, members_eq_of_same hkeys hall hsame hmem.2 hrest]

end

/-- Members in another order make the same object. -/
theorem same_of_perm {ms ns : List (Str × Value)} (hms : (Value.object ms).Distinct)
    (h : ms.Perm ns) : (Value.object ms).Same (.object ns) := by
  have hns : ∀ n ∈ ns, n.2.Distinct := fun n hn =>
    allDistinctMembers_iff.mp hms.2 n (h.mem_iff.mpr hn)
  have hsorted : (sortedMembers ms).Perm (sortedMembers ns) := by
    rw [sortedMembers_eq, sortedMembers_eq]
    exact h.map _
  exact (sameMembers_iff_perm hms.1 fun m hm n hn =>
    members_same_iff hms.2 m hm (hns n hn)).mpr hsorted

theorem nulled_same {v w : Value} (hv : v.Distinct) (hw : w.Distinct) (h : v.Same w) :
    v.nulled.Same w.nulled := by
  rw [same_iff hv hw] at h
  rw [same_iff (nulled_distinct hv) (nulled_distinct hw), ← nulled_sorted, ← nulled_sorted, h]

end Ecma
