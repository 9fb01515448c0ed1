import Mathlib.Data.List.Basic
import Mathlib.Order.Lattice

/-!
# Reading a list page by page

A list whose items carry keys, the greatest first, is read in pages. A page holds the first items
with keys below a cursor, and its own cursor is the key of its last item while items remain.
What was read, followed by what is below the cursor, is the whole list throughout.
-/

namespace Paging

variable {α κ : Type} [LinearOrder κ] {key : α → κ}

/-- The greatest key first, no key twice. -/
def Descending (key : α → κ) (l : List α) : Prop := l.Pairwise fun a b => key b < key a

/-- The items below a cursor, or all of them without one. -/
def below (key : α → κ) (l : List α) : Option κ → List α
  | none => l
  | some k => l.filter fun a => key a < k

/-- The cursor behind the first `m` of the items. -/
def cursorAfter (key : α → κ) (l : List α) (m : ℕ) : Option κ :=
  if l.drop m = [] then none else (l.take m).getLast?.map key

/-- What was read, followed by what is below the cursor, is the list. -/
def Splits (key : α → κ) (l read : List α) (cursor : Option κ) : Prop :=
  read ++ below key l cursor = l

theorem splits_start (key : α → κ) (l : List α) : Splits key l [] none := rfl

/-- Below the key of an item are the items that follow it. -/
theorem below_of_append {read rest : List α} {a : α} (h : Descending key (read ++ rest))
    (ha : read.getLast? = some a) : below key (read ++ rest) (some (key a)) = rest := by
  obtain ⟨init, rfl⟩ := List.getLast?_eq_some_iff.mp ha
  rw [Descending, List.pairwise_append] at h
  obtain ⟨hread, -, hcross⟩ := h
  rw [List.pairwise_append] at hread
  have hlast : a ∈ init ++ [a] := List.mem_append_right _ (List.mem_singleton_self a)
  rw [below, List.filter_append, List.filter_eq_nil_iff.mpr, List.nil_append,
    List.filter_eq_self.mpr]
  · exact fun b hb => decide_eq_true (hcross a hlast b hb)
  · intro b hb
    rw [decide_eq_true_eq, not_lt]
    rcases List.mem_append.mp hb with hb | hb
    · exact le_of_lt (hread.2.2 b hb a (List.mem_singleton_self a))
    · rw [List.mem_singleton.mp hb]

/-- A page splits the list further on. -/
theorem Splits.next {l read : List α} {cursor : Option κ} {k : κ} {m : ℕ}
    (hl : Descending key l) (h : Splits key l read cursor)
    (hk : cursorAfter key (below key l cursor) m = some k) :
    Splits key l (read ++ (below key l cursor).take m) (some k) := by
  rw [cursorAfter] at hk
  split_ifs at hk with hrest
  obtain ⟨a, ha, rfl⟩ := Option.map_eq_some_iff.mp hk
  have hsplit : read ++ (below key l cursor).take m ++ (below key l cursor).drop m = l := by
    rw [List.append_assoc, List.take_append_drop]
    exact h
  have hlast : (read ++ (below key l cursor).take m).getLast? = some a := by
    rw [List.getLast?_append, ha]
    rfl
  have hbelow := below_of_append (hsplit.symm ▸ hl) hlast
  rw [hsplit] at hbelow
  rw [Splits, hbelow]
  exact hsplit

/-- Behind a page that leaves items there is an item with a smaller key. -/
theorem exists_below {l : List α} {k : κ} {m : ℕ} (hl : Descending key l)
    (hk : cursorAfter key l m = some k) : ∃ a ∈ l, key a < k := by
  rw [cursorAfter] at hk
  split_ifs at hk with hrest
  obtain ⟨a, ha, rfl⟩ := Option.map_eq_some_iff.mp hk
  obtain ⟨b, rest, hb⟩ := List.exists_cons_of_ne_nil hrest
  have hmem : b ∈ l.drop m := hb ▸ List.mem_cons_self
  rw [Descending, ← List.take_append_drop m l, List.pairwise_append] at hl
  exact ⟨b, List.mem_of_mem_drop hmem, hl.2.2 a (List.mem_of_getLast? ha) b hmem⟩

omit [LinearOrder κ] in
/-- The page without a cursor of its own is the rest of the list. -/
theorem take_of_cursorAfter {l : List α} {m : ℕ} (hm : 0 < m)
    (h : cursorAfter key l m = none) : l.take m = l ∧ l.length ≤ m := by
  rw [cursorAfter] at h
  split_ifs at h with hrest
  · have hlength := List.drop_eq_nil_iff.mp hrest
    exact ⟨List.take_of_length_le hlength, hlength⟩
  · rw [Option.map_eq_none_iff, List.getLast?_eq_none_iff, List.take_eq_nil_iff] at h
    rcases h with h | rfl
    · omega
    · exact absurd List.drop_nil hrest

end Paging
