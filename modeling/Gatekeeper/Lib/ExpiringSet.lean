import Mathlib.Data.List.Nodup
import Mathlib.Order.Lattice

/-!
# Sets that forget

A set of keys, each held until a deadline. A visit at a time first drops the keys whose
deadline has passed, and then admits the key it brings unless the set still holds it. Over
visits in the order of time, the set admits no key twice exactly when each key comes back only
up to the deadline it was first held with.
-/

namespace ExpiringSet

variable {κ τ : Type} [DecidableEq κ] [LinearOrder τ]

/-- A key with the deadline it is to be held until. -/
structure Item (κ τ : Type) where
  key : κ
  deadline : τ

/-- A visit at a time, with or without a key to admit. -/
structure Visit (κ τ : Type) where
  time : τ
  item : Option (Item κ τ)

/-- The keys held, each with its deadline. -/
abbrev Held (κ τ : Type) : Type := List (Item κ τ)

def evict (now : τ) (s : Held κ τ) : Held κ τ := s.filter fun e => now ≤ e.deadline

def holds (s : Held κ τ) (k : κ) : Bool := s.any fun e => e.key = k

/-- Whether the visit's key is admitted, and what is held afterwards. -/
def admitKey (s : Held κ τ) (v : Visit κ τ) : Bool × Held κ τ :=
  match v.item with
  | none => (false, evict v.time s)
  | some i =>
    if holds (evict v.time s) i.key then (false, evict v.time s)
    else (true, evict v.time s ++ [i])

/-- The keys that a sequence of visits admits, in order. -/
def admitted : Held κ τ → List (Visit κ τ) → List κ
  | _, [] => []
  | s, v :: vs =>
    let rest := admitted (admitKey s v).2 vs
    if (admitKey s v).1 then (v.item.map (·.key)).toList ++ rest else rest

/-! ## What is held at a time -/

/-- A visit at time `t` would find the key. -/
def Alive (s : Held κ τ) (k : κ) (t : τ) : Prop := ∃ e ∈ s, e.key = k ∧ t ≤ e.deadline

theorem holds_evict {s : Held κ τ} {k : κ} {t : τ} : holds (evict t s) k = true ↔ Alive s k t := by
  simp only [holds, evict, List.any_eq_true, List.mem_filter, decide_eq_true_eq, Alive]
  constructor
  · rintro ⟨e, ⟨he, ht⟩, hk⟩
    exact ⟨e, he, hk, ht⟩
  · rintro ⟨e, he, hk, ht⟩
    exact ⟨e, ⟨he, ht⟩, hk⟩

omit [DecidableEq κ] in
/-- What is dropped at a time is not found at a later one. -/
theorem alive_evict {s : Held κ τ} {k : κ} {now t : τ} (h : now ≤ t) :
    Alive (evict now s) k t ↔ Alive s k t := by
  simp only [Alive, evict, List.mem_filter, decide_eq_true_eq]
  constructor
  · rintro ⟨e, ⟨he, _⟩, hk, ht⟩
    exact ⟨e, he, hk, ht⟩
  · rintro ⟨e, he, hk, ht⟩
    exact ⟨e, ⟨he, h.trans ht⟩, hk, ht⟩

omit [DecidableEq κ] in
theorem alive_append {s : Held κ τ} {i : Item κ τ} {k : κ} {t : τ} :
    Alive (s ++ [i]) k t ↔ Alive s k t ∨ (i.key = k ∧ t ≤ i.deadline) := by
  simp only [Alive, List.mem_append, List.mem_singleton]
  constructor
  · rintro ⟨e, he | rfl, hk, ht⟩
    · exact .inl ⟨e, he, hk, ht⟩
    · exact .inr ⟨hk, ht⟩
  · rintro (⟨e, he, hk, ht⟩ | ⟨hk, ht⟩)
    · exact ⟨e, .inl he, hk, ht⟩
    · exact ⟨i, .inr rfl, hk, ht⟩

/-- What is admitted is a key that is not held. -/
theorem admitKey_fst {s : Held κ τ} {v : Visit κ τ} :
    (admitKey s v).1 = true ↔ ∃ i, v.item = some i ∧ holds (evict v.time s) i.key = false := by
  unfold admitKey
  cases v.item with
  | none => simp
  | some i =>
    dsimp only
    cases hheld : holds (evict v.time s) i.key with
    | true => simp [hheld]
    | false => simp [hheld]

/-- The times at which a key is brought, each with the deadline it is brought with. -/
def returns (k : κ) (vs : List (Visit κ τ)) : List (τ × τ) :=
  vs.filterMap fun v => v.item.bind fun i => if i.key = k then some (v.time, i.deadline) else none

/-- The visit brings the key. -/
def Brings (k : κ) (v : Visit κ τ) : Prop := ∃ i, v.item = some i ∧ i.key = k

omit [LinearOrder τ] in
theorem returns_cons_of_not_brings {k : κ} {v : Visit κ τ} (h : ¬ Brings k v)
    (vs : List (Visit κ τ)) : returns k (v :: vs) = returns k vs := by
  refine List.filterMap_cons_none ?_
  cases hv : v.item with
  | none => rfl
  | some i => exact if_neg fun hk => h ⟨i, hv, hk⟩

omit [LinearOrder τ] in
theorem returns_cons_of_brings {k : κ} {v : Visit κ τ} {i : Item κ τ} (hv : v.item = some i)
    (hk : i.key = k) (vs : List (Visit κ τ)) :
    returns k (v :: vs) = (v.time, i.deadline) :: returns k vs := by
  refine List.filterMap_cons_some ?_
  rw [hv]
  exact if_pos hk

/-! ## One step, for one key -/

/-- A visit that does not bring the key neither admits it nor changes when it is found. -/
theorem step_of_not_brings {k : κ} {v : Visit κ τ} (h : ¬ Brings k v) (s : Held κ τ)
    (vs : List (Visit κ τ)) :
    (admitted s (v :: vs)).count k = (admitted (admitKey s v).2 vs).count k ∧
      ∀ t, v.time ≤ t → (Alive (admitKey s v).2 k t ↔ Alive s k t) := by
  cases hv : v.item with
  | none =>
    have hadmit : admitKey s v = (false, evict v.time s) := by rw [admitKey, hv]
    rw [admitted, hadmit]
    exact ⟨rfl, fun t ht => alive_evict ht⟩
  | some i =>
    have hk : i.key ≠ k := fun hk => h ⟨i, hv, hk⟩
    by_cases hheld : holds (evict v.time s) i.key = true
    · have hadmit : admitKey s v = (false, evict v.time s) := by
        rw [admitKey, hv]
        exact if_pos hheld
      rw [admitted, hadmit]
      exact ⟨rfl, fun t ht => alive_evict ht⟩
    · have hadmit : admitKey s v = (true, evict v.time s ++ [i]) := by
        rw [admitKey, hv]
        exact if_neg hheld
      rw [admitted, hadmit, hv]
      refine ⟨List.count_cons_of_ne hk, fun t ht => ?_⟩
      rw [alive_append, alive_evict ht, or_iff_left fun hi => hk hi.1]

/-- A visit that brings the key while it is found is turned away. -/
theorem step_of_alive {k : κ} {v : Visit κ τ} {i : Item κ τ} (hv : v.item = some i)
    (hk : i.key = k) {s : Held κ τ} (h : Alive s k v.time) (vs : List (Visit κ τ)) :
    admitted s (v :: vs) = admitted (evict v.time s) vs := by
  have hadmit : admitKey s v = (false, evict v.time s) := by
    rw [admitKey, hv]
    exact if_pos (holds_evict.mpr (hk ▸ h))
  rw [admitted, hadmit]
  rfl

/-- A visit that brings the key while it is not found gets it admitted. -/
theorem step_of_not_alive {k : κ} {v : Visit κ τ} {i : Item κ τ} (hv : v.item = some i)
    (hk : i.key = k) {s : Held κ τ} (h : ¬ Alive s k v.time) (vs : List (Visit κ τ)) :
    admitted s (v :: vs) = k :: admitted (evict v.time s ++ [i]) vs := by
  have hadmit : admitKey s v = (true, evict v.time s ++ [i]) := by
    rw [admitKey, hv]
    exact if_neg fun hheld => h (hk ▸ holds_evict.mp hheld)
  rw [admitted, hadmit, hv, ← hk]
  rfl

/-! ## Runs -/

/-- The visits come in the order of time, from `t` on. -/
def InOrder (t : τ) (vs : List (Visit κ τ)) : Prop :=
  (∀ v ∈ vs, t ≤ v.time) ∧ vs.Pairwise fun v w => v.time ≤ w.time

omit [DecidableEq κ] in
theorem inOrder_cons {t : τ} {v : Visit κ τ} {vs : List (Visit κ τ)} (h : InOrder t (v :: vs)) :
    t ≤ v.time ∧ InOrder v.time vs := by
  obtain ⟨hfrom, hpair⟩ := h
  rw [List.pairwise_cons] at hpair
  exact ⟨hfrom v List.mem_cons_self, hpair.1, hpair.2⟩

/-- While a key is held until a deadline, it is admitted again exactly when it comes back
later than that. -/
theorem not_mem_admitted_iff {k : κ} {d t : τ} {s : Held κ τ} {vs : List (Visit κ τ)}
    (hs : ∀ u, t ≤ u → (Alive s k u ↔ u ≤ d)) (hvs : InOrder t vs) :
    (admitted s vs).count k = 0 ↔ ∀ r ∈ returns k vs, r.1 ≤ d := by
  induction vs generalizing s t with
  | nil => simp [admitted, returns]
  | cons v vs ih =>
    obtain ⟨ht, hrest⟩ := inOrder_cons hvs
    by_cases hb : Brings k v
    · obtain ⟨i, hv, hk⟩ := hb
      rw [returns_cons_of_brings hv hk, List.forall_mem_cons]
      by_cases hd : v.time ≤ d
      · rw [step_of_alive hv hk ((hs _ ht).mpr hd), and_iff_right hd]
        exact ih (fun u hu => (alive_evict hu).trans (hs u (ht.trans hu))) hrest
      -- it comes back too late, and is admitted
      · rw [step_of_not_alive hv hk fun h => hd ((hs _ ht).mp h), List.count_cons_self]
        simp [hd]
    · obtain ⟨hcount, halive⟩ := step_of_not_brings hb s vs
      rw [hcount, returns_cons_of_not_brings hb]
      exact ih (fun u hu => (halive u hu).trans (hs u (ht.trans hu))) hrest

/-- A key that is not held is admitted at most once exactly when, after the first time it is
brought, it comes back only up to its deadline. -/
theorem count_admitted_le_one_iff {k : κ} {t : τ} {s : Held κ τ} {vs : List (Visit κ τ)}
    (hs : ∀ u, t ≤ u → ¬ Alive s k u) (hvs : InOrder t vs) :
    (admitted s vs).count k ≤ 1 ↔
      ∀ first rest, returns k vs = first :: rest → ∀ r ∈ rest, r.1 ≤ first.2 := by
  induction vs generalizing s t with
  | nil => simp [admitted, returns]
  | cons v vs ih =>
    obtain ⟨ht, hrest⟩ := inOrder_cons hvs
    by_cases hb : Brings k v
    · obtain ⟨i, hv, hk⟩ := hb
      have hheld : ∀ u, v.time ≤ u → (Alive (evict v.time s ++ [i]) k u ↔ u ≤ i.deadline) := by
        intro u hu
        rw [alive_append, alive_evict hu, or_iff_right (hs u (ht.trans hu)), and_iff_right hk]
      have hcount : (k :: admitted (evict v.time s ++ [i]) vs).count k ≤ 1 ↔
          (admitted (evict v.time s ++ [i]) vs).count k = 0 := by
        rw [List.count_cons_self]
        omega
      rw [step_of_not_alive hv hk (hs _ ht), returns_cons_of_brings hv hk, hcount,
        not_mem_admitted_iff hheld hrest]
      constructor
      · rintro h first rest hcons
        obtain ⟨rfl, rfl⟩ := List.cons.inj hcons
        exact h
      · exact fun h => h _ _ rfl
    · obtain ⟨hcount, halive⟩ := step_of_not_brings hb s vs
      rw [hcount, returns_cons_of_not_brings hb]
      exact ih (fun u hu h => hs u (ht.trans hu) ((halive u hu).mp h)) hrest

/-- From nothing held, no key is admitted twice exactly when each key comes back only up to the
deadline it was first brought with. -/
theorem nodup_admitted_iff {t : τ} {vs : List (Visit κ τ)} (hvs : InOrder t vs) :
    (admitted [] vs).Nodup ↔
      ∀ k first rest, returns k vs = first :: rest → ∀ r ∈ rest, r.1 ≤ first.2 := by
  rw [List.nodup_iff_count_le_one]
  have hnone : ∀ (k : κ) (u : τ), t ≤ u → ¬ Alive ([] : Held κ τ) k u := by
    rintro k u - ⟨e, he, -⟩
    cases he
  exact forall_congr' fun k => count_admitted_le_one_iff (hnone k) hvs

end ExpiringSet
