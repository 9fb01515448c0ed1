import Gatekeeper.Lib.Interaction

/-!
# Answers that are kept

A question that makes host calls, asked through a cache: an answer is kept under its key, a
failure is not. However the host answers, what is kept is never replaced, so one key has one
answer for as long as the cache lives.
-/

namespace Interaction

variable {Op : Type} {Res : Op → Type} {ε ε' κ α : Type}

/-! ## A failure as a value -/

/-- The program that returns how `p` ends. -/
def Prog.settle : Prog Op Res ε α → Prog Op Res ε' (Except ε α)
  | done r => done (.ok r)
  | call op k => call op fun x => (k x).settle

theorem emits_settle {p : Prog Op Res ε α} {t : List (Event Op Res)}
    {r : Except ε' (Except ε α)} : Emits p.settle t r ↔ ∃ x, Emits p t x ∧ r = .ok x := by
  induction p generalizing t with
  | done x =>
    rw [Prog.settle, emits_done]
    constructor
    · rintro ⟨rfl, rfl⟩
      exact ⟨x, emits_done.mpr ⟨rfl, rfl⟩, rfl⟩
    · rintro ⟨y, hy, rfl⟩
      obtain ⟨rfl, rfl⟩ := emits_done.mp hy
      exact ⟨rfl, rfl⟩
  | call op k ih =>
    simp only [Prog.settle, emits_call, ih]
    constructor
    · rintro ⟨answer, t', rfl, x, hx, rfl⟩
      exact ⟨x, ⟨answer, t', rfl, hx⟩, rfl⟩
    · rintro ⟨x, ⟨answer, t', rfl, hx⟩, rfl⟩
      exact ⟨answer, t', rfl, x, hx, rfl⟩

/-! ## The cache -/

variable [DecidableEq κ]

/-- What is kept, by key. -/
abbrev Cache (κ α : Type) : Type := κ → Option α

def Cache.empty : Cache κ α := fun _ => none

/-- What is kept after a question. -/
def Cache.keep (c : Cache κ α) (k : κ) : Except ε α → Cache κ α
  | .ok a => Function.update c k (some a)
  | .error _ => c

/-- Ask for what a key stands for, with the question that finds it out. -/
def ask (find : κ → Prog Op Res ε α) (c : Cache κ α) (k : κ) :
    Prog Op Res ε' (Except ε α × Cache κ α) :=
  match c k with
  | some a => pure (.ok a, c)
  | none => (find k).settle >>= fun x => pure (x, c.keep k x)

theorem emits_ask {find : κ → Prog Op Res ε α} {c : Cache κ α} {k : κ} {t : List (Event Op Res)}
    {r : Except ε' (Except ε α × Cache κ α)} :
    Emits (ask find c k) t r ↔
      (∃ a, c k = some a ∧ t = [] ∧ r = .ok (.ok a, c)) ∨
      (c k = none ∧ ∃ x, Emits (find k) t x ∧ r = .ok (x, c.keep k x)) := by
  rw [ask]
  cases hk : c k with
  | some a =>
    constructor
    · intro h
      obtain ⟨rfl, rfl⟩ := emits_pure.mp h
      exact .inl ⟨a, rfl, rfl, rfl⟩
    · rintro (⟨b, hb, rfl, rfl⟩ | ⟨hnone, -⟩)
      · cases hb
        exact emits_pure.mpr ⟨rfl, rfl⟩
      · cases hnone
  | none =>
    simp only [emits_bind_pure, emits_settle]
    constructor
    · rintro ⟨-, ⟨x, hx, rfl⟩, rfl⟩
      exact .inr ⟨trivial, x, hx, rfl⟩
    · rintro (⟨b, hb, -⟩ | ⟨-, x, hx, rfl⟩)
      · cases hb
      · exact ⟨.ok x, ⟨x, hx, rfl⟩, rfl⟩

/-! ## What is kept stays -/

/-- What the one cache has, the other has as well. -/
def Cache.Grows (c c' : Cache κ α) : Prop := ∀ k a, c k = some a → c' k = some a

omit [DecidableEq κ] in
theorem Cache.Grows.refl (c : Cache κ α) : c.Grows c := fun _ _ h => h

omit [DecidableEq κ] in
theorem Cache.Grows.trans {c c' c'' : Cache κ α} (h : c.Grows c') (h' : c'.Grows c'') :
    c.Grows c'' := fun k a hk => h' k a (h k a hk)

theorem Cache.grows_keep {c : Cache κ α} {k : κ} (h : c k = none) (x : Except ε α) :
    c.Grows (c.keep k x) := by
  cases x with
  | error e => exact .refl c
  | ok a =>
    intro j b hj
    have hne : j ≠ k := by
      rintro rfl
      rw [h] at hj
      cases hj
    rw [keep, Function.update_of_ne hne, hj]

/-- What is kept after a question was kept before, or it is the answer to the question. -/
theorem Cache.of_keep {c : Cache κ α} {j k : κ} {x : Except ε α} {b : α}
    (h : c.keep k x j = some b) : c j = some b ∨ j = k ∧ x = .ok b := by
  cases x with
  | error e => exact .inl h
  | ok a =>
    rw [keep] at h
    by_cases hj : j = k
    · subst hj
      rw [Function.update_self] at h
      exact .inr ⟨rfl, congrArg Except.ok (Option.some.inj h)⟩
    · rw [Function.update_of_ne hj] at h
      exact .inl h

/-- What a question asked through a cache leaves behind. -/
structure Asked (find : κ → Prog Op Res ε α) (c : Cache κ α) (k : κ) (t : List (Event Op Res))
    (x : Except ε α) (c' : Cache κ α) : Prop where
  grows : c.Grows c'
  kept : ∀ a, x = .ok a → c' k = some a
  lacking : ∀ e, x = .error e → c' k = none
  found : ∀ j b, c' j = some b → c j = some b ∨ j = k ∧ Emits (find k) t (.ok b)

theorem asked_of_emits {find : κ → Prog Op Res ε α} {c c' : Cache κ α} {k : κ}
    {t : List (Event Op Res)} {x : Except ε α}
    (h : Emits (ask find c k) t (.ok (x, c') : Except ε' _)) : Asked find c k t x c' := by
  rcases emits_ask.mp h with ⟨a, hk, -, hr⟩ | ⟨hk, y, hy, hr⟩
  · cases hr
    refine ⟨.refl c, fun b hb => ?_, fun e he => ?_, fun j b hj => .inl hj⟩
    · cases hb
      exact hk
    · cases he
  · cases hr
    refine ⟨Cache.grows_keep hk x, fun a ha => ?_, fun e he => ?_, fun j b hj => ?_⟩
    · rw [ha, Cache.keep, Function.update_self]
    · rw [he, Cache.keep, hk]
    · rcases Cache.of_keep hj with hc | ⟨hjk, rfl⟩
      · exact .inl hc
      · exact .inr ⟨hjk, hy⟩

end Interaction
