import Mathlib.Data.List.Basic
import Mathlib.Logic.Function.Basic
import Mathlib.Logic.Relation

/-!
# Programs that call a host

A program here is the tree of the host calls it makes: at each node it names an operation
and continues with whatever the host answers, and at a leaf it returns or fails. Three
readings of such a tree are developed, each on top of the previous one:

* the **traces** of a program, `Emits p t r`: the calls and answers `t` of a complete run
  that ends in `r`, under no assumption about the host;
* **sessions**, complete runs one after another against a host with a state;
* **pools**, programs running at the same time whose calls interleave one by one.

Nothing about particular operations is assumed; `Op` and `Res` are parameters.
-/

namespace Interaction

variable {Op : Type} {Res : Op → Type} {ε α β σ ι : Type}

/-- A program over the host operations `Op`, whose answer types are `Res`. It ends in a
value of `α` or fails with an `ε`. -/
inductive Prog (Op : Type) (Res : Op → Type) (ε α : Type) : Type where
  | done (r : Except ε α)
  | call (op : Op) (k : Res op → Prog Op Res ε α)

/-- One host call together with the answer it got. -/
structure Event (Op : Type) (Res : Op → Type) where
  op : Op
  res : Res op

namespace Prog

/-- Sequencing; a failure skips the rest. -/
protected def bind : Prog Op Res ε α → (α → Prog Op Res ε β) → Prog Op Res ε β
  | done (.ok a), f => f a
  | done (.error e), _ => done (.error e)
  | call op k, f => call op fun x => (k x).bind f

instance : Monad (Prog Op Res ε) where
  pure a := done (.ok a)
  bind := Prog.bind

theorem bind_done (p : Prog Op Res ε α) : p.bind (fun a => done (.ok a)) = p := by
  induction p with
  | done r => cases r <;> rfl
  | call op k ih => exact congrArg (call op) (funext ih)

theorem bind_bind {γ : Type} (p : Prog Op Res ε α) (f : α → Prog Op Res ε β)
    (g : β → Prog Op Res ε γ) : (p.bind f).bind g = p.bind fun a => (f a).bind g := by
  induction p with
  | done r => cases r <;> rfl
  | call op k ih => exact congrArg (call op) (funext ih)

instance : LawfulMonad (Prog Op Res ε) :=
  LawfulMonad.mk' (Prog Op Res ε) bind_done (fun _ _ => rfl) bind_bind

/-- Call the host once and return its answer. -/
def perform (op : Op) : Prog Op Res ε (Res op) := call op fun x => done (.ok x)

/-- Fail without calling the host. -/
def fail (e : ε) : Prog Op Res ε α := done (.error e)

/-- `try`: a failure of the first program, after the calls it made, is handled by the second. -/
protected def tryCatch : Prog Op Res ε α → (ε → Prog Op Res ε α) → Prog Op Res ε α
  | done (.ok a), _ => done (.ok a)
  | done (.error e), h => h e
  | call op k, h => call op fun x => (k x).tryCatch h

/-- A computation that makes no host call. -/
def ofExcept (r : Except ε α) : Prog Op Res ε α := done r

end Prog

open Prog

/-! ## Traces -/

/-- `Steps p t q`: after the calls and answers `t`, what is left of `p` is `q`. -/
inductive Steps : Prog Op Res ε α → List (Event Op Res) → Prog Op Res ε α → Prop where
  | nil (p : Prog Op Res ε α) : Steps p [] p
  | cons {op : Op} {k : Res op → Prog Op Res ε α} {x : Res op} {t : List (Event Op Res)}
      {q : Prog Op Res ε α} : Steps (k x) t q → Steps (.call op k) (⟨op, x⟩ :: t) q

/-- `Emits p t r`: a complete run of `p` can make the calls and get the answers `t`, and
then ends in `r`. -/
def Emits (p : Prog Op Res ε α) (t : List (Event Op Res)) (r : Except ε α) : Prop :=
  Steps p t (.done r)

@[simp] theorem emits_done {r r' : Except ε α} {t : List (Event Op Res)} :
    Emits (.done r' : Prog Op Res ε α) t r ↔ t = [] ∧ r = r' := by
  constructor
  · rintro ⟨⟩
    exact ⟨rfl, rfl⟩
  · rintro ⟨rfl, rfl⟩
    exact Steps.nil _

@[simp] theorem emits_call {op : Op} {k : Res op → Prog Op Res ε α} {t : List (Event Op Res)}
    {r : Except ε α} :
    Emits (.call op k) t r ↔ ∃ x t', t = ⟨op, x⟩ :: t' ∧ Emits (k x) t' r := by
  constructor
  · intro h
    cases h with
    | cons h => exact ⟨_, _, rfl, h⟩
  · rintro ⟨x, t', rfl, h⟩
    exact Steps.cons h

@[simp] theorem emits_pure {a : α} {t : List (Event Op Res)} {r : Except ε α} :
    Emits (pure a : Prog Op Res ε α) t r ↔ t = [] ∧ r = .ok a := emits_done

@[simp] theorem emits_fail {e : ε} {t : List (Event Op Res)} {r : Except ε α} :
    Emits (fail e : Prog Op Res ε α) t r ↔ t = [] ∧ r = .error e := emits_done

@[simp] theorem emits_ofExcept {r r' : Except ε α} {t : List (Event Op Res)} :
    Emits (ofExcept r' : Prog Op Res ε α) t r ↔ t = [] ∧ r = r' := emits_done

@[simp] theorem emits_perform {op : Op} {t : List (Event Op Res)} {r : Except ε (Res op)} :
    Emits (perform op) t r ↔ ∃ x, t = [⟨op, x⟩] ∧ r = .ok x := by
  simp only [perform, emits_call, emits_done]
  constructor
  · rintro ⟨x, t', rfl, rfl, rfl⟩
    exact ⟨x, rfl, rfl⟩
  · rintro ⟨x, rfl, rfl⟩
    exact ⟨x, [], rfl, rfl, rfl⟩

/-- The runs of a sequence: either the first part fails and that is the whole run, or it
returns and the rest runs on its value. -/
theorem emits_bind {p : Prog Op Res ε α} {f : α → Prog Op Res ε β} {t : List (Event Op Res)}
    {r : Except ε β} :
    Emits (p >>= f) t r ↔
      (∃ e, Emits p t (.error e) ∧ r = .error e) ∨
      (∃ a t₁ t₂, t = t₁ ++ t₂ ∧ Emits p t₁ (.ok a) ∧ Emits (f a) t₂ r) := by
  show Emits (p.bind f) t r ↔ _
  induction p generalizing t with
  | done r' =>
    rcases r' with e | a
    -- a failure is the whole run: `f` is never reached
    · simp only [Prog.bind, emits_done]
      constructor
      · rintro ⟨rfl, rfl⟩
        exact .inl ⟨e, ⟨rfl, rfl⟩, rfl⟩
      · rintro (⟨e', ⟨rfl, h⟩, rfl⟩ | ⟨a, t₁, t₂, rfl, ⟨rfl, h⟩, _⟩)
        · cases h
          exact ⟨rfl, rfl⟩
        · cases h
    · simp only [Prog.bind, emits_done]
      constructor
      · intro h
        exact .inr ⟨a, [], t, rfl, ⟨rfl, rfl⟩, h⟩
      · rintro (⟨e', ⟨rfl, h⟩, rfl⟩ | ⟨a', t₁, t₂, rfl, ⟨rfl, h⟩, h'⟩)
        · cases h
        · cases h
          exact h'
  | call op k ih =>
    simp only [Prog.bind, emits_call, ih]
    constructor
    -- the first call belongs to `p`, so it joins whichever run of `p` the rest gives
    · rintro ⟨x, t', rfl, ⟨e, h, rfl⟩ | ⟨a, t₁, t₂, rfl, h₁, h₂⟩⟩
      · exact .inl ⟨e, ⟨x, t', rfl, h⟩, rfl⟩
      · exact .inr ⟨a, ⟨op, x⟩ :: t₁, t₂, rfl, ⟨x, t₁, rfl, h₁⟩, h₂⟩
    · rintro (⟨e, ⟨x, t', rfl, h⟩, rfl⟩ | ⟨a, _, t₂, rfl, ⟨x, t', rfl, h₁⟩, h₂⟩)
      · exact ⟨x, t', rfl, .inl ⟨e, h, rfl⟩⟩
      · exact ⟨x, t' ++ t₂, rfl, .inr ⟨a, t', t₂, rfl, h₁, h₂⟩⟩

/-- The runs of `try`: the first part returns, or it fails and the rest handles its failure. -/
theorem emits_tryCatch {p : Prog Op Res ε α} {h : ε → Prog Op Res ε α}
    {t : List (Event Op Res)} {r : Except ε α} :
    Emits (p.tryCatch h) t r ↔
      (∃ a, Emits p t (.ok a) ∧ r = .ok a) ∨
      (∃ e t₁ t₂, t = t₁ ++ t₂ ∧ Emits p t₁ (.error e) ∧ Emits (h e) t₂ r) := by
  induction p generalizing t with
  | done r' =>
    rcases r' with e | a
    · simp only [Prog.tryCatch, emits_done]
      constructor
      · intro hemits
        exact .inr ⟨e, [], t, rfl, ⟨rfl, rfl⟩, hemits⟩
      · rintro (⟨a, ⟨rfl, heq⟩, rfl⟩ | ⟨e', t₁, t₂, rfl, ⟨rfl, heq⟩, hemits⟩)
        · cases heq
        · cases heq
          exact hemits
    · simp only [Prog.tryCatch, emits_done]
      constructor
      · rintro ⟨rfl, rfl⟩
        exact .inl ⟨a, ⟨rfl, rfl⟩, rfl⟩
      · rintro (⟨a', ⟨rfl, heq⟩, rfl⟩ | ⟨e, t₁, t₂, rfl, ⟨rfl, heq⟩, _⟩)
        · cases heq
          exact ⟨rfl, rfl⟩
        · cases heq
  | call op k ih =>
    simp only [Prog.tryCatch, emits_call, ih]
    constructor
    · rintro ⟨x, t', rfl, ⟨a, ha, rfl⟩ | ⟨e, t₁, t₂, rfl, h₁, h₂⟩⟩
      · exact .inl ⟨a, ⟨x, t', rfl, ha⟩, rfl⟩
      · exact .inr ⟨e, ⟨op, x⟩ :: t₁, t₂, rfl, ⟨x, t₁, rfl, h₁⟩, h₂⟩
    · rintro (⟨a, ⟨x, t', rfl, ha⟩, rfl⟩ | ⟨e, _, t₂, rfl, ⟨x, t', rfl, h₁⟩, h₂⟩)
      · exact ⟨x, t', rfl, .inl ⟨a, ha, rfl⟩⟩
      · exact ⟨x, t' ++ t₂, rfl, .inr ⟨e, t', t₂, rfl, h₁, h₂⟩⟩

/-- A sequence that begins with a computation. -/
theorem emits_ofExcept_bind {x : Except ε α} {f : α → Prog Op Res ε β} {t : List (Event Op Res)}
    {r : Except ε β} :
    Emits (ofExcept x >>= f) t r ↔
      (∃ e, x = .error e ∧ t = [] ∧ r = .error e) ∨ ∃ a, x = .ok a ∧ Emits (f a) t r := by
  cases x with
  | error e =>
    show Emits (.done (.error e)) t r ↔ _
    rw [emits_done]
    constructor
    · rintro ⟨rfl, rfl⟩
      exact .inl ⟨e, rfl, rfl, rfl⟩
    · rintro (⟨_, ⟨⟩, rfl, rfl⟩ | ⟨_, ⟨⟩, _⟩)
      exact ⟨rfl, rfl⟩
  | ok a =>
    show Emits (f a) t r ↔ _
    constructor
    · intro h
      exact .inr ⟨a, rfl, h⟩
    · rintro (⟨_, ⟨⟩, _⟩ | ⟨_, ⟨⟩, h⟩)
      exact h

/-- A program whose value is put in another form. -/
theorem emits_bind_pure {p : Prog Op Res ε α} {g : α → β} {t : List (Event Op Res)}
    {r : Except ε β} :
    Emits (p >>= fun a => pure (g a)) t r ↔ ∃ r', Emits p t r' ∧ r = r'.map g := by
  rw [emits_bind]
  constructor
  · rintro (⟨e, h, rfl⟩ | ⟨a, t₁, t₂, rfl, h, hret⟩)
    · exact ⟨_, h, rfl⟩
    · obtain ⟨rfl, rfl⟩ := emits_pure.mp hret
      rw [List.append_nil]
      exact ⟨_, h, rfl⟩
  · rintro ⟨r', h, rfl⟩
    cases r' with
    | error e => exact .inl ⟨e, h, rfl⟩
    | ok a => exact .inr ⟨a, t, [], (List.append_nil t).symm, h, emits_pure.mpr ⟨rfl, rfl⟩⟩

/-- A program that makes one call and then decides. -/
theorem emits_perform_bind {op : Op} {f : Res op → Prog Op Res ε β} {t : List (Event Op Res)}
    {r : Except ε β} :
    Emits (perform op >>= f) t r ↔ ∃ x t', t = ⟨op, x⟩ :: t' ∧ Emits (f x) t' r :=
  emits_call

theorem steps_append {p q u : Prog Op Res ε α} {t₁ t₂ : List (Event Op Res)}
    (h₁ : Steps p t₁ q) (h₂ : Steps q t₂ u) : Steps p (t₁ ++ t₂) u := by
  induction h₁ with
  | nil => exact h₂
  | cons _ ih => exact Steps.cons (ih h₂)

/-- When every operation has some answer, a run that stopped part way extends to a
complete one. -/
theorem exists_emits_of_steps (answer : (op : Op) → Res op) {p q : Prog Op Res ε α}
    {t : List (Event Op Res)} (h : Steps p t q) : ∃ t' r, Emits p (t ++ t') r := by
  -- what is left is run against `answer`, and a program is a finite tree
  have complete : ∀ q : Prog Op Res ε α, ∃ t' r, Emits q t' r := by
    intro q
    induction q with
    | done r => exact ⟨[], r, Steps.nil _⟩
    | call op k ih =>
      obtain ⟨t', r, h'⟩ := ih (answer op)
      exact ⟨_, r, Steps.cons h'⟩
  obtain ⟨t', r, h'⟩ := complete q
  exact ⟨t', r, steps_append h h'⟩

/-! ## Calls a program does not make -/

/-- No complete run of `p` has the event `e`. -/
def Avoids (e : Event Op Res) (p : Prog Op Res ε α) : Prop := ∀ t r, Emits p t r → e ∉ t

theorem avoids_ofExcept (e : Event Op Res) (r : Except ε α) : Avoids e (ofExcept r) := by
  intro t r' h
  obtain ⟨rfl, _⟩ := emits_ofExcept.mp h
  exact List.not_mem_nil

theorem avoids_perform {e : Event Op Res} {op : Op} (h : e.op ≠ op) :
    Avoids e (perform op : Prog Op Res ε (Res op)) := by
  intro t r ht hmem
  obtain ⟨x, rfl, _⟩ := emits_perform.mp ht
  rw [List.mem_singleton] at hmem
  exact h (congrArg Event.op hmem)

theorem avoids_bind {e : Event Op Res} {p : Prog Op Res ε α} {f : α → Prog Op Res ε β}
    (hp : Avoids e p) (hf : ∀ a, Avoids e (f a)) : Avoids e (p >>= f) := by
  intro t r h
  rcases emits_bind.mp h with ⟨_, h₁, _⟩ | ⟨a, t₁, t₂, rfl, h₁, h₂⟩
  · exact hp _ _ h₁
  · rw [List.mem_append, not_or]
    exact ⟨hp _ _ h₁, hf a _ _ h₂⟩

/-- A run with an event that its first part does not have got past that part. -/
theorem emits_bind_of_avoids {e : Event Op Res} {p : Prog Op Res ε α}
    {f : α → Prog Op Res ε β} {t : List (Event Op Res)} {r : Except ε β}
    (h : Emits (p >>= f) t r) (he : e ∈ t) (hp : Avoids e p) :
    ∃ a t₁ t₂, t = t₁ ++ t₂ ∧ Emits p t₁ (.ok a) ∧ Emits (f a) t₂ r ∧ e ∈ t₂ := by
  rcases emits_bind.mp h with ⟨_, h₁, _⟩ | ⟨a, t₁, t₂, rfl, h₁, h₂⟩
  · exact absurd he (hp _ _ h₁)
  · exact ⟨a, t₁, t₂, rfl, h₁, h₂, (List.mem_append.mp he).resolve_left (hp _ _ h₁)⟩

/-- A call whose answer is the result of a computation. -/
theorem emits_await {op : Op} {f : Res op → Except ε α} {t : List (Event Op Res)}
    {r : Except ε α} :
    Emits (perform op >>= fun x => ofExcept (f x)) t r ↔ ∃ x, t = [⟨op, x⟩] ∧ r = f x := by
  simp only [emits_perform_bind, emits_ofExcept]
  constructor
  · rintro ⟨x, t', rfl, rfl, rfl⟩
    exact ⟨x, rfl, rfl⟩
  · rintro ⟨x, rfl, rfl⟩
    exact ⟨x, [], rfl, rfl, rfl⟩

/-! ## Fixed answers -/

/-- The run of `p` against a host whose answer to each operation is fixed. -/
def run (answer : (op : Op) → Res op) : Prog Op Res ε α → List (Event Op Res) × Except ε α
  | .done r => ([], r)
  | .call op k =>
    let rest := run answer (k (answer op))
    (⟨op, answer op⟩ :: rest.1, rest.2)

/-- Every answer in `t` is the one `answer` gives. -/
def Agrees (answer : (op : Op) → Res op) (t : List (Event Op Res)) : Prop :=
  ∀ e ∈ t, e.res = answer e.op

theorem emits_run (answer : (op : Op) → Res op) (p : Prog Op Res ε α) :
    Emits p (run answer p).1 (run answer p).2 := by
  induction p with
  | done r => exact Steps.nil _
  | call op k ih => exact Steps.cons (ih _)

theorem agrees_run (answer : (op : Op) → Res op) (p : Prog Op Res ε α) :
    Agrees answer (run answer p).1 := by
  induction p with
  | done r => intro e he; cases he
  | call op k ih =>
    intro e he
    rcases List.mem_cons.mp he with rfl | he
    · rfl
    · exact ih _ e he

/-- A sequence ends as its second part does on what the first returns. -/
theorem run_bind (answer : (op : Op) → Res op) (p : Prog Op Res ε α) (f : α → Prog Op Res ε β) :
    (run answer (p >>= f)).2 = (run answer p).2 >>= fun a => (run answer (f a)).2 := by
  show (run answer (p.bind f)).2 = _
  induction p with
  | done r => cases r <;> rfl
  | call op k ih => exact ih _

/-- The run of a computation that returns is the run of what follows. -/
theorem run_ofExcept_bind {answer : (op : Op) → Res op} {x : Except ε α}
    {f : α → Prog Op Res ε β} {a : α} (h : x = .ok a) :
    run answer (ofExcept x >>= f) = run answer (f a) := by
  subst h
  rfl

/-- What the first part of a sequence does, the sequence does. -/
theorem mem_run_bind {answer : (op : Op) → Res op} {p : Prog Op Res ε α}
    {f : α → Prog Op Res ε β} {e : Event Op Res} (h : e ∈ (run answer p).1) :
    e ∈ (run answer (p >>= f)).1 := by
  show e ∈ (run answer (p.bind f)).1
  induction p with
  | done r => cases h
  | call op k ih =>
    rcases List.mem_cons.mp h with rfl | h
    · exact List.mem_cons_self
    · exact List.mem_cons_of_mem _ (ih _ h)

theorem run_perform_bind (answer : (op : Op) → Res op) (op : Op) (f : Res op → Prog Op Res ε β) :
    run answer (perform op >>= f) =
      (⟨op, answer op⟩ :: (run answer (f (answer op))).1, (run answer (f (answer op))).2) := rfl

/-- A run that calls the host, goes on with the value of the answer, and what follows. -/
theorem run_await_bind {answer : (op : Op) → Res op} {op : Op} {g : Res op → Except ε α}
    {f : α → Prog Op Res ε β} {a : α} (h : g (answer op) = .ok a) :
    run answer ((perform op >>= fun x => ofExcept (g x)) >>= f) =
      (⟨op, answer op⟩ :: (run answer (f a)).1, (run answer (f a)).2) := by
  show run answer (Prog.call op fun x => Prog.bind (.done (g x)) f) = _
  simp only [run, h]
  rfl

/-- A complete run is determined by the answers it gets. -/
theorem run_eq_of_emits {answer : (op : Op) → Res op} {p : Prog Op Res ε α}
    {t : List (Event Op Res)} {r : Except ε α} (h : Emits p t r) (ha : Agrees answer t) :
    run answer p = (t, r) := by
  induction p generalizing t with
  | done r' =>
    obtain ⟨rfl, rfl⟩ := emits_done.mp h
    rfl
  | call op k ih =>
    obtain ⟨x, t', rfl, h'⟩ := emits_call.mp h
    obtain rfl : x = answer op := ha ⟨op, x⟩ List.mem_cons_self
    have htail := ih _ h' fun e he => ha e (List.mem_cons_of_mem _ he)
    simp only [run, htail]

/-! ## Programs that repeat no call -/

/-- The calls of `p` come in strictly rising stages, from `n` up and below `m`. -/
def Rising (stage : Op → ℕ) (m : ℕ) : ℕ → Prog Op Res ε α → Prop
  | n, .done _ => n ≤ m
  | n, .call op k => n ≤ stage op ∧ ∀ x, Rising stage m (stage op + 1) (k x)

section Rising

variable {stage : Op → ℕ} {n n' m l : ℕ}

theorem Rising.mono {p : Prog Op Res ε α} (h : Rising stage m n p) (hn : n' ≤ n) :
    Rising stage m n' p := by
  cases p with
  | done r => exact Nat.le_trans hn h
  | call op k => exact ⟨Nat.le_trans hn h.1, h.2⟩

theorem rising_ofExcept (r : Except ε α) (h : n ≤ m) :
    Rising stage m n (ofExcept r : Prog Op Res ε α) := h

theorem rising_pure (a : α) (h : n ≤ m) : Rising stage m n (pure a : Prog Op Res ε α) := h

theorem rising_perform (op : Op) (hn : n ≤ stage op) (hm : stage op < m) :
    Rising stage m n (perform op : Prog Op Res ε (Res op)) := ⟨hn, fun _ => hm⟩

theorem rising_bind {p : Prog Op Res ε α} {f : α → Prog Op Res ε β} (hp : Rising stage m n p)
    (hf : ∀ a, Rising stage l m (f a)) (hm : m ≤ l) : Rising stage l n (p >>= f) := by
  show Rising stage l n (p.bind f)
  induction p generalizing n with
  | done r =>
    cases r with
    | error e => exact Nat.le_trans hp hm
    | ok a => exact (hf a).mono hp
  | call op k ih => exact ⟨hp.1, fun x => ih x (hp.2 x)⟩

/-- The calls of a run are in strictly rising stages, so none is made twice. -/
theorem Rising.pairwise {p : Prog Op Res ε α} {t : List (Event Op Res)} {r : Except ε α}
    (h : Rising stage m n p) (ht : Emits p t r) :
    t.Pairwise (fun e e' => stage e.op < stage e'.op) ∧ ∀ e ∈ t, n ≤ stage e.op := by
  induction p generalizing n t with
  | done r' =>
    obtain ⟨rfl, _⟩ := emits_done.mp ht
    exact ⟨List.Pairwise.nil, fun e he => absurd he List.not_mem_nil⟩
  | call op k ih =>
    obtain ⟨x, t', rfl, ht'⟩ := emits_call.mp ht
    obtain ⟨hpairs, hstages⟩ := ih x (h.2 x) ht'
    refine ⟨List.pairwise_cons.mpr ⟨hstages, hpairs⟩, fun e he => ?_⟩
    rcases List.mem_cons.mp he with rfl | he
    · exact h.1
    · exact Nat.le_trans (Nat.le_succ_of_le h.1) (hstages e he)

end Rising

/-- A run that makes no call twice is the run against some fixed answers. -/
theorem exists_run_of_pairwise [DecidableEq Op] (answer₀ : (op : Op) → Res op)
    {p : Prog Op Res ε α} {t : List (Event Op Res)} {r : Except ε α} (h : Emits p t r)
    (ht : t.Pairwise fun e e' => e.op ≠ e'.op) : ∃ answer, run answer p = (t, r) := by
  -- the trace alone decides the answers, one call at a time
  suffices hagrees : ∃ answer : (op : Op) → Res op, Agrees answer t by
    obtain ⟨answer, ha⟩ := hagrees
    exact ⟨answer, run_eq_of_emits h ha⟩
  clear h
  induction t with
  | nil => exact ⟨answer₀, fun e he => absurd he List.not_mem_nil⟩
  | cons e t ih =>
    obtain ⟨hne, ht⟩ := List.pairwise_cons.mp ht
    obtain ⟨answer, ha⟩ := ih ht
    refine ⟨Function.update answer e.op e.res, fun e' he' => ?_⟩
    rcases List.mem_cons.mp he' with rfl | he'
    · rw [Function.update_self]
    · rw [Function.update_of_ne (hne e' he').symm]
      exact ha e' he'

/-! ## A host with a state -/

/-- How a host with state `σ` answers: `H op s x s'` when it may answer `x` in state `s`
and be in `s'` afterwards. -/
abbrev HostRel (Op : Type) (Res : Op → Type) (σ : Type) : Type :=
  (op : Op) → σ → Res op → σ → Prop

/-- The host goes from `s` to `s'` while it answers the calls of `t` as `t` says. -/
inductive Along (H : HostRel Op Res σ) : σ → List (Event Op Res) → σ → Prop where
  | nil (s : σ) : Along H s [] s
  | cons {s s' s'' : σ} {e : Event Op Res} {t : List (Event Op Res)} :
      H e.op s e.res s' → Along H s' t s'' → Along H s (e :: t) s''

@[simp] theorem along_nil {H : HostRel Op Res σ} {s s' : σ} : Along H s [] s' ↔ s' = s := by
  constructor
  · rintro ⟨⟩
    rfl
  · rintro rfl
    exact Along.nil _

@[simp] theorem along_cons {H : HostRel Op Res σ} {s s'' : σ} {e : Event Op Res}
    {t : List (Event Op Res)} :
    Along H s (e :: t) s'' ↔ ∃ s', H e.op s e.res s' ∧ Along H s' t s'' := by
  constructor
  · rintro ⟨⟩
    rename_i s' h₁ h₂
    exact ⟨s', h₁, h₂⟩
  · rintro ⟨s', h₁, h₂⟩
    exact Along.cons h₁ h₂

theorem along_append {H : HostRel Op Res σ} {s s'' : σ} {t₁ t₂ : List (Event Op Res)} :
    Along H s (t₁ ++ t₂) s'' ↔ ∃ s', Along H s t₁ s' ∧ Along H s' t₂ s'' := by
  induction t₁ generalizing s with
  | nil => simp
  | cons e t ih =>
    simp only [List.cons_append, along_cons, ih]
    constructor
    · rintro ⟨s₁, h₁, s', h₂, h₃⟩
      exact ⟨s', ⟨s₁, h₁, h₂⟩, h₃⟩
    · rintro ⟨s', ⟨s₁, h₁, h₂⟩, h₃⟩
      exact ⟨s₁, h₁, s', h₂, h₃⟩

/-- What every single answer preserves, a whole trace preserves. -/
theorem Along.invariant {H : HostRel Op Res σ} {I : σ → Prop} {s s' : σ}
    {t : List (Event Op Res)} (h : Along H s t s')
    (step : ∀ e ∈ t, ∀ s s', H e.op s e.res s' → I s → I s') (hI : I s) : I s' := by
  induction h with
  | nil => exact hI
  | cons h₁ _ ih =>
    exact ih (fun e he => step e (List.mem_cons_of_mem _ he))
      (step _ List.mem_cons_self _ _ h₁ hI)

/-- The run of `p` from a state, against a host that answers by a function. -/
def runFrom (f : (op : Op) → σ → Res op × σ) :
    Prog Op Res ε α → σ → List (Event Op Res) × Except ε α × σ
  | .done r, s => ([], r, s)
  | .call op k, s =>
    let rest := runFrom f (k (f op s).1) (f op s).2
    (⟨op, (f op s).1⟩ :: rest.1, rest.2)

theorem emits_runFrom (f : (op : Op) → σ → Res op × σ) (p : Prog Op Res ε α) (s : σ) :
    Emits p (runFrom f p s).1 (runFrom f p s).2.1 := by
  induction p generalizing s with
  | done r => exact Steps.nil _
  | call op k ih => exact Steps.cons (ih _ _)

theorem along_runFrom {H : HostRel Op Res σ} {f : (op : Op) → σ → Res op × σ}
    (hf : ∀ op s, H op s (f op s).1 (f op s).2) (p : Prog Op Res ε α) (s : σ) :
    Along H s (runFrom f p s).1 (runFrom f p s).2.2 := by
  induction p generalizing s with
  | done r => exact Along.nil _
  | call op k ih => exact Along.cons (hf op s) (ih _ _)

/-- Every answer in such a run is one the function gives. -/
theorem res_of_mem_runFrom {f : (op : Op) → σ → Res op × σ} {p : Prog Op Res ε α} {s : σ}
    {e : Event Op Res} (h : e ∈ (runFrom f p s).1) : ∃ s', e.res = (f e.op s').1 := by
  induction p generalizing s with
  | done r => cases h
  | call op k ih =>
    rcases List.mem_cons.mp h with rfl | h
    · exact ⟨s, rfl⟩
    · exact ih _ h

/-! ## Sessions: one run after another -/

/-- A complete run of a program on the request it was given. -/
structure Invocation (Op : Type) (Res : Op → Type) (ε α β : Type) where
  request : β
  trace : List (Event Op Res)
  result : Except ε α

/-- A session: complete runs of `body`, one after another, against one host. Between two
runs the environment may change the state as `env` allows. -/
inductive Session (H : HostRel Op Res σ) (env : σ → σ → Prop) (body : β → Prog Op Res ε α) :
    σ → List (Invocation Op Res ε α β) → σ → Prop where
  | nil (s : σ) : Session H env body s [] s
  | env {s s' s'' : σ} {is : List (Invocation Op Res ε α β)} :
      env s s' → Session H env body s' is s'' → Session H env body s is s''
  | invoke {s s' s'' : σ} {i : Invocation Op Res ε α β}
      {is : List (Invocation Op Res ε α β)} :
      Emits (body i.request) i.trace i.result → Along H s i.trace s' →
      Session H env body s' is s'' → Session H env body s (i :: is) s''

section Session

variable {H : HostRel Op Res σ} {env : σ → σ → Prop} {body : β → Prog Op Res ε α}
  {s s' s'' : σ} {i : Invocation Op Res ε α β} {is js : List (Invocation Op Res ε α β)}

/-- A session stopped after some of its invocations is a session, and so is the rest. -/
theorem Session.split (h : Session H env body s (is ++ js) s'') :
    ∃ s', Session H env body s is s' ∧ Session H env body s' js s'' := by
  -- the index of `Session` has to be a variable before the induction
  generalize hl : is ++ js = l at h
  induction h generalizing is with
  | nil s =>
    obtain ⟨rfl, rfl⟩ := List.append_eq_nil_iff.mp hl
    exact ⟨s, Session.nil s, Session.nil s⟩
  | env he _ ih =>
    obtain ⟨s₁, h₁, h₂⟩ := ih hl
    exact ⟨s₁, Session.env he h₁, h₂⟩
  | @invoke s s₁ s₂ j l' hj ha hrest ih =>
    cases is with
    -- the cut is before this invocation
    | nil =>
      obtain rfl : js = j :: l' := hl
      exact ⟨s, Session.nil s, Session.invoke hj ha hrest⟩
    | cons i is =>
      obtain ⟨rfl, hl'⟩ := List.cons.inj hl
      obtain ⟨s₃, h₁, h₂⟩ := ih hl'
      exact ⟨s₃, Session.invoke hj ha h₁, h₂⟩

theorem Session.append (h₁ : Session H env body s is s') (h₂ : Session H env body s' js s'') :
    Session H env body s (is ++ js) s'' := by
  induction h₁ with
  | nil => exact h₂
  | env he _ ih => exact Session.env he (ih h₂)
  | invoke hi ha _ ih => exact Session.invoke hi ha (ih h₂)

/-- The first invocation of a session, with what the environment did before it. -/
theorem Session.uncons (h : Session H env body s (i :: is) s'') :
    ∃ s₁ s₂, Relation.ReflTransGen env s s₁ ∧ Emits (body i.request) i.trace i.result ∧
      Along H s₁ i.trace s₂ ∧ Session H env body s₂ is s'' := by
  generalize hl : i :: is = l at h
  induction h with
  | nil => cases hl
  | env he _ ih =>
    obtain ⟨s₁, s₂, hr, h₁, h₂, h₃⟩ := ih hl
    exact ⟨s₁, s₂, .head he hr, h₁, h₂, h₃⟩
  | invoke h₁ h₂ h₃ _ =>
    obtain ⟨rfl, rfl⟩ := List.cons.inj hl
    exact ⟨_, _, .refl, h₁, h₂, h₃⟩

/-- Every invocation of a session is a complete run of the body. -/
theorem Session.emits_of_mem (h : Session H env body s is s') (hi : i ∈ is) :
    Emits (body i.request) i.trace i.result := by
  obtain ⟨l₁, l₂, rfl⟩ := List.append_of_mem hi
  obtain ⟨_, _, h₂⟩ := h.split
  obtain ⟨_, _, _, he, _⟩ := h₂.uncons
  exact he

/-- What the environment and every invocation preserve, a session preserves. -/
theorem Session.invariant {I : σ → Prop} (h : Session H env body s is s')
    (henv : ∀ s s', env s s' → I s → I s')
    (hinv : ∀ i ∈ is, ∀ s s', Emits (body i.request) i.trace i.result → Along H s i.trace s' →
      I s → I s')
    (hI : I s) : I s' := by
  induction h with
  | nil => exact hI
  | env he _ ih => exact ih hinv (henv _ _ he hI)
  | invoke he ha _ ih =>
    exact ih (fun j hj => hinv j (List.mem_cons_of_mem _ hj))
      (hinv _ List.mem_cons_self _ _ he ha hI)

/-- One invocation against a host that answers by a function, and the state after it. -/
def invoke (f : (op : Op) → σ → Res op × σ) (body : β → Prog Op Res ε α) (b : β) (s : σ) :
    Invocation Op Res ε α β × σ :=
  (⟨b, (runFrom f (body b) s).1, (runFrom f (body b) s).2.1⟩, (runFrom f (body b) s).2.2)

theorem session_invoke {f : (op : Op) → σ → Res op × σ}
    (hf : ∀ op s, H op s (f op s).1 (f op s).2) (env : σ → σ → Prop)
    (body : β → Prog Op Res ε α) (b : β) (s : σ) :
    Session H env body s [(invoke f body b s).1] (invoke f body b s).2 :=
  Session.invoke (emits_runFrom f (body b) s) (along_runFrom hf (body b) s) (Session.nil _)

/-- The session of these requests, from a state, against a host that answers by a
function. -/
def runSession (f : (op : Op) → σ → Res op × σ) (body : β → Prog Op Res ε α) :
    List β → σ → List (Invocation Op Res ε α β) × σ
  | [], s => ([], s)
  | b :: bs, s =>
    let now := runFrom f (body b) s
    let rest := runSession f body bs now.2.2
    (⟨b, now.1, now.2.1⟩ :: rest.1, rest.2)

theorem session_runSession {f : (op : Op) → σ → Res op × σ}
    (hf : ∀ op s, H op s (f op s).1 (f op s).2) (env : σ → σ → Prop)
    (body : β → Prog Op Res ε α) (bs : List β) (s : σ) :
    Session H env body s (runSession f body bs s).1 (runSession f body bs s).2 := by
  induction bs generalizing s with
  | nil => exact Session.nil s
  | cons b bs ih =>
    exact Session.invoke (emits_runFrom f (body b) s) (along_runFrom hf (body b) s) (ih _)

/-- Such a session answers the requests it was given, in order. -/
theorem map_request_runSession (f : (op : Op) → σ → Res op × σ) (body : β → Prog Op Res ε α)
    (bs : List β) (s : σ) : (runSession f body bs s).1.map (·.request) = bs := by
  induction bs generalizing s with
  | nil => rfl
  | cons b bs ih => exact congrArg (b :: ·) (ih _)

theorem res_of_mem_runSession {f : (op : Op) → σ → Res op × σ} {body : β → Prog Op Res ε α}
    {bs : List β} {s : σ} {i : Invocation Op Res ε α β} (hi : i ∈ (runSession f body bs s).1)
    {e : Event Op Res} (he : e ∈ i.trace) : ∃ s', e.res = (f e.op s').1 := by
  induction bs generalizing s with
  | nil => cases hi
  | cons b bs ih =>
    rcases List.mem_cons.mp hi with rfl | hi
    · exact res_of_mem_runFrom he
    · exact ih hi

end Session

/-! ## Pools: calls that interleave -/

/-- Programs running at the same time. Each step one of them makes one host call, or the
environment changes the state; `tr` records who made which call. -/
inductive Pool [DecidableEq ι] (H : HostRel Op Res σ) (env : σ → σ → Prop) :
    (ι → Prog Op Res ε α) → σ → List (ι × Event Op Res) → (ι → Prog Op Res ε α) → σ → Prop where
  | nil (ps : ι → Prog Op Res ε α) (s : σ) : Pool H env ps s [] ps s
  | env {ps ps' : ι → Prog Op Res ε α} {s s' s'' : σ} {tr : List (ι × Event Op Res)} :
      env s s' → Pool H env ps s' tr ps' s'' → Pool H env ps s tr ps' s''
  | call {ps ps' : ι → Prog Op Res ε α} {s s' s'' : σ} {tr : List (ι × Event Op Res)}
      (i : ι) {op : Op} {k : Res op → Prog Op Res ε α} (x : Res op) :
      ps i = .call op k → H op s x s' → Pool H env (Function.update ps i (k x)) s' tr ps' s'' →
      Pool H env ps s ((i, ⟨op, x⟩) :: tr) ps' s''

/-- The calls of one program of a pool, in order. -/
def proj [DecidableEq ι] (i : ι) (tr : List (ι × Event Op Res)) : List (Event Op Res) :=
  (tr.filter fun e => e.1 = i).map Prod.snd

section Pool

variable [DecidableEq ι] {H : HostRel Op Res σ} {env : σ → σ → Prop}
  {ps ps' : ι → Prog Op Res ε α} {s s' : σ} {tr tr₁ tr₂ : List (ι × Event Op Res)}

theorem proj_cons_self (i : ι) (e : Event Op Res) (tr : List (ι × Event Op Res)) :
    proj i ((i, e) :: tr) = e :: proj i tr := by simp [proj]

theorem proj_cons_ne {i j : ι} (h : j ≠ i) (e : Event Op Res) (tr : List (ι × Event Op Res)) :
    proj i ((j, e) :: tr) = proj i tr := by simp [proj, h]

theorem mem_proj {i : ι} {e : Event Op Res} : e ∈ proj i tr ↔ (i, e) ∈ tr := by
  simp [proj]

/-- Whatever the interleaving, each program runs along its own calls. -/
theorem Pool.steps_proj (h : Pool H env ps s tr ps' s') (i : ι) :
    Steps (ps i) (proj i tr) (ps' i) := by
  -- only the calls of program `i` move it; all the others leave `ps i` as it is
  induction h with
  | nil => exact Steps.nil _
  | env _ _ ih => exact ih
  | call j x hj _ _ ih =>
    by_cases hij : j = i
    · subst hij
      rw [proj_cons_self, hj]
      rw [Function.update_self] at ih
      exact Steps.cons ih
    · rw [proj_cons_ne hij]
      rwa [Function.update_of_ne (Ne.symm hij)] at ih

/-- A pool stopped between two of its calls. -/
theorem Pool.split (h : Pool H env ps s (tr₁ ++ tr₂) ps' s') :
    ∃ qs u, Pool H env ps s tr₁ qs u ∧ Pool H env qs u tr₂ ps' s' := by
  generalize hl : tr₁ ++ tr₂ = l at h
  induction h generalizing tr₁ with
  | nil ps s =>
    obtain ⟨rfl, rfl⟩ := List.append_eq_nil_iff.mp hl
    exact ⟨ps, s, Pool.nil _ _, Pool.nil _ _⟩
  | env he _ ih =>
    obtain ⟨qs, u, h₁, h₂⟩ := ih hl
    exact ⟨qs, u, Pool.env he h₁, h₂⟩
  | @call ps ps' s s₁ s₂ l' i op k x hi hH hrest ih =>
    cases tr₁ with
    | nil =>
      obtain rfl : tr₂ = (i, ⟨op, x⟩) :: l' := hl
      exact ⟨ps, s, Pool.nil _ _, Pool.call i x hi hH hrest⟩
    | cons e tr₁ =>
      obtain ⟨rfl, hl'⟩ := List.cons.inj hl
      obtain ⟨qs, u, h₁, h₂⟩ := ih hl'
      exact ⟨qs, u, Pool.call i x hi hH h₁, h₂⟩

/-- The state before and after the first call of a pool. -/
theorem Pool.uncons {e : ι × Event Op Res} (h : Pool H env ps s (e :: tr) ps' s') :
    ∃ s₁ s₂ qs, Relation.ReflTransGen env s s₁ ∧ H e.2.op s₁ e.2.res s₂ ∧
      Pool H env qs s₂ tr ps' s' := by
  generalize hl : e :: tr = l at h
  induction h with
  | nil => cases hl
  | env he _ ih =>
    obtain ⟨s₁, s₂, qs, hr, h₁, h₂⟩ := ih hl
    exact ⟨s₁, s₂, qs, .head he hr, h₁, h₂⟩
  | call i x hi hH hrest _ =>
    obtain ⟨rfl, rfl⟩ := List.cons.inj hl
    exact ⟨_, _, _, .refl, hH, hrest⟩

/-- What the environment and every single call preserve, a pool preserves. -/
theorem Pool.invariant {I : σ → Prop} (h : Pool H env ps s tr ps' s')
    (henv : ∀ s s', env s s' → I s → I s')
    (hstep : ∀ e ∈ tr, ∀ s s', H e.2.op s e.2.res s' → I s → I s') (hI : I s) : I s' := by
  induction h with
  | nil => exact hI
  | env he _ ih => exact ih hstep (henv _ _ he hI)
  | call i x _ hH _ ih =>
    exact ih (fun e he => hstep e (List.mem_cons_of_mem _ he))
      (hstep _ List.mem_cons_self _ _ hH hI)

/-- The pool of these programs, from a state, against a host that answers by a function:
the programs make their calls in the order of the schedule. -/
def runPool (f : (op : Op) → σ → Res op × σ) :
    List ι → (ι → Prog Op Res ε α) → σ → List (ι × Event Op Res) × (ι → Prog Op Res ε α) × σ
  | [], ps, s => ([], ps, s)
  | i :: schedule, ps, s =>
    match ps i with
    | .done _ => runPool f schedule ps s
    | .call op k =>
      let rest := runPool f schedule (Function.update ps i (k (f op s).1)) (f op s).2
      ((i, ⟨op, (f op s).1⟩) :: rest.1, rest.2)

theorem pool_runPool {f : (op : Op) → σ → Res op × σ}
    (hf : ∀ op s, H op s (f op s).1 (f op s).2) (env : σ → σ → Prop) (schedule : List ι)
    (ps : ι → Prog Op Res ε α) (s : σ) :
    Pool H env ps s (runPool f schedule ps s).1 (runPool f schedule ps s).2.1
      (runPool f schedule ps s).2.2 := by
  induction schedule generalizing ps s with
  | nil => exact Pool.nil ps s
  | cons i schedule ih =>
    rw [runPool]
    split
    · exact ih ps s
    · rename_i op k hi
      exact Pool.call i _ hi (hf op s) (ih _ _)

theorem res_of_mem_runPool {f : (op : Op) → σ → Res op × σ} {schedule : List ι}
    {ps : ι → Prog Op Res ε α} {s : σ} {e : ι × Event Op Res}
    (he : e ∈ (runPool f schedule ps s).1) : ∃ s', e.2.res = (f e.2.op s').1 := by
  induction schedule generalizing ps s with
  | nil => cases he
  | cons i schedule ih =>
    rw [runPool] at he
    split at he
    · exact ih he
    · rcases List.mem_cons.mp he with rfl | he
      · exact ⟨s, rfl⟩
      · exact ih he

end Pool

end Interaction
