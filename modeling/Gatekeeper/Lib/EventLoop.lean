import Gatekeeper.Lib.Interaction

/-!
# Tasks of one event loop

A task runs from one await to the next in one piece, on a state that it shares with the other
tasks of the loop; at an await any of the others may go on. A task that reads the state only
where it has written it in the same piece does, among any others, what a program does that has
no state to share.
-/

namespace EventLoop

open Interaction

variable {Op : Type} {Res : Op → Type} {σ ε α β ι : Type}

/-! ## Tasks -/

/-- A task at its end or at an await: what the next piece makes of the state, given the answer
and the state of that time, and what is left of the task then. -/
inductive Task (σ Op : Type) (Res : Op → Type) (ε α : Type) where
  | ended (r : Except ε α)
  | awaiting (op : Op) (state : Res op → σ → σ) (rest : Res op → σ → Task σ Op Res ε α)

/-- Code of a task, from a state on: the state at the first await, and the task there. -/
def Code (σ Op : Type) (Res : Op → Type) (ε α : Type) : Type := σ → σ × Task σ Op Res ε α

protected def Task.bind : Task σ Op Res ε α → (α → Code σ Op Res ε β) → Code σ Op Res ε β
  | .ended (.ok a), f => f a
  | .ended (.error e), _ => fun s => (s, .ended (.error e))
  | .awaiting op state rest, f => fun s =>
    (s, .awaiting op (fun x u => ((rest x u).bind f (state x u)).1)
      fun x u => ((rest x u).bind f (state x u)).2)

instance : Monad (Code σ Op Res ε) where
  pure a := fun s => (s, .ended (.ok a))
  bind m f := fun s => (m s).2.bind f (m s).1

def await (op : Op) : Code σ Op Res ε (Res op) := fun s =>
  (s, .awaiting op (fun _ u => u) fun x _ => .ended (.ok x))

def readState : Code σ Op Res ε σ := fun s => (s, .ended (.ok s))

def writeState (v : σ) : Code σ Op Res ε Unit := fun _ => (v, .ended (.ok ()))

/-- A computation that does not look at the state. -/
def compute (r : Except ε α) : Code σ Op Res ε α := fun s => (s, .ended r)

/-! ## Tasks that could be alone -/

/-- The task does what the program does, whatever becomes of the state. -/
def Task.Alone : Task σ Op Res ε α → Prog Op Res ε α → Prop
  | .ended r, p => p = .done r
  | .awaiting op _ rest, p => ∃ k, p = .call op k ∧ ∀ x u, (rest x u).Alone (k x)

def Code.Alone (m : Code σ Op Res ε α) (p : Prog Op Res ε α) : Prop := ∀ s, (m s).2.Alone p

theorem alone_pure (a : α) : Code.Alone (pure a : Code σ Op Res ε α) (pure a) := fun _ => rfl

theorem alone_compute (r : Except ε α) :
    Code.Alone (compute r : Code σ Op Res ε α) (Prog.ofExcept r) := fun _ => rfl

theorem alone_await (op : Op) :
    Code.Alone (await op : Code σ Op Res ε (Res op)) (Prog.perform op) :=
  fun _ => ⟨_, rfl, fun _ _ => rfl⟩

theorem Task.alone_bind {t : Task σ Op Res ε α} {p : Prog Op Res ε α}
    {f : α → Code σ Op Res ε β} {g : α → Prog Op Res ε β} (ht : t.Alone p)
    (hf : ∀ a, (f a).Alone (g a)) : Code.Alone (t.bind f) (p >>= g) := by
  induction t generalizing p with
  | ended r =>
    obtain rfl := ht
    cases r with
    | ok a => exact hf a
    | error e => exact fun _ => rfl
  | awaiting op state rest ih =>
    obtain ⟨k, rfl, hk⟩ := ht
    exact fun s => ⟨_, rfl, fun x u => ih x u (hk x u) (state x u)⟩

theorem alone_bind {m : Code σ Op Res ε α} {p : Prog Op Res ε α} {f : α → Code σ Op Res ε β}
    {g : α → Prog Op Res ε β} (hm : m.Alone p) (hf : ∀ a, (f a).Alone (g a)) :
    Code.Alone (m >>= f) (p >>= g) := fun s => Task.alone_bind (hm s) hf (m s).1

/-- What is read right after a write is what was written. -/
theorem alone_write_read {v : σ} {f : σ → Code σ Op Res ε α} {p : Prog Op Res ε α}
    (h : (f v).Alone p) : Code.Alone (writeState v >>= fun _ => readState >>= f) p := fun _ => h v

/-! ## The loop -/

/-- Tasks of one loop: each step one of them is started, or goes on with the answer it awaits.
`tr` records whose call was answered with what. -/
inductive Loop [DecidableEq ι] (body : ι → Code σ Op Res ε α) :
    (ι → Option (Task σ Op Res ε α)) → σ → List (ι × Event Op Res) →
      (ι → Option (Task σ Op Res ε α)) → σ → Prop where
  | nil (ts : ι → Option (Task σ Op Res ε α)) (s : σ) : Loop body ts s [] ts s
  | start {ts ts' : ι → Option (Task σ Op Res ε α)} {s s' : σ} {tr : List (ι × Event Op Res)}
      (i : ι) : ts i = none →
      Loop body (Function.update ts i (some (body i s).2)) (body i s).1 tr ts' s' →
      Loop body ts s tr ts' s'
  | answer {ts ts' : ι → Option (Task σ Op Res ε α)} {s s' : σ} {tr : List (ι × Event Op Res)}
      (i : ι) {op : Op} {state : Res op → σ → σ} {rest : Res op → σ → Task σ Op Res ε α}
      (x : Res op) : ts i = some (.awaiting op state rest) →
      Loop body (Function.update ts i (some (rest x s))) (state x s) tr ts' s' →
      Loop body ts s ((i, ⟨op, x⟩) :: tr) ts' s'

variable [DecidableEq ι] {body : ι → Code σ Op Res ε α} {p q : ι → Prog Op Res ε α}
  {ts ts' : ι → Option (Task σ Op Res ε α)} {s s' : σ} {tr : List (ι × Event Op Res)}

/-- What a task that may not have started is about to do. -/
def Does (p : Prog Op Res ε α) : Option (Task σ Op Res ε α) → Prog Op Res ε α → Prop
  | none, q => q = p
  | some t, q => t.Alone q

/-- Each task takes the steps of its program, whatever the order in which answers come in. -/
theorem Loop.steps (hbody : ∀ i, (body i).Alone (p i)) (h : Loop body ts s tr ts' s')
    (hq : ∀ i, Does (p i) (ts i) (q i)) (i : ι) :
    ∃ q', Steps (q i) (proj i tr) q' ∧ Does (p i) (ts' i) q' := by
  induction h generalizing q with
  | nil => exact ⟨q i, Steps.nil _, hq i⟩
  | @start ts _ s _ _ j hj _ ih =>
    have hstarted : ∀ l, Does (p l) (Function.update ts j (some (body j s).2) l) (q l) := by
      intro l
      by_cases hl : l = j
      · subst hl
        have hfresh : q l = p l := by
          have hdoes := hq l
          rwa [hj] at hdoes
        rw [Function.update_self, hfresh]
        exact hbody l s
      · rw [Function.update_of_ne hl]
        exact hq l
    exact ih hstarted
  | @answer ts _ s _ _ j op state rest x hj _ ih =>
    obtain ⟨k, hk, hrest⟩ : ∃ k, q j = .call op k ∧ ∀ x u, (rest x u).Alone (k x) := by
      have hdoes := hq j
      rwa [hj] at hdoes
    have hanswered : ∀ l, Does (p l) (Function.update ts j (some (rest x s)) l)
        (Function.update q j (k x) l) := by
      intro l
      by_cases hl : l = j
      · subst hl
        rw [Function.update_self, Function.update_self]
        exact hrest x s
      · rw [Function.update_of_ne hl, Function.update_of_ne hl]
        exact hq l
    obtain ⟨q', hsteps, hdoes⟩ := ih hanswered
    refine ⟨q', ?_, hdoes⟩
    by_cases hij : j = i
    · subst hij
      rw [Function.update_self] at hsteps
      rw [proj_cons_self, hk]
      exact Steps.cons hsteps
    · rw [Function.update_of_ne (Ne.symm hij)] at hsteps
      rwa [proj_cons_ne hij]

/-- A task that has ended ran as its program on its own calls. -/
theorem Loop.emits (hbody : ∀ i, (body i).Alone (p i)) (h : Loop body (fun _ => none) s tr ts' s')
    {i : ι} {r : Except ε α} (hi : ts' i = some (.ended r)) : Emits (p i) (proj i tr) r := by
  obtain ⟨q', hsteps, hdoes⟩ := h.steps hbody (q := p) (fun _ => rfl) i
  rw [hi] at hdoes
  obtain rfl : q' = .done r := hdoes
  exact hsteps

/-! ## Runs of the loop -/

theorem Loop.append {ts'' : ι → Option (Task σ Op Res ε α)} {s'' : σ}
    {tr' : List (ι × Event Op Res)} (h : Loop body ts s tr ts' s')
    (h' : Loop body ts' s' tr' ts'' s'') : Loop body ts s (tr ++ tr') ts'' s'' := by
  induction h with
  | nil => exact h'
  | start i hi _ ih => exact Loop.start i hi (ih h')
  | answer i x hi _ ih => exact Loop.answer i x hi (ih h')

/-- A task that is under way can go on to its end without the others. -/
theorem Task.Alone.loop {t : Task σ Op Res ε α} {p : Prog Op Res ε α} (ht : t.Alone p) {i : ι}
    {es : List (Event Op Res)} {r : Except ε α} (hes : Emits p es r) (hi : ts i = some t) (s : σ) :
    ∃ s', Loop body ts s (es.map (Prod.mk i)) (Function.update ts i (some (.ended r))) s' := by
  induction t generalizing p es ts s with
  | ended r' =>
    obtain rfl : p = .done r' := ht
    obtain ⟨rfl, rfl⟩ := emits_done.mp hes
    refine ⟨s, ?_⟩
    rw [← hi, Function.update_eq_self]
    exact Loop.nil ts s
  | awaiting op state rest ih =>
    obtain ⟨k, rfl, hk⟩ := ht
    obtain ⟨x, es', rfl, hes'⟩ := emits_call.mp hes
    have hgo : Function.update ts i (some (rest x s)) i = some (rest x s) :=
      Function.update_self ..
    obtain ⟨s', hloop⟩ := ih x s (hk x s) hes' hgo (state x s)
    rw [Function.update_idem] at hloop
    exact ⟨s', Loop.answer i x hi hloop⟩

/-- A task can run from its start to its end without the others. -/
theorem Code.Alone.loop {i : ι} {es : List (Event Op Res)} {r : Except ε α}
    (hbody : (body i).Alone (p i)) (hes : Emits (p i) es r) (hi : ts i = none) (s : σ) :
    ∃ s', Loop body ts s (es.map (Prod.mk i)) (Function.update ts i (some (.ended r))) s' := by
  have hgo : Function.update ts i (some (body i s).2) i = some (body i s).2 :=
    Function.update_self ..
  obtain ⟨s', hloop⟩ : ∃ s', Loop body _ (body i s).1 _ _ s' := (hbody s).loop hes hgo _
  rw [Function.update_idem] at hloop
  exact ⟨s', Loop.start i hi hloop⟩

end EventLoop
