import Gatekeeper.Lib.Interaction

/-!
# Two runs side by side

Two ways to show that what differs between two hosts does not show in what a program does.
A program that never asks for the part that differs runs in the same way against both
(`Within`). A program that does ask, and passes it on, is compared with itself step by step:
`Lockstep` relates the calls it makes, and the answers it gets, in the two runs.
-/

namespace Interaction

open Prog

variable {Op : Type} {Res : Op → Type} {ε α α' β β' : Type}

/-! ## Calls that are never made -/

/-- Every call the program may make is one of `P`. -/
def Within (P : Op → Prop) : Prog Op Res ε α → Prop
  | .done _ => True
  | .call op k => P op ∧ ∀ x, Within P (k x)

section Within

variable {P : Op → Prop}

theorem within_pure (a : α) : Within P (pure a : Prog Op Res ε α) := trivial

theorem within_ofExcept (r : Except ε α) : Within P (ofExcept r : Prog Op Res ε α) := trivial

theorem within_perform {op : Op} (h : P op) :
    Within P (perform op : Prog Op Res ε (Res op)) := ⟨h, fun _ => trivial⟩

theorem within_bind {p : Prog Op Res ε α} {f : α → Prog Op Res ε β} (hp : Within P p)
    (hf : ∀ a, Within P (f a)) : Within P (p >>= f) := by
  show Within P (p.bind f)
  induction p with
  | done r =>
    cases r with
    | error e => trivial
    | ok a => exact hf a
  | call op k ih => exact ⟨hp.1, fun x => ih x (hp.2 x)⟩

/-- Hosts that agree on the calls a program may make see one run of it. -/
theorem Within.run_congr {answer answer' : (op : Op) → Res op} {p : Prog Op Res ε α}
    (hp : Within P p) (h : ∀ op, P op → answer op = answer' op) :
    run answer p = run answer' p := by
  induction p with
  | done r => rfl
  | call op k ih =>
    have hrest := ih (answer op) (hp.2 _)
    simp only [run, ← h op hp.1, hrest]

end Within

/-! ## Calls that correspond -/

/-- Which calls of two runs correspond, and which of their answers do. -/
structure Link (Op : Type) (Res : Op → Type) where
  calls : Op → Op → Prop
  answers : (op op' : Op) → Res op → Res op' → Prop

/-- Both results are the same failure, or they are values that `V` relates. -/
inductive SameEnd (V : α → α' → Prop) : Except ε α → Except ε α' → Prop where
  | ok {a : α} {b : α'} : V a b → SameEnd V (.ok a) (.ok b)
  | error (e : ε) : SameEnd V (.error e) (.error e)

theorem SameEnd.refl {V : α → α → Prop} (hV : ∀ a, V a a) (r : Except ε α) : SameEnd V r r := by
  cases r with
  | error e => exact .error e
  | ok a => exact .ok (hV a)

/-- As long as their answers correspond, the two programs make corresponding calls, and they
end alike. -/
inductive Lockstep (L : Link Op Res) (V : α → α' → Prop) :
    Prog Op Res ε α → Prog Op Res ε α' → Prop where
  | done {r : Except ε α} {r' : Except ε α'} : SameEnd V r r' → Lockstep L V (.done r) (.done r')
  | call {op op' : Op} {k : Res op → Prog Op Res ε α} {k' : Res op' → Prog Op Res ε α'} :
      L.calls op op' → (∀ x y, L.answers op op' x y → Lockstep L V (k x) (k' y)) →
      Lockstep L V (.call op k) (.call op' k')

section Lockstep

variable {L : Link Op Res} {V : α → α' → Prop} {W : β → β' → Prop}

theorem lockstep_pure {a : α} {b : α'} (h : V a b) :
    Lockstep L V (pure a : Prog Op Res ε α) (pure b) := .done (.ok h)

theorem lockstep_ofExcept {r : Except ε α} {r' : Except ε α'} (h : SameEnd V r r') :
    Lockstep L V (ofExcept r : Prog Op Res ε α) (ofExcept r') := .done h

theorem lockstep_perform {op op' : Op} (h : L.calls op op') :
    Lockstep L (L.answers op op') (perform op : Prog Op Res ε (Res op)) (perform op') :=
  .call h fun _ _ hxy => .done (.ok hxy)

theorem lockstep_bind {p : Prog Op Res ε α} {p' : Prog Op Res ε α'} {f : α → Prog Op Res ε β}
    {f' : α' → Prog Op Res ε β'} (hp : Lockstep L V p p')
    (hf : ∀ a b, V a b → Lockstep L W (f a) (f' b)) : Lockstep L W (p >>= f) (p' >>= f') := by
  show Lockstep L W (p.bind f) (p'.bind f')
  induction hp with
  | done h =>
    cases h with
    | ok h => exact hf _ _ h
    | error e => exact .done (.error e)
  | call h _ ih => exact .call h fun x y hxy => ih x y hxy

/-- Two runs in lockstep, whose corresponding calls are answered correspondingly, make
corresponding calls and end alike. -/
theorem Lockstep.runs {p : Prog Op Res ε α} {p' : Prog Op Res ε α'}
    {t t' : List (Event Op Res)} {r : Except ε α} {r' : Except ε α'} (h : Lockstep L V p p')
    (ht : Emits p t r) (ht' : Emits p' t' r')
    (ha : ∀ e ∈ t, ∀ e' ∈ t', L.calls e.op e'.op → L.answers e.op e'.op e.res e'.res) :
    List.Forall₂ (fun e e' => L.calls e.op e'.op) t t' ∧ SameEnd V r r' := by
  induction h generalizing t t' with
  | done h =>
    obtain ⟨rfl, rfl⟩ := emits_done.mp ht
    obtain ⟨rfl, rfl⟩ := emits_done.mp ht'
    exact ⟨.nil, h⟩
  | call hcalls _ ih =>
    obtain ⟨x, u, rfl, hu⟩ := emits_call.mp ht
    obtain ⟨y, u', rfl, hu'⟩ := emits_call.mp ht'
    -- the first answers correspond, so the rest is again in lockstep
    have hxy := ha _ List.mem_cons_self _ List.mem_cons_self hcalls
    obtain ⟨hrest, hend⟩ := ih x y hxy hu hu' fun e he e' he' =>
      ha e (List.mem_cons_of_mem _ he) e' (List.mem_cons_of_mem _ he')
    exact ⟨.cons hcalls hrest, hend⟩

end Lockstep

end Interaction
