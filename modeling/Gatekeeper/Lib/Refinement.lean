import Gatekeeper.Lib.Interaction

/-!
# Machines that refine others

A machine answers each input and goes on. It refines a second machine when related states answer
alike and stay related; then runs answer alike. And the state that a program leaves, against a
host that answers by a function.
-/

namespace Refinement

variable {σ τ ι ω : Type}

/-- The answers to some inputs, one after the other, and the state they leave. -/
def runs (step : σ → ι → ω × σ) : List ι → σ → List ω × σ
  | [], s => ([], s)
  | i :: is, s =>
    let rest := runs step is (step s i).2
    ((step s i).1 :: rest.1, rest.2)

/-- Related states answer alike, and what they leave is related. -/
structure Refines (step : σ → ι → ω × σ) (spec : τ → ι → ω × τ) (R : σ → τ → Prop) : Prop where
  answer : ∀ {s t} i, R s t → (step s i).1 = (spec t i).1
  keeps : ∀ {s t} i, R s t → R (step s i).2 (spec t i).2

theorem Refines.runs {step : σ → ι → ω × σ} {spec : τ → ι → ω × τ} {R : σ → τ → Prop}
    (h : Refines step spec R) {s : σ} {t : τ} (hR : R s t) (is : List ι) :
    (runs step is s).1 = (Refinement.runs spec is t).1 ∧
      R (Refinement.runs step is s).2 (Refinement.runs spec is t).2 := by
  induction is generalizing s t with
  | nil => exact ⟨rfl, hR⟩
  | cons i is ih =>
    obtain ⟨hanswers, hlast⟩ := ih (h.keeps i hR)
    refine ⟨?_, hlast⟩
    simp only [Refinement.runs, h.answer i hR, hanswers]

end Refinement

namespace Interaction

variable {Op : Type} {Res : Op → Type} {ε α β σ : Type}

/-- What is left of a sequence: the failure of its first part, or what follows on its value. -/
theorem runFrom_bind (f : (op : Op) → σ → Res op × σ) (p : Prog Op Res ε α)
    (g : α → Prog Op Res ε β) (s : σ) :
    (runFrom f (p >>= g) s).2 =
      match (runFrom f p s).2 with
      | (.error e, s') => (.error e, s')
      | (.ok a, s') => (runFrom f (g a) s').2 := by
  show (runFrom f (p.bind g) s).2 = _
  induction p generalizing s with
  | done r => cases r <;> rfl
  | call op k ih => exact ih _ _

theorem runFrom_perform_bind (f : (op : Op) → σ → Res op × σ) (op : Op)
    (g : Res op → Prog Op Res ε β) (s : σ) :
    (runFrom f (Prog.perform op >>= g) s).2 = (runFrom f (g (f op s).1) (f op s).2).2 := rfl

end Interaction
