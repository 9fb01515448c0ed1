import Gatekeeper.Lib.TwoRuns

/-!
# The operations a program performs in a pool

What a program is `Within`, every run of it respects, finished or not. So does every pool it
is part of, whatever the host answers and the other programs do.
-/

namespace Interaction

variable {Op : Type} {Res : Op → Type} {ε α β σ ι : Type} {P : Op → Prop}

theorem within_fail (e : ε) : Within P (Prog.fail e : Prog Op Res ε α) := trivial

/-- One operation, and then whatever its answer leads to. -/
theorem within_perform_bind {op : Op} {f : Res op → Prog Op Res ε β} (h : P op)
    (hf : ∀ x, Within P (f x)) : Within P (Prog.perform op >>= f) :=
  within_bind (within_perform h) hf

/-- A run keeps to the operations of its program. -/
theorem Within.of_steps {p q : Prog Op Res ε α} {t : List (Event Op Res)} (h : Within P p)
    (hsteps : Steps p t q) : ∀ e ∈ t, P e.op := by
  induction hsteps with
  | nil p => exact fun e he => absurd he List.not_mem_nil
  | cons _ ih => exact List.forall_mem_cons.mpr ⟨h.1, ih (h.2 _)⟩

/-- In a pool each program keeps to its own operations. -/
theorem Pool.within [DecidableEq ι] {H : HostRel Op Res σ} {env : σ → σ → Prop}
    {ps ps' : ι → Prog Op Res ε α} {s s' : σ} {tr : List (ι × Event Op Res)}
    (h : Pool H env ps s tr ps' s') {i : ι} (hi : Within P (ps i)) {e : Event Op Res}
    (he : (i, e) ∈ tr) : P e.op :=
  hi.of_steps (h.steps_proj i) e (mem_proj.mpr he)

/-- While no program makes a call only the environment moves. -/
theorem Pool.env_of_nil [DecidableEq ι] {H : HostRel Op Res σ} {env : σ → σ → Prop}
    {ps ps' : ι → Prog Op Res ε α} {s s' : σ} (h : Pool H env ps s [] ps' s') :
    Relation.ReflTransGen env s s' := by
  generalize hl : ([] : List (ι × Event Op Res)) = l at h
  induction h with
  | nil => exact .refl
  | env he _ ih => exact .head he (ih hl)
  | call => cases hl

/-- The states around the last call of a pool. -/
theorem Pool.unsnoc [DecidableEq ι] {H : HostRel Op Res σ} {env : σ → σ → Prop}
    {ps ps' : ι → Prog Op Res ε α} {s s' : σ} {tr : List (ι × Event Op Res)}
    {e : ι × Event Op Res} (h : Pool H env ps s (tr ++ [e]) ps' s') :
    ∃ qs u s₁ s₂, Pool H env ps s tr qs u ∧ Relation.ReflTransGen env u s₁ ∧
      H e.2.op s₁ e.2.res s₂ ∧ Relation.ReflTransGen env s₂ s' := by
  obtain ⟨qs, u, hbefore, hlast⟩ := h.split
  obtain ⟨s₁, s₂, qs', henv, hH, hrest⟩ := hlast.uncons
  exact ⟨qs, u, s₁, s₂, hbefore, henv, hH, hrest.env_of_nil⟩

end Interaction
