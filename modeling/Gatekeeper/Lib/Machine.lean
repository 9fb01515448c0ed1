import Mathlib.Data.Bool.Basic

/-!
# Machines that follow others

A machine takes events one after the other, and puts things out. A second machine follows it when
it takes only the events that are kept, and puts out only what is looked at: what a run of the
first puts out is then, as far as it is looked at, what the second puts out on the events kept.
-/

namespace Machine

variable {σ τ ε ω : Type}

/-- The state after some events and what was put out, unless one of them cannot be taken. -/
def run (step : σ → ε → Option (σ × List ω)) : σ → List ε → Option (σ × List ω)
  | s, [] => some (s, [])
  | s, e :: es => do
    let (s', out) ← step s e
    let (s'', rest) ← run step s' es
    return (s'', out ++ rest)

theorem run_cons {step : σ → ε → Option (σ × List ω)} {s s'' : σ} {e : ε} {es : List ε}
    {log : List ω} :
    run step s (e :: es) = some (s'', log) ↔
      ∃ s' out rest, step s e = some (s', out) ∧ run step s' es = some (s'', rest) ∧
        out ++ rest = log := by
  rw [run]
  constructor
  · intro h
    obtain ⟨⟨s', out⟩, hstep, h⟩ := Option.bind_eq_some_iff.mp h
    obtain ⟨⟨t, rest⟩, hrest, h⟩ := Option.bind_eq_some_iff.mp h
    obtain ⟨rfl, rfl⟩ := Prod.mk.inj (Option.some.inj h)
    exact ⟨s', out, rest, hstep, hrest, rfl⟩
  · rintro ⟨s', out, rest, hstep, hrest, rfl⟩
    exact Option.bind_eq_some_iff.mpr
      ⟨(s', out), hstep, Option.bind_eq_some_iff.mpr ⟨(s'', rest), hrest, rfl⟩⟩

/-- A run goes on after an event that is taken. -/
theorem exists_run_cons {step : σ → ε → Option (σ × List ω)} {s s' : σ} {e : ε} {es : List ε}
    {out : List ω} {Q : List ω → Prop} (h : step s e = some (s', out))
    (hrest : ∃ t rest, run step s' es = some (t, rest) ∧ Q (out ++ rest)) :
    ∃ t log, run step s (e :: es) = some (t, log) ∧ Q log := by
  obtain ⟨t, rest, hrun, hQ⟩ := hrest
  exact ⟨t, out ++ rest, run_cons.mpr ⟨s', out, rest, h, hrun, rfl⟩, hQ⟩

/-- The second machine follows the first on the events that are allowed: it takes the ones that are
kept and puts out what is looked at, and the others do not show. -/
structure Follows (step : σ → ε → Option (σ × List ω)) (step' : τ → ε → Option (τ × List ω))
    (allowed : ε → Prop) (keep : ε → Bool) (seen : ω → Bool) (R : σ → τ → Prop) : Prop where
  kept : ∀ {s s' : σ} {t : τ} {e : ε} {out : List ω}, R s t → allowed e → keep e = true →
    step s e = some (s', out) → ∃ t', step' t e = some (t', out.filter seen) ∧ R s' t'
  dropped : ∀ {s s' : σ} {t : τ} {e : ε} {out : List ω}, R s t → allowed e → keep e = false →
    step s e = some (s', out) → out.filter seen = [] ∧ R s' t

variable {step : σ → ε → Option (σ × List ω)} {step' : τ → ε → Option (τ × List ω)}
  {allowed : ε → Prop} {keep : ε → Bool} {seen : ω → Bool} {R : σ → τ → Prop}

/-- One run follows the other, event by event. -/
theorem Follows.run (h : Follows step step' allowed keep seen R) {s s' : σ} {t : τ} {es : List ε}
    {log : List ω} (hR : R s t) (hallowed : ∀ e ∈ es, allowed e)
    (hrun : run step s es = some (s', log)) :
    ∃ t', Machine.run step' t (es.filter keep) = some (t', log.filter seen) ∧ R s' t' := by
  induction es generalizing s t log with
  | nil =>
    obtain ⟨rfl, rfl⟩ := Prod.mk.inj (Option.some.inj hrun)
    exact ⟨t, rfl, hR⟩
  | cons e es ih =>
    rw [List.forall_mem_cons] at hallowed
    obtain ⟨u, out, rest, hstep, hrest, rfl⟩ := run_cons.mp hrun
    cases hkeep : keep e with
    | true =>
      obtain ⟨t₁, hstep', hR₁⟩ := h.kept hR hallowed.1 hkeep hstep
      obtain ⟨t₂, hrest', hR₂⟩ := ih hR₁ hallowed.2 hrest
      refine ⟨t₂, ?_, hR₂⟩
      rw [List.filter_cons_of_pos hkeep, List.filter_append]
      exact run_cons.mpr ⟨t₁, _, _, hstep', hrest', rfl⟩
    | false =>
      obtain ⟨hout, hR₁⟩ := h.dropped hR hallowed.1 hkeep hstep
      obtain ⟨t₂, hrest', hR₂⟩ := ih hR₁ hallowed.2 hrest
      refine ⟨t₂, ?_, hR₂⟩
      rw [List.filter_cons_of_neg (by simp [hkeep]), List.filter_append, hout, List.nil_append]
      exact hrest'

end Machine
