import Gatekeeper.Lib.Interaction

/-!
# Cells of a host

A part of a host's state that some operations write and the others leave alone. What stands in it
was written; and it stands there for sure once a write of it came through, if all writes agree.
-/

namespace Interaction

variable {Op : Type} {Res : Op → Type} {ε α β σ γ : Type}

/-- How a cell is read, what an operation writes to it, and which answers tell that it was
written. -/
structure Cell (H : HostRel Op Res σ) (γ : Type) where
  read : σ → Option γ
  writes : Op → Option γ
  sure : (op : Op) → Res op → Prop
  step : ∀ {op s x s'}, H op s x s' → read s' = read s ∨ (writes op ≠ none ∧ read s' = writes op)
  written : ∀ {op s x s'}, H op s x s' → sure op x → writes op ≠ none → read s' = writes op

/-- What the environment does by itself is a session without invocations. -/
theorem Session.of_env {H : HostRel Op Res σ} {env : σ → σ → Prop} {body : β → Prog Op Res ε α}
    {s s' : σ} (h : Relation.ReflTransGen env s s') : Session H env body s [] s' := by
  induction h using Relation.ReflTransGen.head_induction_on with
  | refl => exact .nil _
  | head hmove _ ih => exact .env hmove ih

namespace Cell

variable {H : HostRel Op Res σ} {c : Cell H γ} {s s' : σ} {t : List (Event Op Res)} {v : γ}

/-- What stands in the cell after a trace stood there before, or was written. -/
theorem origin (h : Along H s t s') (hv : c.read s' = some v) :
    c.read s = some v ∨ ∃ e ∈ t, c.writes e.op = some v := by
  induction h with
  | nil => exact .inl hv
  | @cons s s₁ s' e t hstep _ ih =>
    rcases ih hv with hbefore | ⟨e', he', hwrites⟩
    · rcases c.step hstep with hsame | ⟨-, hwritten⟩
      · exact .inl (hsame ▸ hbefore)
      · exact .inr ⟨e, List.mem_cons_self, hwritten ▸ hbefore⟩
    · exact .inr ⟨e', List.mem_cons_of_mem _ he', hwrites⟩

/-- If nothing else is written, what stands in the cell stays. -/
theorem stays (h : Along H s t s') (hall : ∀ e ∈ t, c.writes e.op = none ∨ c.writes e.op = some v)
    (hv : c.read s = some v) : c.read s' = some v := by
  refine h.invariant (I := fun s => c.read s = some v) (fun e he s s' hstep hs => ?_) hv
  rcases c.step hstep with hsame | ⟨hne, hwritten⟩
  · rw [hsame, hs]
  · rw [hwritten]
    exact (hall e he).resolve_left hne

/-- If nothing else is written, what came through stands there in the end. -/
theorem settles (h : Along H s t s')
    (hall : ∀ e ∈ t, c.writes e.op = none ∨ c.writes e.op = some v) {e : Event Op Res} (he : e ∈ t)
    (hwrites : c.writes e.op = some v) (hsure : c.sure e.op e.res) : c.read s' = some v := by
  obtain ⟨t₁, t₂, rfl⟩ := List.append_of_mem he
  obtain ⟨s₁, -, hrest⟩ := along_append.mp h
  obtain ⟨s₂, hstep, hlater⟩ := along_cons.mp hrest
  have hnow : c.read s₂ = some v := by
    rw [c.written hstep hsure (by rw [hwrites]; exact Option.some_ne_none v), hwrites]
  exact stays hlater (fun e' he' => hall e' (List.mem_append_right _ (List.mem_cons_of_mem _ he')))
    hnow

variable {env : σ → σ → Prop} {body : β → Prog Op Res ε α} {is : List (Invocation Op Res ε α β)}
  {i : Invocation Op Res ε α β}

/-- In a session whose environment leaves the cell alone, what stands there was written by one of
the invocations. -/
theorem session_origin (h : Session H env body s is s')
    (henv : ∀ s s', env s s' → c.read s' = c.read s) (hv : c.read s' = some v) :
    c.read s = some v ∨ ∃ i ∈ is, ∃ e ∈ i.trace, c.writes e.op = some v := by
  induction h with
  | nil => exact .inl hv
  | env he _ ih =>
    rcases ih hv with hbefore | hwritten
    · exact .inl (henv _ _ he ▸ hbefore)
    · exact .inr hwritten
  | @invoke s s₁ s' i is hi ha _ ih =>
    rcases ih hv with hbefore | ⟨j, hj, hwritten⟩
    · rcases origin ha hbefore with hstart | hwritten
      · exact .inl hstart
      · exact .inr ⟨i, List.mem_cons_self, hwritten⟩
    · exact .inr ⟨j, List.mem_cons_of_mem _ hj, hwritten⟩

/-- The last invocation of a session, with the states around it. -/
theorem session_last (h : Session H env body s (is ++ [i]) s') :
    ∃ s₁ s₂, Emits (body i.request) i.trace i.result ∧ Along H s₁ i.trace s₂ ∧
      Session H env body s₂ [] s' := by
  obtain ⟨s₀, -, hlast⟩ := h.split
  obtain ⟨s₁, s₂, -, hemits, halong, hrest⟩ := hlast.uncons
  exact ⟨s₁, s₂, hemits, halong, hrest⟩

/-- After the last invocation only the environment moves. -/
theorem read_of_session_nil (h : Session H env body s [] s')
    (henv : ∀ s s', env s s' → c.read s' = c.read s) : c.read s' = c.read s := by
  generalize hl : ([] : List (Invocation Op Res ε α β)) = l at h
  induction h with
  | nil => rfl
  | env he _ ih => rw [ih hl, henv _ _ he]
  | invoke => cases hl

end Cell

end Interaction
