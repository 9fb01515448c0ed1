import Gatekeeper.Gate.Provenance

/-!
# `spend` without transactions

When the host calls of several `spend` invocations interleave, the total of a day may lose an
addition, but it never gains one: it stays within what stood there at first and the amounts of
the calls that wrote it.
-/

namespace Gatekeeper.Gate

open Encoding Interaction Unsigned

/-- The entry a call writes. -/
def HostOp.writtenEntry (op : HostOp) : Option (String × Bytes) :=
  op.written.map fun entry => (entry.1, entry.2.1)

section Pool

variable {ι : Type} [DecidableEq ι] {C : Crates} {R : Requests} {calls : ι → ComponentCall}
  {tid : Bytes} {env : Kv → Kv → Prop} {s s' : Kv} {tr tr₁ tr₂ : List (ι × HostEvent)}
  {ps' : ι → Guest ComponentOut} {i : ι} {day : UInt64} {total : ℕ}

/-- The amount a call asks `spend` to add. -/
def amountAsked (R : Requests) (call : ComponentCall) : ℕ :=
  match requestOf "spend" R.spend call.input with
  | .ok req => req.action.amountCents.toNat
  | .error _ => 0

/-- The amounts of the calls that wrote the total of a day. -/
def amountsWritten (R : Requests) (calls : ι → ComponentCall) (tid : Bytes) (day : UInt64)
    (tr : List (ι × HostEvent)) : List ℕ :=
  (tr.filter fun e => e.2.op.writtenEntry = some (spentOf tid, dayKey day)).map fun e =>
    amountAsked R (calls e.1)

omit [DecidableEq ι] in
theorem sum_amountsWritten_append :
    (amountsWritten R calls tid day (tr₁ ++ tr₂)).sum =
      (amountsWritten R calls tid day tr₁).sum + (amountsWritten R calls tid day tr₂).sum := by
  simp [amountsWritten]

/-- A run of `spend` that writes a total had read the one it adds to. -/
theorem Spending.write_follows_read {req : SpendReq} {u w : List HostEvent} {e : HostEvent}
    {r : Except Fault SpendOut} {entry : String × Bytes} (h : Spending req (u ++ e :: w) r)
    (he : e.op.writtenEntry = some entry) :
    ∃ tid' nowSecs a before, spendOpening tid' nowSecs a ⊆ u ∧ totalOf a = .ok before ∧
      admitsSpend req before = true ∧ e.op = totalWrite req tid' nowSecs before := by
  have hnot : ∀ {tid' nowSecs a}, e ∉ spendOpening tid' nowSecs a := by
    intro tid' nowSecs a hmem
    simp only [spendOpening, List.mem_cons, List.not_mem_nil, or_false] at hmem
    rcases hmem with rfl | rfl | rfl <;> cases he
  have hlog : ∀ {l}, Logs l → e ∉ l := by
    intro l hl hmem
    obtain ⟨message, hop⟩ := hl e hmem
    rw [hop] at he
    cases he
  have hmem : e ∈ u ++ e :: w := by simp
  generalize ht : u ++ e :: w = t at h hmem
  cases h with
  | unreadable => exact absurd hmem hnot
  | rejected _ _ hl =>
    rcases List.mem_append.mp hmem with hmem | hmem
    · exact absurd hmem hnot
    · exact absurd hmem (hlog hl)
  | @unwritten tid' nowSecs a before err f hread hadmits =>
    refine ⟨tid', nowSecs, a, before, (prefix_of_append_cons ht hnot).subset, hread, hadmits, ?_⟩
    rcases List.mem_append.mp hmem with hmem | hmem
    · exact absurd hmem hnot
    · rw [List.mem_singleton.mp hmem]
  | @admitted tid' nowSecs a before l hread hadmits hl =>
    refine ⟨tid', nowSecs, a, before, (prefix_of_append_cons ht hnot).subset, hread, hadmits, ?_⟩
    rcases List.mem_append.mp hmem with hmem | hmem
    · exact absurd hmem hnot
    · rcases List.mem_cons.mp hmem with rfl | hmem
      · rfl
      · exact absurd hmem (hlog hl)

/-- A call that wrote the total of a day is a `spend` that had read that total before. -/
theorem pool_total_written {e : HostEvent}
    (h : Pool (kvHost tid) env (invoked C R calls) s (tr₁ ++ (i, e) :: tr₂) ps' s')
    (he : e.op.writtenEntry = some (spentOf tid, dayKey day)) :
    ∃ req a before, requestOf "spend" R.spend (calls i).input = .ok req ∧
      (i, (⟨.kvGet (spentOf tid) (dayKey day), a⟩ : HostEvent)) ∈ tr₁ ∧ totalOf a = .ok before ∧
      admitsSpend req before = true ∧
      e.op = .kvPut (spentOf tid) (dayKey day)
        (utf8 (toString (saturatingAdd before req.action.amountCents))) := by
  obtain ⟨t, hrun⟩ := pool_componentRun h i
  have hproj : proj i (tr₁ ++ (i, e) :: tr₂) ++ t = proj i tr₁ ++ e :: (proj i tr₂ ++ t) := by
    simp [proj]
  rw [hproj] at hrun
  -- only `spend` writes the totals
  have hspend : (calls i).function = .spend := by
    obtain ⟨tid', hmay, -⟩ := pool_may_call h i
    have hop := hmay e (List.mem_append_right _ List.mem_cons_self)
    obtain ⟨op, x⟩ := e
    cases op with
    | kvPut m key value =>
      have hmap : m = spentOf tid := congrArg Prod.fst (Option.some.inj he)
      rcases hop.put with ⟨hf, -⟩ | ⟨-, hm⟩
      · exact hf
      · exact absurd (hm.symm.trans hmap) (dispatchedMap_ne_spentMap _ _)
    | _ => cases he
  generalize ht : proj i tr₁ ++ e :: (proj i tr₂ ++ t) = trace at hrun
  cases hrun with
  | refused => simp at ht
  | evaluate hf => simp [hf] at hspend
  | dispatchAction hf => simp [hf] at hspend
  | executeAction hf => simp [hf] at hspend
  | @spend req trace r _ hreq hemits =>
    subst ht
    obtain ⟨tid', nowSecs, a, before, hopen, hread, hadmits, hop⟩ :=
      (spending_of_emits hemits).write_follows_read he
    have htid : (i, (⟨.tenantDid, tid'⟩ : HostEvent)) ∈ tr₁ :=
      mem_proj.mp (hopen (by simp [spendOpening]))
    obtain rfl : tid' = tid := tenantDid_of_mem h (List.mem_append_left _ htid)
    rw [hop] at he
    have hday : utf8 (dayBucket nowSecs) = dayKey day := congrArg Prod.snd (Option.some.inj he)
    refine ⟨req, a, before, hreq, ?_, hread, hadmits, ?_⟩
    · rw [← hday]
      exact mem_proj.mp (hopen (by simp [spendOpening, spentOf]))
    · rw [hop, ← hday]
      rfl

/-- What a step that is no such write does to the total of a day: nothing. -/
theorem total_kept {op : HostOp} {x : op.Res} {u w : Kv} (h : kvHost tid op u x w)
    (hop : op.writtenEntry ≠ some (spentOf tid, dayKey day)) :
    w (spentOf tid) (dayKey day) = u (spentOf tid) (dayKey day) := by
  by_contra hne
  obtain ⟨value, rfl⟩ := changesByPut_kvHost tid op u x w _ _ h hne
  exact hop rfl

/-- A total that was read is the one that stood there. -/
theorem total_read {a : Except String (Option Bytes)} {before : UInt64} {u w : Kv}
    (hspells : Spells (u (spentOf tid) (dayKey day)) total)
    (hget : kvHost tid (.kvGet (spentOf tid) (dayKey day)) u a w) (hread : totalOf a = .ok before) :
    before.toNat = total := by
  cases a with
  | error err => cases hread
  | ok v =>
    rw [hget.2 v rfl] at hread
    exact totalOf_spells hspells hread

/-- However calls of the component interleave, the total of a day is at most what it was and the
amounts of the calls that wrote it; and it is what it was or within the limit of one of them. -/
theorem spent_never_overcounted
    (henv : ∀ u w, env u w → w (spentOf tid) (dayKey day) = u (spentOf tid) (dayKey day))
    (hstart : Spells (s (spentOf tid) (dayKey day)) total)
    (h : Pool (kvHost tid) env (invoked C R calls) s tr ps' s') :
    ∃ total', Spells (s' (spentOf tid) (dayKey day)) total' ∧
      total' ≤ total + (amountsWritten R calls tid day tr).sum ∧
      (total' = total ∨ ∃ i req, requestOf "spend" R.spend (calls i).input = .ok req ∧
        total' ≤ req.dailyLimitCents.toNat) := by
  have hquiet : ∀ {u w}, Relation.ReflTransGen env u w →
      w (spentOf tid) (dayKey day) = u (spentOf tid) (dayKey day) := by
    intro u w hsteps
    induction hsteps with
    | refl => rfl
    | tail _ hstep ih => exact (henv _ _ hstep).trans ih
  -- by the length of the trace: a write goes back to a read, which is a shorter pool
  induction hn : tr.length using Nat.strong_induction_on generalizing tr ps' s' with
  | _ n ih =>
    rcases tr.eq_nil_or_concat with rfl | ⟨tr₁, ⟨i, e⟩, rfl⟩
    · rw [hquiet h.env_of_nil]
      exact ⟨total, hstart, Nat.le_add_right _ _, .inl rfl⟩
    rw [List.concat_eq_append] at h hn ⊢
    rw [List.length_append, List.length_singleton] at hn
    obtain ⟨qs, u, s₁, s₂, hbefore, henv₁, hH, henv₂⟩ := h.unsnoc
    rw [hquiet henv₂, sum_amountsWritten_append]
    obtain ⟨total₁, hspells, hle, hlimit⟩ := ih tr₁.length (by omega) hbefore rfl
    rw [← hquiet henv₁] at hspells
    by_cases he : e.op.writtenEntry = some (spentOf tid, dayKey day)
    · obtain ⟨req, a, before, hreq, hmem, hread, hadmits, hop⟩ := pool_total_written h he
      obtain ⟨op, x⟩ := e
      obtain rfl : op = _ := hop
      rcases hH with rfl | ⟨rfl, -⟩
      · obtain ⟨total₀, hle₀, hbefore⟩ : ∃ total₀,
            total₀ ≤ total + (amountsWritten R calls tid day tr₁).sum ∧ before.toNat = total₀ := by
          obtain ⟨v₁, v₂, rfl⟩ := List.append_of_mem hmem
          obtain ⟨qs', u', hpool, hrest⟩ := hbefore.split
          obtain ⟨w₁, w₂, qs'', henv', hget, -⟩ := hrest.uncons
          rw [List.length_append, List.length_cons] at hn
          obtain ⟨total₀, hspells₀, hle₀, -⟩ := ih v₁.length (by omega) hpool rfl
          rw [← hquiet henv'] at hspells₀
          rw [sum_amountsWritten_append]
          exact ⟨total₀, by omega, total_read hspells₀ hget hread⟩
        have hasked : (amountsWritten R calls tid day
            [(i, (⟨.kvPut (spentOf tid) (dayKey day) _, x⟩ : HostEvent))]).sum =
            req.action.amountCents.toNat := by
          simp [amountsWritten, HostOp.writtenEntry, HostOp.written, amountAsked, hreq]
        refine ⟨_, by rw [Kv.put_self]; exact spells_toString _, ?_, .inr ⟨i, req, hreq, ?_⟩⟩
        · rw [hasked, toNat_saturatingAdd]
          omega
        · rw [toNat_saturatingAdd]
          exact admitsSpend_iff.mp hadmits
      · exact ⟨total₁, hspells, by omega, hlimit⟩
    · rw [total_kept hH he]
      exact ⟨total₁, hspells, by omega, hlimit⟩

end Pool

theorem spent_never_overcounted_sample : ∃ total,
    Spells ((sampleRace raceSchedule).2.2 (spentOf sampleTid) (dayKey 19675)) total ∧
      total ≤ 0 + (amountsWritten sampleRequests sampleCalls sampleTid 19675
        (sampleRace raceSchedule).1).sum ∧
      (total = 0 ∨ ∃ i req,
        requestOf "spend" sampleRequests.spend (sampleCalls i).input = .ok req ∧
          total ≤ req.dailyLimitCents.toNat) := by
  have hnone : openKv (spentOf sampleTid) (dayKey 19675) = none := by
    rw [openKv, if_neg (by decide), if_neg (by decide)]
  have hstart : Spells (openKv (spentOf sampleTid) (dayKey 19675)) 0 := by
    rw [hnone]
    rfl
  exact spent_never_overcounted (fun _ _ h => h.elim) hstart (pool_sampleRace raceSchedule)

end Gatekeeper.Gate
