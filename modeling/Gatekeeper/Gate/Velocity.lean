import Gatekeeper.Gate.Spend

/-!
# The velocity limit

A caller may mix calls of `execute_action` and `spend` as it likes. Neither compares what
was approved with a number the tenant set: `execute_action` reads no total, and `spend`
takes its limit from the request.
-/

namespace Gatekeeper.Gate

open Encoding Interaction Unsigned

/-! ## Calls of either kind -/

inductive Call where
  | execute (req : ExecuteReq)
  | spend (req : SpendReq)

inductive CallOut where
  | execute (out : ExecuteOut)
  | spend (out : SpendOut)

def callWasm (C : Crates) : Call → Guest CallOut
  | .execute req => do
    let out ← executeActionWasm C req
    pure (.execute out)
  | .spend req => do
    let out ← spendWasm req
    pure (.spend out)

abbrev CallInvocation : Type := Invocation HostOp HostOp.Res Fault CallOut Call

/-- What a call approved: the amount `execute_action` dispatched, or `spend` admitted. -/
def approvedCents (i : CallInvocation) : ℕ :=
  match i.request, i.result with
  | .execute req, .ok (.execute out) => if out.dispatched then req.action.amountCents.toNat else 0
  | .spend req, .ok (.spend out) =>
    if out.decision = "approved" then req.action.amountCents.toNat else 0
  | _, _ => 0

theorem approvedCents_spend {i : CallInvocation} {req : SpendReq} {out : SpendOut}
    (hreq : i.request = .spend req) (hr : i.result = .ok (.spend out))
    (hdecision : out.decision = "approved") : approvedCents i = req.action.amountCents.toNat := by
  unfold approvedCents
  rw [hreq, hr]
  exact if_pos hdecision

/-- What a run of calls approved. -/
def totalApproved (is : List CallInvocation) : ℕ := (is.map approvedCents).sum

/-- Calls of one caller, on one day, against a tenant's maps. -/
structure CallerDay (C : Crates) (tid : Bytes) (s : Kv) (day : UInt64)
    (is : List CallInvocation) : Prop where
  session : ∃ s', Session (kvHost tid) (fun _ _ => False) (callWasm C) s is s'
  day : ∀ i ∈ is, dayOf i.trace = some day

/-! ## A caller that names the largest limit -/

/-- Under the largest limit every total is within it. -/
theorem admitsSpend_maxU64 {req : SpendReq} (h : req.dailyLimitCents.toNat = maxU64)
    (before : UInt64) : admitsSpend req before = true := by
  rw [admitsSpend_iff, h]
  exact Nat.min_le_right _ _

/-- So as long as the `spent` map works, such a call is approved, whatever was spent. -/
theorem Spending.approved_of_maxU64 {req : SpendReq} {t : List HostEvent}
    {r : Except Fault SpendOut} (h : Spending req t r)
    (hlimit : req.dailyLimitCents.toNat = maxU64) (hrel : ∀ mapName, Reliable mapName t) :
    ∃ out, r = .ok out ∧ out.decision = "approved" := by
  cases h with
  | @unreadable tid nowSecs a f hread =>
    obtain ⟨v, rfl⟩ := (hrel _).reads _ a
      (List.mem_cons_of_mem _ (List.mem_cons_of_mem _ List.mem_cons_self))
    cases v <;> cases hread
  | rejected _ hadmits =>
    rw [admitsSpend_maxU64 hlimit] at hadmits
    cases hadmits
  | unwritten =>
    cases (hrel _).writes _ _ _ (List.mem_append_right _ (List.mem_singleton_self _))
  | admitted _ hadmits => exact ⟨_, rfl, spendDecision_approved.mpr hadmits⟩

/-- A host over the tenant's maps that fails no call, at a fixed time. -/
def steadyHost (tid : Bytes) (nowSecs : UInt64) : (op : HostOp) → Kv → op.Res × Kv
  | .tenantDid, s => (tid, s)
  | .clusterTimestampSecs, s => (nowSecs, s)
  | .kvGet mapName key, s => (.ok (s mapName key), s)
  | .kvPut mapName key value, s => (.ok (), s.put mapName key value)
  | .httpCall _, s => (.error "", s)
  | .hwpCall _, s => (.error (.upstreamError ""), s)
  | .logInfo _, s => (.ok (), s)

theorem kvHost_steadyHost (tid : Bytes) (nowSecs : UInt64) (op : HostOp) (s : Kv) :
    kvHost tid op s (steadyHost tid nowSecs op s).1 (steadyHost tid nowSecs op s).2 := by
  cases op with
  | tenantDid => exact ⟨rfl, rfl⟩
  | kvGet mapName key => exact ⟨rfl, fun v hv => (Except.ok.inj hv).symm⟩
  | kvPut mapName key value => exact .inl rfl
  | clusterTimestampSecs => rfl
  | httpCall request => rfl
  | hwpCall request => rfl
  | logInfo message => rfl

section Steady

variable {tid : Bytes} {nowSecs : UInt64} {t : List HostEvent}

theorem reliable_of_steady (h : ∀ e ∈ t, ∃ s, e.res = (steadyHost tid nowSecs e.op s).1)
    (mapName : String) : Reliable mapName t where
  reads := by
    intro key a ha
    obtain ⟨s, hs⟩ := h _ ha
    exact ⟨_, hs⟩
  writes := by
    intro key value a ha
    obtain ⟨s, hs⟩ := h _ ha
    exact hs

/-- A call runs on the day of its host. -/
theorem Spending.day_of_steady {req : SpendReq} {r : Except Fault SpendOut}
    (h : Spending req t r) (ht : ∀ e ∈ t, ∃ s, e.res = (steadyHost tid nowSecs e.op s).1) :
    dayOf t = some (nowSecs / 86400) := by
  have hopening : ∃ tid' now a l, t = spendOpening tid' now a ++ l := by
    cases h with
    | unreadable => exact ⟨_, _, _, [], (List.append_nil _).symm⟩
    | rejected => exact ⟨_, _, _, _, rfl⟩
    | unwritten => exact ⟨_, _, _, _, rfl⟩
    | admitted => exact ⟨_, _, _, _, rfl⟩
  obtain ⟨tid', now, a, l, rfl⟩ := hopening
  obtain ⟨s, hnow⟩ := ht ⟨.clusterTimestampSecs, now⟩ (List.mem_cons_of_mem _ List.mem_cons_self)
  obtain rfl : now = nowSecs := hnow
  rfl

end Steady

/-- A spend of the largest amount under the largest limit. -/
def greedySpend : SpendReq where
  action := { sampleAction with amountCents := UInt64.ofNat maxU64 }
  dailyLimitCents := UInt64.ofNat maxU64
  window := ""

/-- A caller that repeats it. -/
def greedyDay (C : Crates) (tid : Bytes) (nowSecs : UInt64) (s : Kv) (n : ℕ) :
    List CallInvocation :=
  (runSession (steadyHost tid nowSecs) (callWasm C) (List.replicate n (.spend greedySpend)) s).1

section Greedy

variable {C : Crates} {tid : Bytes} {nowSecs : UInt64} {s : Kv} {n : ℕ} {i : CallInvocation}

theorem session_greedyDay (C : Crates) (tid : Bytes) (nowSecs : UInt64) (s : Kv) (n : ℕ) :
    ∃ s', Session (kvHost tid) (fun _ _ => False) (callWasm C) s
      (greedyDay C tid nowSecs s n) s' :=
  ⟨_, session_runSession (kvHost_steadyHost tid nowSecs) _ _ _ s⟩

/-- Every call of such a caller is approved, on the day it is made. -/
theorem approved_of_mem_greedyDay (hi : i ∈ greedyDay C tid nowSecs s n) :
    approvedCents i = maxU64 ∧ dayOf i.trace = some (nowSecs / 86400) := by
  have hreq : i.request = .spend greedySpend := by
    have hmem := List.mem_map_of_mem (f := fun i : CallInvocation => i.request) hi
    rw [greedyDay, map_request_runSession] at hmem
    exact List.eq_of_mem_replicate hmem
  obtain ⟨s', hsession⟩ := session_greedyDay C tid nowSecs s n
  have hemits := hsession.emits_of_mem hi
  rw [hreq] at hemits
  obtain ⟨r, hspend, hr⟩ := emits_bind_pure.mp hemits
  have hanswers : ∀ e ∈ i.trace, ∃ s, e.res = (steadyHost tid nowSecs e.op s).1 :=
    fun e he => res_of_mem_runSession hi he
  have hspending := spending_of_emits hspend
  obtain ⟨out, rfl, hdecision⟩ :=
    hspending.approved_of_maxU64 (by decide) (reliable_of_steady hanswers)
  refine ⟨?_, hspending.day_of_steady hanswers⟩
  exact approvedCents_spend hreq hr hdecision

/-- Such a caller passes any bound. -/
theorem lt_totalApproved_greedyDay (C : Crates) (tid : Bytes) (nowSecs : UInt64) (s : Kv)
    (bound : ℕ) : bound < totalApproved (greedyDay C tid nowSecs s (bound + 1)) := by
  have hlength : (greedyDay C tid nowSecs s (bound + 1)).length = bound + 1 := by
    have hmap := congrArg List.length (map_request_runSession (steadyHost tid nowSecs)
      (callWasm C) (List.replicate (bound + 1) (.spend greedySpend)) s)
    rwa [List.length_map, List.length_replicate] at hmap
  have hamounts : (greedyDay C tid nowSecs s (bound + 1)).map approvedCents =
      List.replicate (bound + 1) maxU64 := by
    rw [List.eq_replicate_iff, List.length_map]
    refine ⟨hlength, fun a ha => ?_⟩
    obtain ⟨i, hi, rfl⟩ := List.mem_map.mp ha
    exact (approved_of_mem_greedyDay hi).1
  rw [totalApproved, hamounts, List.sum_replicate, nsmul_eq_mul]
  exact Nat.lt_of_lt_of_le (Nat.lt_succ_self bound) (Nat.le_mul_of_pos_right _ (by decide))

theorem callerDay_greedyDay (C : Crates) (tid : Bytes) (nowSecs : UInt64) (s : Kv) (n : ℕ) :
    CallerDay C tid s (nowSecs / 86400) (greedyDay C tid nowSecs s n) :=
  ⟨session_greedyDay C tid nowSecs s n, fun _ hi => (approved_of_mem_greedyDay hi).2⟩

end Greedy

/-- No state of the tenant's maps bounds what a caller gets approved in a day: whatever the
state, the day and the bound, some run of calls passes it. -/
theorem no_velocity_bound (C : Crates) (tid : Bytes) (s : Kv) (nowSecs : UInt64) (bound : ℕ) :
    ∃ is, CallerDay C tid s (nowSecs / 86400) is ∧ bound < totalApproved is :=
  ⟨greedyDay C tid nowSecs s (bound + 1), callerDay_greedyDay C tid nowSecs s (bound + 1),
    lt_totalApproved_greedyDay C tid nowSecs s bound⟩

/-- The maps of the sample tenant do not bound the day. -/
theorem velocity_limit_not_tenants :
    ¬ ∀ (C : Crates) (tid : Bytes) (s : Kv), ∃ bound, ∀ day is,
      CallerDay C tid s day is → totalApproved is ≤ bound := by
  intro h
  obtain ⟨bound, hbound⟩ := h sampleCrates sampleTid sampleKv
  have hle := hbound _ _ (callerDay_greedyDay sampleCrates sampleTid 0 sampleKv (bound + 1))
  exact absurd hle (Nat.not_le_of_lt (lt_totalApproved_greedyDay _ _ _ _ bound))

end Gatekeeper.Gate
