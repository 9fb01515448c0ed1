import Mathlib.Data.List.Nodup
import Mathlib.Data.List.Perm.Subperm
import Gatekeeper.Gate.Sessions

/-!
# Invocations at the same time

Pools of `execute_action` under one idempotency key, whose host calls interleave one by one.
The lookup, the outbound call and the record are three calls, so every invocation that
looks the key up before a record is written may call out; none that looks it up later does.
-/

namespace Gatekeeper.Gate

open Encoding Interaction

/-! ## Lookups, calls and records -/

/-- The event reads the record of a key. -/
def IsLookup (tid : Bytes) (k : String) (e : HostEvent) : Prop :=
  e.op = .kvGet (dispatchedOf tid) (utf8 k)

instance (tid : Bytes) (k : String) (e : HostEvent) : Decidable (IsLookup tid k e) :=
  inferInstanceAs (Decidable (_ = _))

/-- The event writes a record of a key. -/
def IsRecord (tid : Bytes) (k : String) (e : HostEvent) : Prop :=
  e.op.written.map (fun w => (w.1, w.2.1)) = some (dispatchedOf tid, utf8 k)

instance (tid : Bytes) (k : String) (e : HostEvent) : Decidable (IsRecord tid k e) :=
  inferInstanceAs (Decidable (_ = _))

/-- Some record is stored under the key. -/
def Known (tid : Bytes) (k : String) (s : Kv) : Prop := s (dispatchedOf tid) (utf8 k) ≠ none

theorem known_of_kvHost {tid : Bytes} {k : String} {op : HostOp} {x : op.Res} {s s' : Kv}
    (h : kvHost tid op s x s') (hs : Known tid k s) : Known tid k s' := by
  cases hop : op.written with
  | none => rwa [kvHost_of_not_written h hop]
  | some w =>
    cases op with
    | kvPut mapName key value =>
      rcases h with rfl | ⟨rfl, -⟩
      -- a write to the key stores a record, a write elsewhere leaves it alone
      · by_cases hsame : dispatchedOf tid = mapName ∧ utf8 k = key
        · obtain ⟨rfl, rfl⟩ := hsame
          rw [Known, Kv.put_self]
          exact Option.some_ne_none value
        · rwa [Known, Kv.put, if_neg hsame]
      · exact hs
    | _ => cases hop

/-- A record that is written is there. -/
theorem known_of_isRecord {tid : Bytes} {k : String} {e : HostEvent} {s s' : Kv}
    (he : IsRecord tid k e) (hrel : Reliable (dispatchedOf tid) [e])
    (h : kvHost tid e.op s e.res s') : Known tid k s' := by
  obtain ⟨op, x⟩ := e
  cases op with
  | kvPut mapName key value =>
    have hentry : (mapName, key) = (dispatchedOf tid, utf8 k) := Option.some.inj he
    cases hentry
    obtain rfl : x = .ok () := hrel.writes (utf8 k) value x List.mem_cons_self
    rcases h with rfl | ⟨-, err, herr⟩
    · rw [Known, Kv.put_self]
      exact Option.some_ne_none value
    · cases herr
  | _ => cases he

/-- An element that is not in `l` can only come after all of it. -/
theorem prefix_of_append_cons {α : Type} {l l' u w : List α} {e : α} (h : u ++ e :: w = l ++ l')
    (he : e ∉ l) : l <+: u := by
  rcases List.append_eq_append_iff.mp h with ⟨m, hl, hrest⟩ | ⟨m, hu, -⟩
  · cases m with
    | nil =>
      rw [hl, List.append_nil]
    | cons x m =>
      obtain ⟨rfl, -⟩ := List.cons.inj hrest
      exact absurd (hl ▸ List.mem_append_right u List.mem_cons_self) he
  · exact ⟨m, hu.symm⟩

/-- The call of a dispatch under a key comes after its lookup. -/
theorem Dispatched.lookup_first {C : Crates} {req : ExecuteReq} {k : String}
    {u w : List HostEvent} {e : HostEvent} {r : Except Fault ExecuteOut}
    (h : Dispatched C req (u ++ e :: w) r) (hk : trimmedKey req.idempotencyKey = some k)
    (he : e.op.outbound ≠ none) :
    ∃ tid nowSecs a b, opening tid nowSecs a ++ [lookupEvent (hexEncode tid) k b] <+: u := by
  generalize ht : u ++ e :: w = t at h
  cases h with
  | @intro tid nowSecs a mandate v t₁ t₂ headers e' o t₃ l hj happ hnone hheaders he' hrec hl =>
    rw [assess_idemKey hj.verdict happ, hk] at hnone
    obtain ⟨b, l', -, -, rfl⟩ := hnone
    -- neither the opening nor the lookup leaves the enclave, so both stand before the call
    have hsplit : u ++ e :: w = (opening tid nowSecs a ++ [lookupEvent (hexEncode tid) k b]) ++
        (l' ++ (t₂ ++ e' :: (t₃ ++ l))) := by
      rw [ht]
      simp
    refine ⟨tid, nowSecs, a, b, prefix_of_append_cons hsplit fun hmem => ?_⟩
    simp only [opening, List.cons_append, List.nil_append, List.mem_cons, List.not_mem_nil,
      or_false] at hmem
    rcases hmem with rfl | rfl | rfl | rfl <;> exact he rfl

/-! ## Traces of a pool -/

section Trace

variable {ι : Type} {tid : Bytes} {k : String} {tr₁ tr₂ : List (ι × HostEvent)}

/-- The part of a trace before the first record of a key. -/
def beforeRecord (tid : Bytes) (k : String) (tr : List (ι × HostEvent)) : List (ι × HostEvent) :=
  tr.takeWhile fun e => ¬ IsRecord tid k e.2

/-- What stands in a trace with no record before it stands in that part. -/
theorem mem_beforeRecord {e : ι × HostEvent} (hbefore : ∀ x ∈ tr₁, ¬ IsRecord tid k x.2)
    (he : ¬ IsRecord tid k e.2) : e ∈ beforeRecord tid k (tr₁ ++ e :: tr₂) := by
  rw [beforeRecord, List.takeWhile_append_of_pos (by simpa using hbefore),
    List.takeWhile_cons_of_pos (by simpa using he)]
  exact List.mem_append_right _ List.mem_cons_self

/-- The events of a trace that leave the enclave. -/
def calls (tr : List (ι × HostEvent)) : List (ι × HostEvent) :=
  tr.filter fun e => e.2.op.outbound.isSome

theorem length_calls (tr : List (ι × HostEvent)) :
    (calls tr).length = (outboundCalls (tr.map Prod.snd)).length := by
  induction tr with
  | nil => rfl
  | cons e tr ih =>
    rw [List.map_cons, outboundCalls_cons, List.length_append, ← ih, calls, List.filter_cons]
    cases e.2.op.outbound <;> simp [calls, Nat.add_comm]

end Trace

/-! ## A pool under one key -/

section Pool

variable {ι : Type} [DecidableEq ι] {C : Crates} {tid : Bytes} {k : String}
  {req : ι → ExecuteReq} {s s' : Kv} {ps' : ι → Guest ExecuteOut}
  {tr tr₁ tr₂ : List (ι × HostEvent)} {i : ι}

/-- The invocations of these requests, all started and none yet run. -/
def started (C : Crates) (req : ι → ExecuteReq) : ι → Guest ExecuteOut :=
  fun i => executeActionWasm C (req i)

/-- An invocation of the pool that called out was on the way to a dispatch. -/
theorem pool_dispatched
    (h : Pool (kvHost tid) (AdminStep tid) (started C req) s tr ps' s')
    (hcall : outboundCalls (proj i tr) ≠ []) :
    ∃ t r, Dispatched C (req i) (proj i tr ++ t) r := by
  obtain ⟨t, r, hemits⟩ := exists_emits_of_steps anyAnswer (h.steps_proj i)
  refine ⟨t, r, dispatched_of_emits hemits ?_⟩
  rw [outboundCalls_append]
  exact List.append_ne_nil_of_left_ne_nil hcall _

theorem pool_one_call
    (h : Pool (kvHost tid) (AdminStep tid) (started C req) s tr ps' s') (i : ι) :
    (outboundCalls (proj i tr)).length ≤ 1 := by
  -- an invocation that has not finished is completed by some answers
  obtain ⟨t, r, hemits⟩ := exists_emits_of_steps anyAnswer (h.steps_proj i)
  have hone := one_call_of_emits hemits
  rw [outboundCalls_append, List.length_append] at hone
  omega

/-- Every invocation of the pool is the same tenant's. -/
theorem pool_tenantDid {ps : ι → Guest ExecuteOut} {x : Bytes}
    (h : Pool (kvHost tid) (AdminStep tid) ps s tr ps' s')
    (hmem : (i, (⟨.tenantDid, x⟩ : HostEvent)) ∈ tr) : x = tid := by
  obtain ⟨u, w, rfl⟩ := List.append_of_mem hmem
  obtain ⟨qs, s₁, -, hrest⟩ := h.split
  obtain ⟨s₂, s₃, qs', -, hdid, -⟩ := hrest.uncons
  exact hdid.1

theorem known_of_adminSteps (h : Relation.ReflTransGen (AdminStep tid) s s')
    (hs : Known tid k s) : Known tid k s' := by
  rwa [Known, adminSteps_keep_records h]

/-- An invocation that called out read no record. -/
theorem pool_lookups_empty {key : Bytes} {a : Except String (Option Bytes)}
    (h : Pool (kvHost tid) (AdminStep tid) (started C req) s tr ps' s')
    (hcall : outboundCalls (proj i tr) ≠ [])
    (hmem : (i, (⟨.kvGet (dispatchedOf tid) key, a⟩ : HostEvent)) ∈ tr) : recordOf a = none := by
  obtain ⟨t, r, hd⟩ := pool_dispatched h hcall
  obtain ⟨tid', rest, hstart, hgets⟩ := hd.gets
  obtain rfl : tid' = tid := by
    cases hproj : proj i tr with
    | nil =>
      rw [hproj] at hcall
      exact absurd rfl hcall
    | cons e l =>
      rw [hproj] at hstart
      obtain ⟨rfl, -⟩ := List.cons.inj hstart
      exact pool_tenantDid h (mem_proj.mp (hproj ▸ List.mem_cons_self))
  rcases hgets _ _ _ (List.mem_append_left _ (mem_proj.mpr hmem)) with hmap | ⟨-, hnone⟩ | ⟨hmap, -⟩
  · exact absurd hmap.symm (mandateMap_ne_dispatchedMap _)
  · exact hnone
  · exact absurd hmap.symm (secretsMap_ne_dispatchedMap _)

/-- After a record is written the key stays known. -/
theorem pool_known {ps : ι → Guest ExecuteOut}
    (h : Pool (kvHost tid) (AdminStep tid) ps s tr ps' s')
    (hrel : ∀ e ∈ tr, Reliable (dispatchedOf tid) [e.2])
    (hrecord : ∃ e ∈ tr, IsRecord tid k e.2) : Known tid k s' := by
  obtain ⟨e, he, hrec⟩ := hrecord
  obtain ⟨u, w, rfl⟩ := List.append_of_mem he
  obtain ⟨qs, s₁, -, hrest⟩ := h.split
  obtain ⟨s₂, s₃, qs', -, hstep, hafter⟩ := hrest.uncons
  refine hafter.invariant ?_ ?_ (known_of_isRecord hrec (hrel e he) hstep)
  · intro s s' hadmin hs
    exact known_of_adminSteps (.single hadmin) hs
  · intro e _ s s' hstep hs
    exact known_of_kvHost hstep hs

/-- A lookup after a record reads a record. -/
theorem pool_lookup_after_record {ps : ι → Guest ExecuteOut} {a : Except String (Option Bytes)}
    (h : Pool (kvHost tid) (AdminStep tid) ps s
      (tr₁ ++ (i, lookupEvent (hexEncode tid) k a) :: tr₂) ps' s')
    (hrel : ∀ e ∈ tr₁ ++ (i, lookupEvent (hexEncode tid) k a) :: tr₂,
      Reliable (dispatchedOf tid) [e.2])
    (hrecord : ∃ e ∈ tr₁, IsRecord tid k e.2) : recordOf a ≠ none := by
  obtain ⟨qs, s₁, hbefore, hrest⟩ := h.split
  have hknown : Known tid k s₁ :=
    pool_known hbefore (fun e he => hrel e (List.mem_append_left _ he)) hrecord
  obtain ⟨s₂, s₃, qs', hadmin, hread, -⟩ := hrest.uncons
  have hstored := known_of_adminSteps hadmin hknown
  obtain ⟨v, rfl⟩ := (hrel _ (List.mem_append_right _ List.mem_cons_self)).reads (utf8 k) a
    List.mem_cons_self
  have hv : v = s₂ (dispatchedOf tid) (utf8 k) := hread.2 v rfl
  rw [Known, ← hv] at hstored
  cases v with
  | none => exact absurd rfl hstored
  | some bytes => exact Option.some_ne_none _

/-- An invocation that looks the key up after a record makes no call. -/
theorem pool_silent_after_record {a : Except String (Option Bytes)}
    (h : Pool (kvHost tid) (AdminStep tid) (started C req) s
      (tr₁ ++ (i, lookupEvent (hexEncode tid) k a) :: tr₂) ps' s')
    (hrel : ∀ e ∈ tr₁ ++ (i, lookupEvent (hexEncode tid) k a) :: tr₂,
      Reliable (dispatchedOf tid) [e.2])
    (hrecord : ∃ e ∈ tr₁, IsRecord tid k e.2) :
    outboundCalls (proj i (tr₁ ++ (i, lookupEvent (hexEncode tid) k a) :: tr₂)) = [] := by
  by_contra hcall
  exact pool_lookup_after_record h hrel hrecord
    (pool_lookups_empty h hcall (List.mem_append_right _ List.mem_cons_self))

/-- An invocation that called out looked its key up. -/
theorem pool_looked_up
    (h : Pool (kvHost tid) (AdminStep tid) (started C req) s tr ps' s')
    (hk : trimmedKey (req i).idempotencyKey = some k) (hcall : outboundCalls (proj i tr) ≠ []) :
    ∃ a, (i, lookupEvent (hexEncode tid) k a) ∈ tr := by
  obtain ⟨t, r, hd⟩ := pool_dispatched h hcall
  obtain ⟨o, ho⟩ := List.exists_mem_of_ne_nil _ hcall
  obtain ⟨e, he, heo⟩ := List.mem_filterMap.mp ho
  obtain ⟨u, w, hproj⟩ := List.append_of_mem he
  rw [hproj, List.append_assoc, List.cons_append] at hd
  obtain ⟨tid', nowSecs, b, a, hbefore⟩ :=
    hd.lookup_first hk (by rw [heo]; exact Option.some_ne_none o)
  have hmem : ∀ e ∈ opening tid' nowSecs b ++ [lookupEvent (hexEncode tid') k a], (i, e) ∈ tr := by
    intro e he
    refine mem_proj.mp ?_
    rw [hproj]
    exact List.mem_append_left _ (hbefore.subset he)
  obtain rfl := pool_tenantDid h (hmem ⟨.tenantDid, tid'⟩ (by simp [opening]))
  exact ⟨a, hmem _ (List.mem_append_right _ (List.mem_singleton_self _))⟩

theorem count_calls (i : ι) (tr : List (ι × HostEvent)) :
    ((calls tr).map Prod.fst).count i = (outboundCalls (proj i tr)).length := by
  induction tr with
  | nil => rfl
  | cons e tr ih =>
    obtain ⟨j, e⟩ := e
    by_cases hij : j = i
    · subst hij
      rw [proj_cons_self, outboundCalls_cons, List.length_append, ← ih, calls, List.filter_cons]
      cases e.op.outbound <;> simp [calls, Nat.add_comm]
    · rw [proj_cons_ne hij, ← ih, calls, List.filter_cons]
      cases e.op.outbound <;> simp [calls, hij]

/-- Dispatches under one key at the same time: each invocation makes at most one call; one
that looks the key up after a record was written makes none; and there are no more calls
than lookups before the first record. -/
theorem concurrent_dispatches
    (h : Pool (kvHost tid) (AdminStep tid) (started C req) s tr ps' s')
    (hk : ∀ i, trimmedKey (req i).idempotencyKey = some k)
    (hrel : Reliable (dispatchedOf tid) (tr.map Prod.snd)) :
    (∀ i, (outboundCalls (proj i tr)).length ≤ 1) ∧
    (∀ tr₁ i a tr₂, tr = tr₁ ++ (i, lookupEvent (hexEncode tid) k a) :: tr₂ →
      (∃ e ∈ tr₁, IsRecord tid k e.2) → outboundCalls (proj i tr) = []) ∧
    (outboundCalls (tr.map Prod.snd)).length ≤
      ((beforeRecord tid k tr).filter fun e => IsLookup tid k e.2).length := by
  have hrel : ∀ e ∈ tr, Reliable (dispatchedOf tid) [e.2] := fun e he =>
    hrel.of_mem (List.mem_map_of_mem he)
  refine ⟨pool_one_call h, ?_, ?_⟩
  · rintro tr₁ i a tr₂ rfl hrecord
    exact pool_silent_after_record h hrel hrecord
  -- count by invocations: each that called also looked the key up before the first record
  · have hnodup : ((calls tr).map Prod.fst).Nodup := by
      rw [List.nodup_iff_count_le_one]
      intro i
      rw [count_calls]
      exact pool_one_call h i
    have hsub : (calls tr).map Prod.fst ⊆
        ((beforeRecord tid k tr).filter fun e => IsLookup tid k e.2).map Prod.fst := by
      intro i hi
      have hcall : outboundCalls (proj i tr) ≠ [] := by
        intro hnone
        have hcount := count_calls i tr
        rw [hnone, List.length_nil, List.count_eq_zero] at hcount
        exact hcount hi
      obtain ⟨a, ha⟩ := pool_looked_up h (hk i) hcall
      obtain ⟨tr₁, tr₂, rfl⟩ := List.append_of_mem ha
      have hbefore : ∀ x ∈ tr₁, ¬ IsRecord tid k x.2 := by
        intro x hx hrecord
        exact hcall (pool_silent_after_record h hrel ⟨x, hx, hrecord⟩)
      have hread : ¬ IsRecord tid k (lookupEvent (hexEncode tid) k a) := by
        intro hrecord
        cases hrecord
      exact List.mem_map.mpr ⟨(i, lookupEvent (hexEncode tid) k a),
        List.mem_filter.mpr ⟨mem_beforeRecord hbefore hread, decide_eq_true rfl⟩, rfl⟩
    have hle := (hnodup.subperm hsub).length_le
    rwa [List.length_map, List.length_map, length_calls] at hle

end Pool

/-- The sample request and its retry: the retry starts while the first call is out. -/
def sampleSchedule : List (Fin 2) := [0, 0, 0, 0, 1, 1, 1, 1, 0, 0, 1, 1]

def samplePool (schedule : List (Fin 2)) : List (Fin 2 × HostEvent) :=
  (runPool sampleHost schedule (started sampleCrates fun _ => sampleReq) sampleKv).1

theorem pool_sample (schedule : List (Fin 2)) : ∃ ps' s',
    Pool (kvHost sampleTid) (AdminStep sampleTid) (started sampleCrates fun _ => sampleReq)
      sampleKv (samplePool schedule) ps' s' :=
  ⟨_, _, pool_runPool kvHost_sampleHost _ schedule _ _⟩

theorem reliable_samplePool (schedule : List (Fin 2)) :
    Reliable (dispatchedOf sampleTid) ((samplePool schedule).map Prod.snd) := by
  refine reliable_sampleHost fun e he => ?_
  obtain ⟨e', he', rfl⟩ := List.mem_map.mp he
  exact res_of_mem_runPool he'

theorem concurrent_dispatches_sample :
    (outboundCalls ((samplePool sampleSchedule).map Prod.snd)).length ≤
      ((beforeRecord sampleTid "k-1" (samplePool sampleSchedule)).filter fun e =>
        IsLookup sampleTid "k-1" e.2).length := by
  obtain ⟨ps', s', hpool⟩ := pool_sample sampleSchedule
  exact (concurrent_dispatches hpool (fun _ => by decide)
    (reliable_samplePool sampleSchedule)).2.2

/-- A retry that starts before the record is written goes out as well. -/
theorem concurrent_dispatch_twice :
    ¬ ∀ (C : Crates) (tid : Bytes) (k : String) (n : ℕ) (req : Fin n → ExecuteReq) (s s' : Kv)
      (tr : List (Fin n × HostEvent)) (ps' : Fin n → Guest ExecuteOut),
      Pool (kvHost tid) (AdminStep tid) (started C req) s tr ps' s' →
      (∀ i, trimmedKey (req i).idempotencyKey = some k) →
      (outboundCalls (tr.map Prod.snd)).length ≤ 1 := by
  intro h
  obtain ⟨ps', s', hpool⟩ := pool_sample sampleSchedule
  have honce := h sampleCrates sampleTid "k-1" 2 _ _ _ _ _ hpool fun _ => by decide
  exact absurd honce (by decide +kernel)

end Gatekeeper.Gate
