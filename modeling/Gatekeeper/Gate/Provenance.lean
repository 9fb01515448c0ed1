import Gatekeeper.Gate.Component

/-!
# Where an `Authorization` header comes from

A credentialed request that leaves the enclave, in whatever interleaving, is traced back to
what the tenant stored: the mandate that approved it and the secret it carries, each as it
stood in the maps when the invocation read it.
-/

namespace Gatekeeper.Gate

open Encoding Interaction

section Pool

variable {ι : Type} [DecidableEq ι] {C : Crates} {R : Requests} {calls : ι → ComponentCall}
  {tid : Bytes} {env : Kv → Kv → Prop} {s s' : Kv} {tr tr₁ tr₂ : List (ι × HostEvent)}
  {ps ps' : ι → Guest ComponentOut} {i : ι}

/-- After these calls, and what the environment did by then, the entry holds these bytes. -/
def Stood (tid : Bytes) (env : Kv → Kv → Prop) (ps : ι → Guest ComponentOut) (s : Kv)
    (tr : List (ι × HostEvent)) (mapName : String) (key bytes : Bytes) : Prop :=
  ∃ ps' u w, Pool (kvHost tid) env ps s tr ps' u ∧ Relation.ReflTransGen env u w ∧
    w mapName key = some bytes

/-- The invocation read these bytes before the end of the trace, and they stood there then. -/
def ReadBefore (tid : Bytes) (env : Kv → Kv → Prop) (ps : ι → Guest ComponentOut) (s : Kv)
    (tr : List (ι × HostEvent)) (i : ι) (mapName : String) (key bytes : Bytes) : Prop :=
  ∃ tr₁ tr₂, tr = tr₁ ++ (i, (⟨.kvGet mapName key, .ok (some bytes)⟩ : HostEvent)) :: tr₂ ∧
    Stood tid env ps s tr₁ mapName key bytes

theorem readBefore_of_mem {mapName : String} {key bytes : Bytes}
    (h : Pool (kvHost tid) env ps s (tr₁ ++ tr₂) ps' s')
    (hmem : (i, (⟨.kvGet mapName key, .ok (some bytes)⟩ : HostEvent)) ∈ tr₁) :
    ReadBefore tid env ps s tr₁ i mapName key bytes := by
  obtain ⟨u, w, rfl⟩ := List.append_of_mem hmem
  rw [List.append_assoc, List.cons_append] at h
  obtain ⟨qs, s₁, hbefore, hrest⟩ := h.split
  obtain ⟨s₂, s₃, qs', henv, hread, -⟩ := hrest.uncons
  exact ⟨u, w, rfl, qs, s₁, s₂, hbefore, henv, (hread.2 _ rfl).symm⟩

/-- What a credentialed request goes back to: an `execute_action` that was sent it to make,
approved by the mandate, with the secret the mandate names. -/
structure Sourced (C : Crates) (R : Requests) (tid : Bytes) (env : Kv → Kv → Prop)
    (ps : ι → Guest ComponentOut) (s : Kv) (tr : List (ι × HostEvent)) (i : ι)
    (call : ComponentCall) (request : Request) (req : ExecuteReq) (mandate : Mandate)
    (secret : String) : Prop where
  function : call.function = .executeAction
  read : requestOf "execute_action" R.executeAction call.input = .ok req
  sent : request = outboundRequest req (some [("Authorization", s!"Bearer {secret}")])
  governed : ∃ bytes, C.mandateFromSlice bytes = .ok mandate ∧
    ReadBefore tid env ps s tr i (mandateMap (hexEncode tid)) (utf8 "default") bytes
  approved : ∃ nowSecs v, (i, (⟨.clusterTimestampSecs, nowSecs⟩ : HostEvent)) ∈ tr ∧
    assess C req mandate nowSecs = .ok v ∧ v.approved = true
  stored : ReadBefore tid env ps s tr i (secretsMap (hexEncode tid))
    (utf8 mandate.credentialKey) (utf8 secret)

/-- A run that makes a credentialed call had, by then, read a mandate that approves its request
and the secret that mandate names. -/
theorem Dispatched.sources {req : ExecuteReq} {u w : List HostEvent} {e : HostEvent}
    {r : Except Fault ExecuteOut} {request : Request} {hs : List (String × String)}
    (h : Dispatched C req (u ++ e :: w) r) (he : e.op.outbound = some request)
    (hheaders : request.headers = some hs) :
    ∃ tid' nowSecs bytes mandate v secret,
      opening tid' nowSecs (.ok (some bytes)) ⊆ u ∧ C.mandateFromSlice bytes = .ok mandate ∧
      assess C req mandate nowSecs = .ok v ∧ v.approved = true ∧
      (⟨.kvGet (secretsMap (hexEncode tid')) (utf8 mandate.credentialKey),
        .ok (some (utf8 secret))⟩ : HostEvent) ∈ u ∧
      request = outboundRequest req (some [("Authorization", s!"Bearer {secret}")]) := by
  generalize ht : u ++ e :: w = t at h
  cases h with
  | @intro tid' nowSecs a mandate v t₁ t₂ headers e' o t₃ l hj happ hnone hemits he' hrec hl =>
    -- the one call of the run is the one that carries the headers
    have hcalls : outboundCalls (opening tid' nowSecs a ++ (t₁ ++ (t₂ ++ e' :: (t₃ ++ l)))) =
        [outboundRequest req headers] := outboundCalls_dispatch hnone hemits he' hrec hl
    rw [← ht, outboundCalls_append, outboundCalls_cons, he] at hcalls
    obtain rfl : request = outboundRequest req headers := by
      have hmem : request ∈ [outboundRequest req headers] := hcalls ▸ by simp
      exact List.mem_singleton.mp hmem
    obtain rfl : headers = some hs := hheaders
    -- and everything before it in the run is silent, so it stands in `u`
    have hsplit : u ++ e :: w = (opening tid' nowSecs a ++ (t₁ ++ t₂)) ++ (e' :: (t₃ ++ l)) := by
      rw [ht]
      simp
    have hsilent : e ∉ opening tid' nowSecs a ++ (t₁ ++ t₂) := by
      intro hmem
      have hin : outboundRequest req (some hs) ∈
          outboundCalls (opening tid' nowSecs a ++ (t₁ ++ t₂)) :=
        List.mem_filterMap.mpr ⟨e, hmem, he⟩
      simp only [outboundCalls_append, outboundCalls_opening, outboundCalls_noRecord hnone,
        outboundCalls_headers hemits] at hin
      cases hin
    have hbefore := (prefix_of_append_cons hsplit hsilent).subset
    rcases emits_outboundHeaders hemits with ⟨-, -, hr⟩ | ⟨hkey, b, rfl, hr⟩
    · cases hr
    obtain ⟨secret, rfl, -, hbearer⟩ := (credential_ok_iff hkey).mp hr.symm
    cases hbearer
    obtain ⟨bytes, rfl, hparse⟩ : ∃ bytes, a = .ok (some bytes) ∧
        C.mandateFromSlice bytes = .ok mandate := by
      have hread := hj.read
      rcases a with err | _ | bytes
      · cases hread
      · cases hread
      · refine ⟨bytes, rfl, ?_⟩
        rw [mandateOf] at hread
        split at hread
        · cases hread
        · rename_i m hm
          rw [hm, Except.ok.inj hread]
    refine ⟨tid', nowSecs, bytes, mandate, v, secret, fun x hx => hbefore ?_, hparse, hj.verdict,
      happ, hbefore ?_, rfl⟩
    · exact List.mem_append_left _ hx
    · exact List.mem_append_right _ (List.mem_append_right _ (List.mem_singleton_self _))

/-- Every invocation of the pool is the same tenant's. -/
theorem tenantDid_of_mem {x : Bytes} (h : Pool (kvHost tid) env ps s tr ps' s')
    (hmem : (i, (⟨.tenantDid, x⟩ : HostEvent)) ∈ tr) : x = tid := by
  obtain ⟨u, w, rfl⟩ := List.append_of_mem hmem
  obtain ⟨qs, s₁, -, hrest⟩ := h.split
  obtain ⟨s₂, s₃, qs', -, hdid, -⟩ := hrest.uncons
  exact hdid.1

/-- However any calls of the component interleave, and whatever the tenant does meanwhile: a
request with headers leaves the enclave only from an `execute_action` that had read, as they
stood in the maps, a mandate that approves its action and the secret that mandate names. -/
theorem credential_sourced {e : HostEvent} {request : Request}
    (h : Pool (kvHost tid) env (invoked C R calls) s (tr₁ ++ (i, e) :: tr₂) ps' s')
    (he : e.op.outbound = some request) (hheaders : request.headers ≠ none) :
    ∃ req mandate secret, Sourced C R tid env (invoked C R calls) s tr₁ i (calls i) request req
      mandate secret := by
  obtain ⟨hs, hheaders⟩ := Option.ne_none_iff_exists'.mp hheaders
  obtain ⟨t, hrun⟩ := pool_componentRun h i
  have hproj : proj i (tr₁ ++ (i, e) :: tr₂) ++ t = proj i tr₁ ++ e :: (proj i tr₂ ++ t) := by
    simp [proj]
  rw [hproj] at hrun
  obtain ⟨tid₀, hmay, -⟩ := pool_may_call h i
  have hexport := (hmay e (List.mem_append_right _ List.mem_cons_self)).outbound
    (by rw [he]; exact Option.some_ne_none request)
  generalize ht : proj i tr₁ ++ e :: (proj i tr₂ ++ t) = trace at hrun
  cases hrun with
  | refused => simp at ht
  | evaluate hf => simp [hf] at hexport
  | spend hf => simp [hf] at hexport
  | dispatchAction hf hreq hemits =>
    -- `dispatch_action` sends no headers
    obtain ⟨x, l, rfl, hl⟩ := emits_dispatchActionWasm hemits
    have hmem : e ∈ (⟨.httpCall (dispatchRequest _), x⟩ : HostEvent) :: l := ht ▸ by simp
    rcases List.mem_cons.mp hmem with rfl | hlog
    · cases he
      cases hheaders
    · obtain ⟨message, hop⟩ := hl e hlog
      rw [hop] at he
      cases he
  | @executeAction req trace r hf hreq hemits =>
    subst ht
    have hcall : outboundCalls (proj i tr₁ ++ e :: (proj i tr₂ ++ t)) ≠ [] := by
      simp [outboundCalls_cons, he]
    obtain ⟨tid', nowSecs, bytes, mandate, v, secret, hopen, hparse, hassess, happ, hsecret,
      hsent⟩ := (dispatched_of_emits hemits hcall).sources he hheaders
    have hread : ∀ {x : HostEvent}, x ∈ opening tid' nowSecs (.ok (some bytes)) →
        (i, x) ∈ tr₁ := fun hx => mem_proj.mp (hopen hx)
    obtain rfl : tid' = tid :=
      tenantDid_of_mem h (List.mem_append_left _ (hread (x := ⟨.tenantDid, tid'⟩) (by
        simp [opening])))
    refine ⟨req, mandate, secret, hf, hreq, hsent, ⟨bytes, hparse, ?_⟩,
      ⟨nowSecs, v, hread (by simp [opening]), hassess, happ⟩, ?_⟩
    · exact readBefore_of_mem h (hread (by simp [opening]))
    · exact readBefore_of_mem h (mem_proj.mp hsecret)

end Pool

theorem credential_sourced_sample : ∃ tr i req mandate secret,
    Sourced openCrates sampleRequests sampleTid (fun _ _ => False)
      (invoked openCrates sampleRequests sampleCalls) openKv tr i (sampleCalls i)
      (outboundRequest sampleOrder sampleHeaders) req mandate secret := by
  have hcalls : outboundCalls ((sampleRace raceSchedule).1.map Prod.snd) =
      [outboundRequest sampleOrder sampleHeaders] := by
    decide +kernel
  have hmem : outboundRequest sampleOrder sampleHeaders ∈
      outboundCalls ((sampleRace raceSchedule).1.map Prod.snd) := hcalls ▸ List.mem_singleton_self _
  obtain ⟨e, he, hout⟩ := List.mem_filterMap.mp hmem
  obtain ⟨⟨i, e⟩, hi, rfl⟩ := List.mem_map.mp he
  obtain ⟨tr₁, tr₂, htr⟩ := List.append_of_mem hi
  have hpool := pool_sampleRace raceSchedule
  rw [htr] at hpool
  obtain ⟨req, mandate, secret, h⟩ := credential_sourced hpool hout (Option.some_ne_none _)
  exact ⟨tr₁, i, req, mandate, secret, h⟩

end Gatekeeper.Gate
