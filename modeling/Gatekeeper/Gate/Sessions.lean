import Gatekeeper.Gate.ExecuteTheorems
import Gatekeeper.Gate.SampleTenant

/-!
# Invocations one after another

Sessions of `execute_action` against the maps of one tenant. The dispatch map is written by
the contract alone; between two invocations the tenant admin may change every other map.
What one invocation does to the dispatch map is proved first, then what a whole session
does.
-/

namespace Gatekeeper.Gate

open Encoding Interaction Text

/-! ## The dispatch map -/

/-- The name of a tenant's dispatch map. -/
def dispatchedOf (tid : Bytes) : String := dispatchedMap (hexEncode tid)

/-- What the tenant admin may do between two invocations: anything but write to the dispatch
map. -/
def AdminStep (tid : Bytes) (s s' : Kv) : Prop :=
  ∀ key, s' (dispatchedOf tid) key = s (dispatchedOf tid) key

/-- Every read and write of a map in a trace succeeds. -/
structure Reliable (mapName : String) (t : List HostEvent) : Prop where
  reads : ∀ key a, (⟨.kvGet mapName key, a⟩ : HostEvent) ∈ t → ∃ v, a = .ok v
  writes : ∀ key value a, (⟨.kvPut mapName key value, a⟩ : HostEvent) ∈ t → a = .ok ()

/-- Every lookup in the dispatch map is answered. -/
def LookupsAnswered (tid : Bytes) (t : List HostEvent) : Prop :=
  ∀ key a, (⟨.kvGet (dispatchedOf tid) key, a⟩ : HostEvent) ∈ t → ∃ v, a = .ok v

/-- Every record a trace writes under the key is stored. -/
def RecordStored (tid : Bytes) (k : String) (t : List HostEvent) : Prop :=
  ∀ value a, (⟨.kvPut (dispatchedOf tid) (utf8 k) value, a⟩ : HostEvent) ∈ t → a = .ok ()

theorem Reliable.of_mem {mapName : String} {t : List HostEvent} {e : HostEvent}
    (h : Reliable mapName t) (he : e ∈ t) : Reliable mapName [e] where
  reads := fun key a ha => h.reads key a (List.mem_singleton.mp ha ▸ he)
  writes := fun key value a ha => h.writes key value a (List.mem_singleton.mp ha ▸ he)

theorem kvHost_of_not_written {tid : Bytes} {op : HostOp} {s s' : Kv} {a : op.Res}
    (h : kvHost tid op s a s') (hop : op.written = none) : s' = s := by
  cases op with
  | tenantDid => exact h.2
  | kvGet => exact h.1
  | kvPut => cases hop
  | clusterTimestampSecs => exact h
  | httpCall => exact h
  | hwpCall => exact h
  | logInfo => exact h

/-- A trace without writes leaves the maps as they are. -/
theorem along_of_no_writes {tid : Bytes} {s s' : Kv} {t : List HostEvent}
    (h : Along (kvHost tid) s t s') (hw : writes t = []) : s' = s := by
  refine h.invariant (I := (· = s)) ?_ rfl
  intro e he s₁ s₂ hstep hs
  have hop : e.op.written = none := List.filterMap_eq_nil_iff.mp hw e he
  exact (kvHost_of_not_written hstep hop).trans hs

theorem written_of_outbound {op : HostOp} {request : Request}
    (h : op.outbound = some request) : op.written = none := by
  cases op with
  | httpCall => rfl
  | hwpCall => rfl
  | _ => cases h

/-- The host knows whose invocation it is, and an invocation's opening changes nothing. -/
theorem along_opening {tid tid' : Bytes} {nowSecs : UInt64}
    {a : Except String (Option Bytes)} {s s' : Kv} {t : List HostEvent}
    (h : Along (kvHost tid) s (opening tid' nowSecs a ++ t) s') :
    tid' = tid ∧ Along (kvHost tid) s t s' := by
  obtain ⟨s₁, hopen, hrest⟩ := along_append.mp h
  obtain rfl := along_of_no_writes hopen (writes_opening tid' nowSecs a)
  obtain ⟨_, htid, -⟩ := along_cons.mp hopen
  exact ⟨htid.1, hrest⟩

/-- What the contract reads under a key is what the dispatch map holds. -/
theorem along_lookup {tid : Bytes} {k : String} {a : Except String (Option Bytes)}
    {s s' : Kv} {t : List HostEvent}
    (h : Along (kvHost tid) s (lookupEvent (hexEncode tid) k a :: t) s') :
    (∀ v, a = .ok v → v = s (dispatchedOf tid) (utf8 k)) ∧ Along (kvHost tid) s t s' := by
  obtain ⟨s₁, hread, hrest⟩ := along_cons.mp h
  obtain ⟨rfl, hv⟩ : s₁ = s ∧ ∀ v, a = .ok v → v = s (dispatchedOf tid) (utf8 k) := hread
  exact ⟨hv, hrest⟩

/-- A lookup that was answered and found no record says that there is none. -/
theorem unrecorded_of_noRecord {tid : Bytes} {k : String} {s s' : Kv} {t : List HostEvent}
    (h : NoRecord (hexEncode tid) (some k) t) (ha : Along (kvHost tid) s t s')
    (hanswered : LookupsAnswered tid t) : s (dispatchedOf tid) (utf8 k) = none := by
  obtain ⟨b, l, hb, -, rfl⟩ := h
  obtain ⟨hread, -⟩ := along_lookup ha
  obtain ⟨v, rfl⟩ := hanswered (utf8 k) b List.mem_cons_self
  rw [← hread v rfl]
  cases v with
  | none => rfl
  | some bytes => cases hb

/-! ## What one invocation does to it -/

/-- The record a dispatch leaves when it has a key: the outcome it returns. Without a key
the maps do not change. When the lookup was answered, the key had no record before. -/
theorem Dispatched.effect {C : Crates} {req : ExecuteReq} {tid : Bytes} {s s' : Kv}
    {t : List HostEvent} {r : Except Fault ExecuteOut} (h : Dispatched C req t r)
    (ha : Along (kvHost tid) s t s') :
    ∃ out o, r = .ok out ∧ out.response = some (outcomeJson o) ∧
      (trimmedKey req.idempotencyKey = none → s' = s) ∧
      ∀ k, trimmedKey req.idempotencyKey = some k →
        (s' = s ∨ s' = s.put (dispatchedOf tid) (utf8 k)
          (utf8 (C.valueToString (outcomeJson o)))) ∧
        (LookupsAnswered tid t → s (dispatchedOf tid) (utf8 k) = none) ∧
        (RecordStored tid k t →
          s' = s.put (dispatchedOf tid) (utf8 k) (utf8 (C.valueToString (outcomeJson o)))) := by
  cases h with
  | @intro tid' nowSecs a mandate v t₁ t₂ headers e o t₃ l hj happ hnone hheaders he hrec hl =>
    obtain ⟨rfl, ha⟩ := along_opening ha
    simp only [along_append, along_cons] at ha
    obtain ⟨s₁, hlookup, s₂, hsecret, s₃, hcall, s₄, hput, hlog⟩ := ha
    -- nothing before the record changes the maps, and nothing after it does
    obtain rfl := along_of_no_writes hlookup (writes_noRecord hnone)
    obtain rfl := along_of_no_writes hsecret (writes_headers hheaders)
    obtain rfl := kvHost_of_not_written hcall (written_of_outbound he)
    obtain rfl := along_of_no_writes hlog hl.writes
    have hkey := assess_idemKey hj.verdict happ
    rw [hkey] at hnone hrec
    refine ⟨_, o, rfl, rfl, ?_, ?_⟩
    · intro hk
      rw [hk] at hrec
      obtain rfl : t₃ = [] := hrec
      exact along_nil.mp hput
    · intro k hk
      rw [hk] at hrec hnone
      obtain ⟨x, rfl⟩ := hrec
      obtain ⟨s₅, hwrite, hnil⟩ := along_cons.mp hput
      obtain rfl := along_nil.mp hnil
      have heffect : s' = s₃.put (dispatchedOf tid') (utf8 k)
          (utf8 (C.valueToString (outcomeJson o))) ∨ (s' = s₃ ∧ ∃ err, x = .error err) := hwrite
      refine ⟨?_, fun hanswered => ?_, fun hstored => ?_⟩
      · exact heffect.elim .inr fun hfailed => .inl hfailed.1
      -- the lookup succeeded and found nothing, so nothing was stored
      · refine unrecorded_of_noRecord hnone hlookup fun key a hmem => hanswered key a ?_
        exact List.mem_append_right _ (List.mem_append_left _ hmem)
      -- the record was stored, so its write did not fail
      · refine heffect.resolve_right ?_
        rintro ⟨-, err, rfl⟩
        cases hstored (utf8 (C.valueToString (outcomeJson o))) (.error err)
          (by simp [dispatchedOf])

/-- A replay answers with what the dispatch map holds under the request's key. -/
theorem Execution.replay_reads {C : Crates} {req : ExecuteReq} {tid : Bytes} {s s' : Kv}
    {t : List HostEvent} {out : ExecuteOut} (h : Execution C req t (.ok out))
    (ha : Along (kvHost tid) s t s') (hreplayed : out.replayed = some true) :
    ∃ k bytes, trimmedKey req.idempotencyKey = some k ∧
      s (dispatchedOf tid) (utf8 k) = some bytes ∧
      out.response = some ((C.valueFromStr (fromUtf8Lossy bytes)).getD
        (.string (fromUtf8Lossy bytes))) := by
  cases h with
  | rejected => cases hreplayed
  | @replayed tid' nowSecs a mandate v k b p l hj happ hk hb hl =>
    obtain ⟨rfl, ha⟩ := along_opening ha
    obtain ⟨hread, -⟩ := along_lookup ha
    rcases b with e | _ | bytes
    · cases hb
    · cases hb
    · cases hb
      exact ⟨k, bytes, (assess_idemKey hj.verdict happ).symm.trans hk, (hread _ rfl).symm, rfl⟩
  | dispatched hd =>
    obtain ⟨_, _, _, _, _, _, _, _, _, rfl⟩ := hd.out_eq
    cases hreplayed

/-- A run that is approved under a key with a record replays it: no call, no write, and the
recorded outcome as its response. -/
theorem Execution.replays {C : Crates} {req : ExecuteReq} {tid : Bytes} {s s' : Kv}
    {t : List HostEvent} {r : Except Fault ExecuteOut} {k : String} {bytes : Bytes}
    (h : Execution C req t r) (ha : Along (kvHost tid) s t s')
    (hrel : LookupsAnswered tid t) (hk : trimmedKey req.idempotencyKey = some k)
    (hrec : s (dispatchedOf tid) (utf8 k) = some bytes) :
    outboundCalls t = [] ∧ writes t = [] ∧ ∀ out, r = .ok out → out.decision = "approved" →
      out.response = some ((C.valueFromStr (fromUtf8Lossy bytes)).getD
        (.string (fromUtf8Lossy bytes))) := by
  have hnot : ¬ Dispatched C req t r := by
    intro hd
    obtain ⟨out, o, -, -, -, hkey⟩ := hd.effect ha
    rw [(hkey k hk).2.1 hrel] at hrec
    cases hrec
  obtain ⟨hcalls, hwrites⟩ := h.silent_or_dispatched.resolve_right hnot
  refine ⟨hcalls, hwrites, ?_⟩
  rintro out rfl hdecision
  -- approved without a dispatch leaves only the replay
  have hreplayed : out.replayed = some true := by
    cases h with
    | rejected hj happ hl =>
      rw [show (baseOut C req _ _ _).decision = _ from if_neg (by simp [happ])] at hdecision
      exact absurd hdecision (by decide)
    | replayed => rfl
    | dispatched hd => exact absurd hd hnot
  obtain ⟨k', bytes', hk', hrec', hresponse⟩ := h.replay_reads ha hreplayed
  rw [hk] at hk'
  cases hk'
  rw [hrec] at hrec'
  cases hrec'
  exact hresponse

/-- An invocation never changes a record that is there, unless it comes under its key and
cannot look it up. -/
theorem Execution.keeps_records {C : Crates} {req : ExecuteReq} {tid : Bytes} {s s' : Kv}
    {t : List HostEvent} {r : Except Fault ExecuteOut} {key bytes : Bytes}
    (h : Execution C req t r) (ha : Along (kvHost tid) s t s')
    (hrel : ∀ k, trimmedKey req.idempotencyKey = some k → key = utf8 k → LookupsAnswered tid t)
    (hrec : s (dispatchedOf tid) key = some bytes) :
    s' (dispatchedOf tid) key = some bytes := by
  rcases h.silent_or_dispatched with ⟨-, hwrites⟩ | hd
  · rw [along_of_no_writes ha hwrites, hrec]
  obtain ⟨out, o, -, -, hnokey, hkey⟩ := hd.effect ha
  cases hk : trimmedKey req.idempotencyKey with
  | none => rw [hnokey hk, hrec]
  | some k =>
    obtain ⟨heffect, hnone, -⟩ := hkey k hk
    -- a key that was looked up and written had no record, so it is another one
    have hne : key ≠ utf8 k := by
      intro hsame
      have hfree := hnone (hrel k hk hsame)
      rw [← hsame, hrec] at hfree
      cases hfree
    rcases heffect with rfl | rfl
    · exact hrec
    · rw [Kv.put_of_ne_key _ _ _ hne, hrec]

/-! ## What a session does to it -/

abbrev ExecuteInvocation : Type := Invocation HostOp HostOp.Res Fault ExecuteOut ExecuteReq

/-- The invocation carries this key, once trimmed. -/
def UnderKey (k : String) (i : ExecuteInvocation) : Prop :=
  trimmedKey i.request.idempotencyKey = some k

instance (k : String) (i : ExecuteInvocation) : Decidable (UnderKey k i) :=
  inferInstanceAs (Decidable (_ = _))

section Session

variable {C : Crates} {tid : Bytes} {s s' : Kv} {i j : ExecuteInvocation}
  {is l₁ l₂ : List ExecuteInvocation}

theorem adminSteps_keep_records {key : Bytes}
    (h : Relation.ReflTransGen (AdminStep tid) s s') :
    s' (dispatchedOf tid) key = s (dispatchedOf tid) key := by
  induction h with
  | refl => rfl
  | tail _ hstep ih => rw [hstep key, ih]

/-- The dispatch map holds these bytes under a key. -/
def HasRecord (tid key bytes : Bytes) (s : Kv) : Prop := s (dispatchedOf tid) key = some bytes

/-- A record that is there stays through the session, as long as nobody under its key fails
to look it up. -/
theorem session_keeps_records {k : String} {bytes : Bytes}
    (h : Session (kvHost tid) (AdminStep tid) (executeActionWasm C) s is s')
    (hrel : ∀ i ∈ is, UnderKey k i → LookupsAnswered tid i.trace)
    (hrec : HasRecord tid (utf8 k) bytes s) : HasRecord tid (utf8 k) bytes s' := by
  refine h.invariant ?_ ?_ hrec
  · intro s s' hadmin hs
    exact (hadmin _).trans hs
  · intro i hi s s' hemits halong hs
    refine (execution_of_emits hemits).keeps_records halong ?_ hs
    intro k' hk' hkey
    obtain rfl := utf8_injective hkey
    exact hrel i hi hk'

/-- After a dispatch under a key, a later invocation under it makes no call and writes
nothing, and what it returns is read from the record of the dispatch. -/
theorem session_after_dispatch {k : String}
    (h : Session (kvHost tid) (AdminStep tid) (executeActionWasm C) s (i :: is) s')
    (hrel : ∀ j ∈ i :: is, Reliable (dispatchedOf tid) j.trace) (hi : UnderKey k i)
    (hcall : outboundCalls i.trace ≠ []) :
    ∃ first o, i.result = .ok first ∧ first.response = some (outcomeJson o) ∧
      ∀ j ∈ is, UnderKey k j → outboundCalls j.trace = [] ∧ writes j.trace = [] ∧
        ∀ out, j.result = .ok out → out.decision = "approved" →
          let text := fromUtf8Lossy (utf8 (C.valueToString (outcomeJson o)))
          out.response = some ((C.valueFromStr text).getD (.string text)) := by
  obtain ⟨s₁, s₂, -, hemits, halong, hrest⟩ := h.uncons
  obtain ⟨first, o, hfirst, hresponse, -, hkey⟩ :=
    (dispatched_of_emits hemits hcall).effect halong
  refine ⟨first, o, hfirst, hresponse, fun j hj hjk => ?_⟩
  have hput := (hkey k hi).2.2 ((hrel i List.mem_cons_self).writes _)
  -- carry the record from the end of the first invocation to the start of the later one
  obtain ⟨m₁, m₂, rfl⟩ := List.append_of_mem hj
  obtain ⟨s₃, hbefore, hafter⟩ := hrest.split
  obtain ⟨s₄, s₅, hadmin, hemits', halong', -⟩ := hafter.uncons
  have hstored : HasRecord tid (utf8 k) (utf8 (C.valueToString (outcomeJson o))) s₂ := by
    rw [HasRecord, hput, Kv.put_self]
  have hrec : HasRecord tid (utf8 k) (utf8 (C.valueToString (outcomeJson o))) s₄ :=
    (adminSteps_keep_records hadmin).trans (session_keeps_records hbefore
      (fun j hj _ => (hrel j (List.mem_cons_of_mem _ (List.mem_append_left _ hj))).reads) hstored)
  exact (execution_of_emits hemits').replays halong' (hrel j (List.mem_cons_of_mem _ hj)).reads hjk
    hrec

end Session

/-- The calls of a list of invocations of which none comes after another that called. -/
theorem length_outbound_le_one {l : List ExecuteInvocation}
    (hone : ∀ i ∈ l, (outboundCalls i.trace).length ≤ 1)
    (hpair : l.Pairwise fun i j => outboundCalls i.trace ≠ [] → outboundCalls j.trace = []) :
    (l.flatMap fun i => outboundCalls i.trace).length ≤ 1 := by
  induction l with
  | nil => decide
  | cons i l ih =>
    rw [List.pairwise_cons] at hpair
    rw [List.flatMap_cons, List.length_append]
    -- if the first invocation called, all the rest is silent
    by_cases hcall : outboundCalls i.trace = []
    · rw [hcall, List.length_nil, Nat.zero_add]
      exact ih (fun j hj => hone j (List.mem_cons_of_mem _ hj)) hpair.2
    · have hrest : (l.flatMap fun j => outboundCalls j.trace) = [] := by
        rw [List.flatMap_eq_nil_iff]
        exact fun j hj => hpair.1 j hj hcall
      rw [hrest, List.length_nil, Nat.add_zero]
      exact hone i List.mem_cons_self

theorem one_call_of_emits {C : Crates} {req : ExecuteReq} {t : List HostEvent}
    {r : Except Fault ExecuteOut} (h : Emits (executeActionWasm C req) t r) :
    (outboundCalls t).length ≤ 1 := by
  rcases (execution_of_emits h).silent_or_dispatched with ⟨hnone, -⟩ | hd
  · rw [hnone]
    decide
  · obtain ⟨headers, hcalls⟩ := hd.one_call
    rw [hcalls]
    rfl

section Session

variable {C : Crates} {tid : Bytes} {s s' : Kv} {is : List ExecuteInvocation}

/-- Of two invocations under one key the later makes no call if the earlier did. -/
theorem session_pairwise_key
    (h : Session (kvHost tid) (AdminStep tid) (executeActionWasm C) s is s')
    (hrel : ∀ i ∈ is, Reliable (dispatchedOf tid) i.trace) :
    is.Pairwise fun i j => ∀ k, UnderKey k i → UnderKey k j → outboundCalls i.trace ≠ [] →
      outboundCalls j.trace = [] := by
  induction is generalizing s with
  | nil => exact List.Pairwise.nil
  | cons i is ih =>
    obtain ⟨s₁, s₂, -, -, -, hrest⟩ := h.uncons
    refine List.Pairwise.cons ?_ (ih hrest fun j hj => hrel j (List.mem_cons_of_mem _ hj))
    intro j hj k hi hjk hcall
    obtain ⟨first, o, -, -, hlater⟩ := session_after_dispatch h hrel hi hcall
    exact (hlater j hj hjk).1

/-- At most one dispatch per idempotency key: in every session in which the dispatch map
works, one key has at most one outbound call, and every later invocation under it makes no
call, writes nothing, and, when approved, returns the outcome of the first. -/
theorem one_dispatch_per_key (hC : C.RoundTrips)
    (h : Session (kvHost tid) (AdminStep tid) (executeActionWasm C) s is s')
    (hrel : ∀ i ∈ is, Reliable (dispatchedOf tid) i.trace) (k : String) :
    ((is.filter (UnderKey k)).flatMap fun i => outboundCalls i.trace).length ≤ 1 ∧
    ∀ l₁ i l₂, is = l₁ ++ i :: l₂ → UnderKey k i → outboundCalls i.trace ≠ [] →
      ∀ j ∈ l₂, UnderKey k j →
        outboundCalls j.trace = [] ∧ writes j.trace = [] ∧
        ∀ out, j.result = .ok out → out.decision = "approved" →
          ∃ first v, i.result = .ok first ∧ first.response = some v ∧
            out.response = some v := by
  refine ⟨length_outbound_le_one ?_ ?_, ?_⟩
  · intro i hi
    exact one_call_of_emits (h.emits_of_mem (List.mem_of_mem_filter hi))
  · rw [List.pairwise_filter]
    refine (session_pairwise_key h hrel).imp ?_
    intro i j hij hi hj
    exact hij k (of_decide_eq_true hi) (of_decide_eq_true hj)
  · rintro l₁ i l₂ rfl hi hcall j hj hjk
    obtain ⟨s₁, -, hrest⟩ := h.split
    obtain ⟨first, o, hfirst, hresponse, hlater⟩ := session_after_dispatch hrest
      (fun j hj => hrel j (List.mem_append_right _ hj)) hi hcall
    obtain ⟨hcalls, hwrites, hreplay⟩ := hlater j hj hjk
    refine ⟨hcalls, hwrites, fun out hout hdecision => ⟨first, _, hfirst, hresponse, ?_⟩⟩
    rw [hreplay out hout hdecision, recorded_outcome hC o]
    rfl

end Session

/-! ### The sample tenant -/

theorem reliable_sampleHost {mapName : String} {t : List HostEvent}
    (h : ∀ e ∈ t, ∃ s, e.res = (sampleHost e.op s).1) : Reliable mapName t where
  reads := by
    intro key a ha
    obtain ⟨s, hs⟩ := h _ ha
    exact ⟨_, hs⟩
  writes := by
    intro key value a ha
    obtain ⟨s, hs⟩ := h _ ha
    exact hs

/-- A session of the sample tenant, whose host fails no call. -/
def sampleSession (reqs : List ExecuteReq) : List ExecuteInvocation :=
  (runSession sampleHost (executeActionWasm sampleCrates) reqs sampleKv).1

theorem session_sample (reqs : List ExecuteReq) :
    Session (kvHost sampleTid) (AdminStep sampleTid) (executeActionWasm sampleCrates) sampleKv
      (sampleSession reqs)
      (runSession sampleHost (executeActionWasm sampleCrates) reqs sampleKv).2 :=
  session_runSession kvHost_sampleHost _ _ reqs sampleKv

theorem reliable_sampleSession {reqs : List ExecuteReq} {i : ExecuteInvocation}
    (hi : i ∈ sampleSession reqs) : Reliable (dispatchedOf sampleTid) i.trace :=
  reliable_sampleHost fun _ he => res_of_mem_runSession hi he

theorem one_dispatch_per_key_sample :
    ((sampleSession [sampleReq, sampleReq]).filter (UnderKey "k-1") |>.flatMap fun i =>
      outboundCalls i.trace).length ≤ 1 :=
  (one_dispatch_per_key (roundTrips_cratesWith _) (session_sample [sampleReq, sampleReq])
    (fun _ hi => reliable_sampleSession hi) "k-1").1

/-! ## Whose outcome a replay returns -/

section Session

variable {C : Crates} {tid : Bytes} {s s' : Kv} {is hist : List ExecuteInvocation}

/-- A dispatch under this key returned this value. -/
structure DispatchedUnder (k : String) (i : ExecuteInvocation) (v : Json.Value) : Prop where
  key : UnderKey k i
  called : outboundCalls i.trace ≠ []
  returned : ∃ out, i.result = .ok out ∧ out.response = some v

/-- Every record is the outcome of a dispatch of the history. -/
def Explained (C : Crates) (tid : Bytes) (hist : List ExecuteInvocation) (s : Kv) : Prop :=
  ∀ key bytes, s (dispatchedOf tid) key = some bytes →
    ∃ k o, key = utf8 k ∧ bytes = utf8 (C.valueToString (outcomeJson o)) ∧
      ∃ i ∈ hist, DispatchedUnder k i (outcomeJson o)

theorem Explained.start (hempty : ∀ key, s (dispatchedOf tid) key = none) :
    Explained C tid [] s := by
  intro key bytes hrec
  rw [hempty key] at hrec
  cases hrec

theorem Explained.mono {hist' : List ExecuteInvocation} (h : Explained C tid hist s)
    (hsub : hist ⊆ hist') : Explained C tid hist' s := by
  intro key bytes hrec
  obtain ⟨k, o, hkey, hbytes, i, hi, hd⟩ := h key bytes hrec
  exact ⟨k, o, hkey, hbytes, i, hsub hi, hd⟩

/-- One more invocation explains the records after it. -/
theorem Explained.step {i : ExecuteInvocation} (h : Explained C tid hist s)
    (hemits : Emits (executeActionWasm C i.request) i.trace i.result)
    (halong : Along (kvHost tid) s i.trace s') : Explained C tid (hist ++ [i]) s' := by
  have hbefore : Explained C tid (hist ++ [i]) s := h.mono (List.subset_append_left _ _)
  rcases (execution_of_emits hemits).silent_or_dispatched with ⟨-, hwrites⟩ | hd
  · rwa [along_of_no_writes halong hwrites]
  obtain ⟨out, o, hout, hresponse, hnokey, hkey⟩ := hd.effect halong
  cases hk : trimmedKey i.request.idempotencyKey with
  | none => rwa [hnokey hk]
  | some k =>
    -- a write that fails may still leave the maps as they were
    rcases (hkey k hk).1 with rfl | rfl
    · exact hbefore
    · intro key bytes hrec
      by_cases hsame : key = utf8 k
      · subst hsame
        rw [Kv.put_self] at hrec
        cases hrec
        obtain ⟨headers, hcalls⟩ := hd.one_call
        refine ⟨k, o, rfl, rfl, i, List.mem_append_right _ (List.mem_singleton_self i), hk, ?_,
          out, hout, hresponse⟩
        rw [hcalls]
        exact List.cons_ne_nil _ _
      · rw [Kv.put_of_ne_key _ _ _ hsame] at hrec
        exact hbefore key bytes hrec

theorem Explained.admin (h : Explained C tid hist s)
    (hadmin : Relation.ReflTransGen (AdminStep tid) s s') : Explained C tid hist s' := by
  intro key bytes hrec
  rw [adminSteps_keep_records hadmin] at hrec
  exact h key bytes hrec

/-- Over a session the records stay explained. -/
theorem Explained.session (h : Explained C tid hist s)
    (hs : Session (kvHost tid) (AdminStep tid) (executeActionWasm C) s is s') :
    Explained C tid (hist ++ is) s' := by
  -- the history grows by the invocations that have run
  induction hs generalizing hist with
  | nil => rwa [List.append_nil]
  | env hadmin _ ih => exact ih (h.admin (.single hadmin))
  | invoke hemits halong _ ih =>
    rw [List.append_cons]
    exact ih (h.step hemits halong)

/-- A replay returns what an earlier dispatch under the same key returned. The key is all
the two requests need to have in common. -/
theorem replay_returns_earlier_outcome (hC : C.RoundTrips)
    (h : Session (kvHost tid) (AdminStep tid) (executeActionWasm C) s is s')
    (hempty : ∀ key, s (dispatchedOf tid) key = none) :
    ∀ l₁ j l₂, is = l₁ ++ j :: l₂ → ∀ out, j.result = .ok out → out.replayed = some true →
      ∃ k v, UnderKey k j ∧ out.response = some v ∧ ∃ i ∈ l₁, DispatchedUnder k i v := by
  rintro l₁ j l₂ rfl out hout hreplayed
  obtain ⟨s₁, hbefore, hafter⟩ := h.split
  obtain ⟨s₂, s₃, hadmin, hemits, halong, -⟩ := hafter.uncons
  have hexplained : Explained C tid l₁ s₂ := ((Explained.start hempty).session hbefore).admin hadmin
  have hexec := execution_of_emits hemits
  rw [hout] at hexec
  obtain ⟨k, bytes, hk, hrec, hresponse⟩ := hexec.replay_reads halong hreplayed
  obtain ⟨k', o, hkey, rfl, i, hi, hd⟩ := hexplained _ _ hrec
  obtain rfl := utf8_injective hkey
  rw [recorded_outcome hC o] at hresponse
  exact ⟨k, _, hk, hresponse, i, hi, hd⟩

end Session

/-- Two orders under one key: the second invocation replays the first. -/
theorem sampleSession_replays : ∃ i₁ i₂ out,
    sampleSession [sampleReq, sampleReqOtherBody] = [i₁, i₂] ∧ i₁.request = sampleReq ∧
      i₂.request = sampleReqOtherBody ∧ i₂.result = .ok out ∧ out.decision = "approved" ∧
      out.replayed = some true := by
  have heval : ((sampleSession [sampleReq, sampleReqOtherBody]).map fun i =>
      i.result.toOption.map fun out => (out.decision, out.replayed)) =
      [some ("approved", none), some ("approved", some true)] := by decide +kernel
  obtain ⟨i₁, i₂, hsession, hreq₁, hreq₂⟩ : ∃ i₁ i₂,
      sampleSession [sampleReq, sampleReqOtherBody] = [i₁, i₂] ∧ i₁.request = sampleReq ∧
        i₂.request = sampleReqOtherBody := ⟨_, _, rfl, rfl, rfl⟩
  rw [hsession] at heval
  simp only [List.map_cons, List.map_nil, List.cons.injEq, and_true] at heval
  cases hr : i₂.result with
  | error f =>
    rw [hr] at heval
    cases heval.2
  | ok out =>
    rw [hr] at heval
    have hout := Prod.mk.inj (Option.some.inj heval.2)
    exact ⟨i₁, i₂, out, hsession, hreq₁, hreq₂, hr, hout.1, hout.2⟩

theorem replay_returns_earlier_outcome_sample : ∃ k v,
    trimmedKey sampleReqOtherBody.idempotencyKey = some k ∧
      ∃ i ∈ sampleSession [sampleReq], DispatchedUnder k i v := by
  obtain ⟨i₁, i₂, out, hsession, hreq₁, hreq₂, hout, -, hreplayed⟩ := sampleSession_replays
  obtain ⟨k, v, hk, -, i, hi, hd⟩ := replay_returns_earlier_outcome (roundTrips_cratesWith _)
    (session_sample [sampleReq, sampleReqOtherBody]) sampleKv_dispatched [i₁] i₂ [] hsession out
    hout hreplayed
  have hfirst : sampleSession [sampleReq] = [i₁] :=
    congrArg (List.take 1) hsession
  rw [hfirst]
  exact ⟨k, v, hreq₂ ▸ hk, i, hi, hd⟩

/-- A replay may answer a request that was never sent with the outcome of another one. -/
theorem replay_not_of_same_request :
    ¬ ∀ (C : Crates) (tid : Bytes) (s s' : Kv) (is : List ExecuteInvocation), C.RoundTrips →
      Session (kvHost tid) (AdminStep tid) (executeActionWasm C) s is s' →
      (∀ key, s (dispatchedOf tid) key = none) →
      ∀ l₁ j l₂, is = l₁ ++ j :: l₂ → ∀ out, j.result = .ok out → out.decision = "approved" →
        out.replayed = some true →
        ∃ k v, UnderKey k j ∧ out.response = some v ∧ ∃ i ∈ l₁, DispatchedUnder k i v ∧
          actionDigest C i.request.action = actionDigest C j.request.action ∧
          i.request.url = j.request.url ∧ i.request.method = j.request.method ∧
          i.request.body = j.request.body := by
  intro h
  obtain ⟨i₁, i₂, out, hsession, hreq₁, hreq₂, hout, hdecision, hreplayed⟩ :=
    sampleSession_replays
  obtain ⟨k, v, -, -, i, hi, -, -, -, -, hbody⟩ := h sampleCrates sampleTid sampleKv _ _
    (roundTrips_cratesWith _) (session_sample [sampleReq, sampleReqOtherBody])
    sampleKv_dispatched [i₁] i₂ [] hsession out hout hdecision hreplayed
  rw [List.mem_singleton.mp hi, hreq₁, hreq₂] at hbody
  exact absurd hbody (by decide)

end Gatekeeper.Gate
