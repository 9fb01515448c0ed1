import Gatekeeper.Gate.Nonces

/-!
# Retries

The record of a dispatch is looked up only after the request has been decided anew. A retry
learns what became of its order when it still passes the mandate, at the time it arrives;
otherwise it is told that nothing was dispatched.
-/

namespace Gatekeeper.Gate

open Encoding Interaction Text

/-- The invocation placed its order under this key, and its record was stored. -/
structure Placed (tid : Bytes) (k : String) (i : ExecuteInvocation) : Prop where
  key : UnderKey k i
  called : outboundCalls i.trace ≠ []
  stored : RecordStored tid k i.trace

/-- The retry makes no call and returns what the first invocation returned. -/
structure Learns (i j : ExecuteInvocation) : Prop where
  silent : outboundCalls j.trace = []
  replayed : ∃ first out v, i.result = .ok first ∧ first.response = some v ∧
    j.result = .ok out ∧ out.replayed = some true ∧ out.response = some v

/-- The mandate the invocation meets can be read, and lets the request through at the time
it meets. -/
def MeetsChecks (C : Crates) (req : ExecuteReq) (t : List HostEvent) : Prop :=
  ∃ tid nowSecs a l mandate, t = opening tid nowSecs a ++ l ∧ mandateOf C a = .ok mandate ∧
    Passes C req mandate nowSecs

/-- The value a record is returned as. -/
def readBack (C : Crates) (bytes : Bytes) : Json.Value :=
  (C.valueFromStr (fromUtf8Lossy bytes)).getD (.string (fromUtf8Lossy bytes))

/-- The record under the key is returned as what this invocation returned. -/
def Recalls (C : Crates) (tid : Bytes) (k : String) (i : ExecuteInvocation) (s : Kv) : Prop :=
  ∃ bytes first, s (dispatchedOf tid) (utf8 k) = some bytes ∧ i.result = .ok first ∧
    first.response = some (readBack C bytes)

/-! ## One retry -/

/-- The opening of an invocation reads the mandate's map, not the dispatch map. -/
theorem lookupsAnswered_opening (tid : Bytes) (nowSecs : UInt64)
    (a : Except String (Option Bytes)) : LookupsAnswered tid (opening tid nowSecs a) := by
  intro key c hc
  simp only [opening, List.mem_cons, List.not_mem_nil, or_false] at hc
  rcases hc with hop | hop | hop
  · cases congrArg Event.op hop
  · cases congrArg Event.op hop
  · injection congrArg Event.op hop with hmap
    exact absurd hmap.symm (mandateMap_ne_dispatchedMap _)

/-- A replay had the one lookup it makes answered, since it found a record there. -/
theorem lookupsAnswered_replay {tid : Bytes} {nowSecs : UInt64}
    {a b : Except String (Option Bytes)} {k p : String}
    {l : List HostEvent} (hb : recordOf b = some p) (hl : Logs l) :
    LookupsAnswered tid (opening tid nowSecs a ++ lookupEvent (hexEncode tid) k b :: l) := by
  intro key c hc
  rcases List.mem_append.mp hc with hopen | hrest
  · exact lookupsAnswered_opening tid nowSecs a key c hopen
  rcases List.mem_cons.mp hrest with hlookup | hlog
  · cases hlookup
    rcases b with e | v
    · cases hb
    · exact ⟨v, rfl⟩
  · obtain ⟨message, hop⟩ := hl _ hlog
    cases hop

/-- An invocation whose key has a record replays it exactly when it gets through the checks
and to the record. -/
theorem Execution.replayed_iff {C : Crates} {req : ExecuteReq} {tid : Bytes} {s s' : Kv}
    {t : List HostEvent} {r : Except Fault ExecuteOut} {k : String} {bytes : Bytes}
    (h : Execution C req t r) (ha : Along (kvHost tid) s t s')
    (hk : trimmedKey req.idempotencyKey = some k)
    (hrec : s (dispatchedOf tid) (utf8 k) = some bytes) :
    (∃ out, r = .ok out ∧ out.replayed = some true) ↔
      MeetsChecks C req t ∧ LookupsAnswered tid t := by
  constructor
  · rintro ⟨out, rfl, hreplayed⟩
    cases h with
    | rejected => cases hreplayed
    | @replayed tid' nowSecs a mandate v k' b p l hj happ hk' hb hl =>
      refine ⟨⟨tid', nowSecs, a, _, mandate, rfl, hj.read,
        (assess_approved_iff hj.verdict).mp happ⟩, ?_⟩
      obtain ⟨rfl, -⟩ := along_opening ha
      exact lookupsAnswered_replay hb hl
    | dispatched hd =>
      obtain ⟨_, _, _, _, _, _, _, _, _, rfl⟩ := hd.out_eq
      cases hreplayed
  · rintro ⟨⟨tid', nowSecs, a, l, mandate, ht, hread, hpasses⟩, hanswered⟩
    -- every other way to end contradicts the checks or the record
    have hrecorded : s (dispatchedOf tid) (utf8 k) ≠ none := by
      rw [hrec]
      exact Option.some_ne_none bytes
    cases h with
    | unreadable hf =>
      obtain ⟨rfl, rfl, rfl⟩ := opening_inj ((List.append_nil _).trans ht)
      rw [hread] at hf
      cases hf
    | trapped hread' hf =>
      obtain ⟨rfl, rfl, rfl⟩ := opening_inj ((List.append_nil _).trans ht)
      rw [hread] at hread'
      cases hread'
      obtain ⟨v, hv⟩ := assess_of_passes hpasses
      rw [hf] at hv
      cases hv
    | rejected hj happ =>
      obtain ⟨rfl, rfl, rfl⟩ := opening_inj ht
      have hsame := hj.read
      rw [hread] at hsame
      cases hsame
      rw [(assess_approved_iff hj.verdict).mpr hpasses] at happ
      cases happ
    | replayed => exact ⟨_, rfl, rfl⟩
    | unauthenticated hj happ hnone =>
      obtain ⟨rfl, ha⟩ := along_opening ha
      obtain ⟨s₁, hlookup, -⟩ := along_append.mp ha
      rw [assess_idemKey hj.verdict happ, hk] at hnone
      refine absurd (unrecorded_of_noRecord hnone hlookup fun key c hc => ?_) hrecorded
      exact hanswered key c (List.mem_append_right _ (List.mem_append_left _ hc))
    | dispatched hd =>
      obtain ⟨_, _, _, _, _, hkey⟩ := hd.effect ha
      exact absurd ((hkey k hk).2.1 hanswered) hrecorded

/-! ## Retries of a session -/

section Session

variable {C : Crates} {tid : Bytes} {s s₁ s' : Kv} {i j : ExecuteInvocation}
  {l₁ l₂ l₃ : List ExecuteInvocation} {k : String}

/-- A record stays what it was as long as nobody under its key fails to look it up. -/
theorem recalls_of_lookups (hC : C.RoundTrips)
    (h : Session (kvHost tid) (AdminStep tid) (executeActionWasm C) s (l₁ ++ i :: l₂) s₁)
    (hi : Placed tid k i) (hkept : ∀ m ∈ l₂, UnderKey k m → LookupsAnswered tid m.trace) :
    Recalls C tid k i s₁ := by
  obtain ⟨s₂, -, hrest⟩ := h.split
  obtain ⟨s₃, s₄, -, hemits, halong, hafter⟩ := hrest.uncons
  obtain ⟨first, o, hfirst, hresponse, -, hkey⟩ :=
    (dispatched_of_emits hemits hi.called).effect halong
  have hput := (hkey k hi.key).2.2 hi.stored
  have hstored : HasRecord tid (utf8 k) (utf8 (C.valueToString (outcomeJson o))) s₄ := by
    rw [HasRecord, hput, Kv.put_self]
  refine ⟨_, first, session_keeps_records hafter hkept hstored, hfirst, ?_⟩
  rw [hresponse, readBack, recorded_outcome hC o]
  rfl

/-- What a retry learns. It is told the outcome of the order exactly when the mandate it
meets can be read and still lets the request through, the record can be looked up, and the
record still is that of the order, which it is unless somebody under the key failed to look
it up. -/
theorem retry_learns_iff (hC : C.RoundTrips)
    (h : Session (kvHost tid) (AdminStep tid) (executeActionWasm C) s (l₁ ++ i :: l₂) s₁)
    (hlater : Session (kvHost tid) (AdminStep tid) (executeActionWasm C) s₁ (j :: l₃) s')
    (hi : Placed tid k i) (hsame : j.request = i.request) :
    (Learns i j ↔ MeetsChecks C j.request j.trace ∧ LookupsAnswered tid j.trace ∧
      Recalls C tid k i s₁) ∧
    ((∀ m ∈ l₂, UnderKey k m → LookupsAnswered tid m.trace) → Recalls C tid k i s₁) := by
  refine ⟨?_, recalls_of_lookups hC h hi⟩
  obtain ⟨s₂, s₃, hadmin, hemits, halong, -⟩ := hlater.uncons
  have hexec := execution_of_emits hemits
  have hk : trimmedKey j.request.idempotencyKey = some k := by
    rw [hsame]
    exact hi.key
  have hrecord : s₂ (dispatchedOf tid) (utf8 k) = s₁ (dispatchedOf tid) (utf8 k) :=
    adminSteps_keep_records hadmin
  constructor
  · rintro ⟨-, first, out, v, hfirst, hv, hout, hreplayed, hresponse⟩
    have hreads := hexec
    rw [hout] at hreads
    obtain ⟨k', bytes, hk', hbytes, hread⟩ := hreads.replay_reads halong hreplayed
    obtain rfl : k = k' := Option.some.inj (hk.symm.trans hk')
    obtain ⟨hmeets, hanswered⟩ :=
      (hexec.replayed_iff halong hk hbytes).mp ⟨out, hout, hreplayed⟩
    refine ⟨hmeets, hanswered, bytes, first, hrecord.symm.trans hbytes, hfirst, ?_⟩
    rw [hv, ← hresponse, hread]
    rfl
  · rintro ⟨hmeets, hanswered, bytes, first, hbytes, hfirst, hresponse⟩
    have hstored := hrecord.trans hbytes
    obtain ⟨out, hout, hreplayed⟩ :=
      (hexec.replayed_iff halong hk hstored).mpr ⟨hmeets, hanswered⟩
    obtain ⟨hsilent, -⟩ := hexec.replays halong hanswered hk hstored
    have hreads := hexec
    rw [hout] at hreads
    obtain ⟨k', bytes', hk', hbytes', hread⟩ := hreads.replay_reads halong hreplayed
    obtain rfl : k = k' := Option.some.inj (hk.symm.trans hk')
    rw [hstored] at hbytes'
    cases hbytes'
    exact ⟨hsilent, first, out, _, hfirst, hresponse, hout, hreplayed, hread⟩

end Session

/-! ## A retry after the expiry -/

/-- The sample tenant's mandate, with an end. -/
def expiringMandateJson : String :=
  "\x7b\"max_amount_cents\":5000,\"allowed_assets\":[\"USDC\"],\"allowed_kinds\":[\"trade\"]," ++
    "\"allowed_counterparties\":[\"fund\"],\"allowed_issuers\":[\"did:web:kyc\"]," ++
    "\"counterparty_limits\":\x7b\"fund\":2500\x7d,\"expires_at_secs\":1700000000," ++
    "\"credential_key\":\"broker\",\"require_credential\":true\x7d"

def expiringMandate : Mandate := { sampleMandate with expiresAtSecs := 1_700_000_000 }

def expiringCrates : Crates := cratesWith [(utf8 expiringMandateJson, expiringMandate)]

def expiringKv : Kv := fun mapName key =>
  if mapName = mandateMap "ab" then some (utf8 expiringMandateJson) else sampleKv mapName key

/-- A host whose clock passes the expiry once the order has been recorded. -/
def expiringHost : (op : HostOp) → Kv → op.Res × Kv
  | .clusterTimestampSecs, s =>
    (if s (dispatchedMap "ab") (utf8 "k-1") = none then 1_699_999_999 else 1_700_000_600, s)
  | op, s => sampleHost op s

theorem kvHost_expiringHost (op : HostOp) (s : Kv) :
    kvHost sampleTid op s (expiringHost op s).1 (expiringHost op s).2 := by
  cases op with
  | clusterTimestampSecs => rfl
  | _ => exact kvHost_sampleHost _ s

/-- The order, and the maps after it. -/
def placedRun : ExecuteInvocation × Kv :=
  invoke expiringHost (executeActionWasm expiringCrates) sampleReq expiringKv

/-- The same order again, after the expiry. -/
def lateRetry : ExecuteInvocation × Kv :=
  invoke expiringHost (executeActionWasm expiringCrates) sampleReq placedRun.2

theorem session_placedRun : Session (kvHost sampleTid) (AdminStep sampleTid)
    (executeActionWasm expiringCrates) expiringKv [placedRun.1] placedRun.2 :=
  session_invoke kvHost_expiringHost _ _ sampleReq expiringKv

theorem session_lateRetry : Session (kvHost sampleTid) (AdminStep sampleTid)
    (executeActionWasm expiringCrates) placedRun.2 [lateRetry.1] lateRetry.2 :=
  session_invoke kvHost_expiringHost _ _ sampleReq placedRun.2

theorem placed_placedRun : Placed sampleTid "k-1" placedRun.1 where
  key := by decide
  called := by decide +kernel
  stored := by
    intro value a ha
    obtain ⟨s, hs⟩ := res_of_mem_runFrom ha
    exact hs

theorem lateRetry_rejected : (lateRetry.1.result.toOption.map fun out =>
    (out.decision, out.dispatched, out.replayed)) = some ("rejected", false, none) := by
  decide +kernel

theorem retry_learns_iff_sample :
    (Learns placedRun.1 lateRetry.1 ↔
      MeetsChecks expiringCrates lateRetry.1.request lateRetry.1.trace ∧
      LookupsAnswered sampleTid lateRetry.1.trace ∧
      Recalls expiringCrates sampleTid "k-1" placedRun.1 placedRun.2) ∧
    Recalls expiringCrates sampleTid "k-1" placedRun.1 placedRun.2 := by
  have hplaced : Session (kvHost sampleTid) (AdminStep sampleTid)
      (executeActionWasm expiringCrates) expiringKv ([] ++ placedRun.1 :: []) placedRun.2 :=
    session_placedRun
  have h := retry_learns_iff (roundTrips_cratesWith _) hplaced session_lateRetry
    placed_placedRun rfl
  exact ⟨h.1, h.2 fun m hm => absurd hm List.not_mem_nil⟩

/-- A retry that arrives after the expiry is rejected, though its order was placed. -/
theorem late_retry_not_told :
    ¬ ∀ (C : Crates) (tid : Bytes) (s s₁ s' : Kv) (i j : ExecuteInvocation) (k : String),
      C.RoundTrips →
      Session (kvHost tid) (AdminStep tid) (executeActionWasm C) s [i] s₁ →
      Session (kvHost tid) (AdminStep tid) (executeActionWasm C) s₁ [j] s' →
      Placed tid k i → j.request = i.request → Learns i j := by
  intro h
  obtain ⟨-, first, out, v, -, -, hout, hreplayed, -⟩ := h _ _ _ _ _ _ _ _
    (roundTrips_cratesWith _) session_placedRun session_lateRetry placed_placedRun rfl
  have heval := lateRetry_rejected
  rw [hout] at heval
  simp [Except.toOption, hreplayed] at heval

end Gatekeeper.Gate
