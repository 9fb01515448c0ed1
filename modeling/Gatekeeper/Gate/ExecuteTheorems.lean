import Gatekeeper.Gate.Executions

/-!
# What one invocation does

`execute_action` as a gate: when the call is made, what leaves the enclave, and what an
approval says about the credential behind it.
-/

namespace Gatekeeper.Gate

open Encoding Interaction Text

/-! ## The verdict -/

/-- Approval and an empty list of reasons are the same thing. -/
theorem judge_approved_iff_reasons {C : Crates} {req : ExecuteReq} {mandate : Mandate}
    {nowSecs : UInt64} {bindingErr : Option String} :
    (judge C req mandate nowSecs bindingErr).approved = true ↔
      (judge C req mandate nowSecs bindingErr).reasons = [] := by
  unfold judge
  cases checkIdempotency req.idempotencyKey mandate.requireIdempotencyKey with
  | error e => simp
  | ok k =>
    cases bindingErr with
    | some e => simp
    | none => exact decide_fst_iff

/-- The key of a verdict is the request's trimmed key, unless the key was refused. -/
theorem judge_idemKey {C : Crates} {req : ExecuteReq} {mandate : Mandate} {nowSecs : UInt64}
    {bindingErr : Option String}
    (h : (judge C req mandate nowSecs bindingErr).approved = true) :
    (judge C req mandate nowSecs bindingErr).idemKey = trimmedKey req.idempotencyKey := by
  unfold judge at h ⊢
  cases hk : checkIdempotency req.idempotencyKey mandate.requireIdempotencyKey with
  | error e => simp [hk] at h
  | ok k => exact checkIdempotency_ok hk

theorem judge_approved_iff {C : Crates} {req : ExecuteReq} {mandate : Mandate}
    {nowSecs : UInt64} {bindingErr : Option String} :
    (judge C req mandate nowSecs bindingErr).approved = true ↔
      bindingErr = none ∧ Permits req.action mandate nowSecs ∧
        ∃ k, checkIdempotency req.idempotencyKey mandate.requireIdempotencyKey = .ok k := by
  unfold judge
  cases checkIdempotency req.idempotencyKey mandate.requireIdempotencyKey with
  | error e => simp
  | ok k =>
    cases bindingErr with
    | some e => simp
    | none => simp [decide_iff_permits]

/-- The checks of an invocation that let an action through, as the source lists them. -/
structure Passes (C : Crates) (req : ExecuteReq) (mandate : Mandate) (nowSecs : UInt64) :
    Prop where
  permitted : Permits req.action mandate nowSecs
  binding : checkBinding C req.credential req.action mandate.requireCredential = .ok ()
  key : ∃ k, checkIdempotency req.idempotencyKey mandate.requireIdempotencyKey = .ok k

theorem assess_approved_iff {C : Crates} {req : ExecuteReq} {mandate : Mandate}
    {nowSecs : UInt64} {v : Verdict} (h : assess C req mandate nowSecs = .ok v) :
    v.approved = true ↔ Passes C req mandate nowSecs := by
  unfold assess at h
  split at h
  -- the binding is accepted, refused, or the check panics
  · rename_i hb
    cases h
    rw [judge_approved_iff]
    exact ⟨fun ⟨_, hp, hk⟩ => ⟨hp, hb, hk⟩, fun hp => ⟨rfl, hp.permitted, hp.key⟩⟩
  · rename_i e hb
    cases h
    rw [judge_approved_iff]
    constructor
    · rintro ⟨hnone, -⟩
      cases hnone
    · intro hp
      rw [hp.binding] at hb
      cases hb
  · cases h

/-- A request that passes is not caught by the panic of the binding check. -/
theorem assess_of_passes {C : Crates} {req : ExecuteReq} {mandate : Mandate}
    {nowSecs : UInt64} (h : Passes C req mandate nowSecs) :
    ∃ v, assess C req mandate nowSecs = .ok v := by
  unfold assess
  rw [h.binding]
  exact ⟨_, rfl⟩

theorem assess_reasons {C : Crates} {req : ExecuteReq} {mandate : Mandate} {nowSecs : UInt64}
    {v : Verdict} (h : assess C req mandate nowSecs = .ok v) :
    v.approved = true ↔ v.reasons = [] := by
  unfold assess at h
  split at h
  · cases h
    exact judge_approved_iff_reasons
  · cases h
    exact judge_approved_iff_reasons
  · cases h

theorem assess_idemKey {C : Crates} {req : ExecuteReq} {mandate : Mandate} {nowSecs : UInt64}
    {v : Verdict} (h : assess C req mandate nowSecs = .ok v) (happ : v.approved = true) :
    v.idemKey = trimmedKey req.idempotencyKey := by
  unfold assess at h
  split at h
  · cases h
    exact judge_idemKey happ
  · cases h
    exact judge_idemKey happ
  · cases h

/-! ## Calls and writes of the parts -/

theorem outboundCalls_noRecord {tidHex : String} {k : Option String} {t : List HostEvent}
    (h : NoRecord tidHex k t) : outboundCalls t = [] := by
  cases k with
  | none =>
    obtain rfl : t = [] := h
    rfl
  | some k =>
    obtain ⟨a, l, -, hl, rfl⟩ := h
    rw [outboundCalls_cons, hl.outboundCalls]
    rfl

theorem writes_noRecord {tidHex : String} {k : Option String} {t : List HostEvent}
    (h : NoRecord tidHex k t) : writes t = [] := by
  cases k with
  | none =>
    obtain rfl : t = [] := h
    rfl
  | some k =>
    obtain ⟨a, l, -, hl, rfl⟩ := h
    rw [writes_cons, hl.writes]
    rfl

theorem outboundCalls_headers {tidHex : String} {mandate : Mandate} {t : List HostEvent}
    {r : Except Fault (Option (List (String × String)))}
    (h : Emits (outboundHeaders tidHex mandate) t r) : outboundCalls t = [] := by
  rcases emits_outboundHeaders h with ⟨-, rfl, -⟩ | ⟨-, a, rfl, -⟩
  · rfl
  · rfl

theorem writes_headers {tidHex : String} {mandate : Mandate} {t : List HostEvent}
    {r : Except Fault (Option (List (String × String)))}
    (h : Emits (outboundHeaders tidHex mandate) t r) : writes t = [] := by
  rcases emits_outboundHeaders h with ⟨-, rfl, -⟩ | ⟨-, a, rfl, -⟩
  · rfl
  · rfl

theorem outboundCalls_recorded {tidHex value : String} {k : Option String}
    {t : List HostEvent} (h : Recorded tidHex value k t) : outboundCalls t = [] := by
  cases k with
  | none =>
    obtain rfl : t = [] := h
    rfl
  | some k =>
    obtain ⟨x, rfl⟩ := h
    rfl

@[simp] theorem outboundCalls_opening (tid : Bytes) (nowSecs : UInt64)
    (a : Except String (Option Bytes)) : outboundCalls (opening tid nowSecs a) = [] := rfl

@[simp] theorem writes_opening (tid : Bytes) (nowSecs : UInt64)
    (a : Except String (Option Bytes)) : writes (opening tid nowSecs a) = [] := rfl

/-- Of all the parts of a dispatch only the call itself leaves the enclave. -/
theorem outboundCalls_dispatch {tid : Bytes} {nowSecs : UInt64}
    {a : Except String (Option Bytes)} {k : Option String} {tidHex value : String}
    {mandate : Mandate} {r : Except Fault (Option (List (String × String)))}
    {t₁ t₂ t₃ l : List HostEvent} {e : HostEvent} {request : Request}
    (hnone : NoRecord tidHex k t₁) (hheaders : Emits (outboundHeaders tidHex mandate) t₂ r)
    (he : e.op.outbound = some request) (hrec : Recorded tidHex value k t₃) (hl : Logs l) :
    outboundCalls (opening tid nowSecs a ++ (t₁ ++ (t₂ ++ e :: (t₃ ++ l)))) = [request] := by
  simp only [outboundCalls_append, outboundCalls_cons, outboundCalls_opening,
    outboundCalls_noRecord hnone, outboundCalls_headers hheaders, outboundCalls_recorded hrec,
    hl.outboundCalls, he]
  rfl

/-- A dispatch makes one call, with the request built from its headers. -/
theorem Dispatched.one_call {C : Crates} {req : ExecuteReq} {t : List HostEvent}
    {r : Except Fault ExecuteOut} (h : Dispatched C req t r) :
    ∃ headers, outboundCalls t = [outboundRequest req headers] := by
  cases h with
  | intro _ _ hnone hheaders he hrec hl =>
    exact ⟨_, outboundCalls_dispatch hnone hheaders he hrec hl⟩

/-- What a dispatch returns is what the checks came to, with the outcome of the call. -/
theorem Dispatched.out_eq {C : Crates} {req : ExecuteReq} {t : List HostEvent}
    {out : ExecuteOut} (h : Dispatched C req t (.ok out)) :
    ∃ tid nowSecs a mandate v l response, Judged C req nowSecs a mandate v ∧
      t = opening tid nowSecs a ++ l ∧
      out = sentOut req (baseOut C req (hexEncode tid) nowSecs v) response v.idemKey := by
  generalize hr : Except.ok out = r at h
  cases h with
  | intro hj =>
    cases hr
    exact ⟨_, _, _, _, _, _, _, hj, rfl, rfl⟩

/-- A dispatch returns an approval. -/
theorem Dispatched.approved {C : Crates} {req : ExecuteReq} {t : List HostEvent}
    {r : Except Fault ExecuteOut} (h : Dispatched C req t r) :
    ∃ out, r = .ok out ∧ out.decision = "approved" := by
  cases h with
  | intro _ happ => exact ⟨_, rfl, if_pos happ⟩

/-- Every other run neither calls out nor writes. -/
theorem Execution.silent_or_dispatched {C : Crates} {req : ExecuteReq} {t : List HostEvent}
    {r : Except Fault ExecuteOut} (h : Execution C req t r) :
    (outboundCalls t = [] ∧ writes t = []) ∨ Dispatched C req t r := by
  cases h with
  | unreadable => exact .inl ⟨rfl, rfl⟩
  | trapped => exact .inl ⟨rfl, rfl⟩
  | rejected _ _ hl =>
    rw [outboundCalls_append, hl.outboundCalls, writes_append, hl.writes]
    exact .inl ⟨rfl, rfl⟩
  | replayed _ _ _ _ hl =>
    rw [outboundCalls_append, outboundCalls_cons, hl.outboundCalls, writes_append, writes_cons,
      hl.writes]
    exact .inl ⟨rfl, rfl⟩
  | unauthenticated _ _ hnone hheaders =>
    simp only [outboundCalls_append, outboundCalls_noRecord hnone,
      outboundCalls_headers hheaders, writes_append, writes_noRecord hnone,
      writes_headers hheaders]
    exact .inl ⟨rfl, rfl⟩
  | dispatched hd => exact .inr hd

theorem dispatched_of_emits {C : Crates} {req : ExecuteReq} {t : List HostEvent}
    {r : Except Fault ExecuteOut} (h : Emits (executeActionWasm C req) t r)
    (hne : outboundCalls t ≠ []) : Dispatched C req t r :=
  (execution_of_emits h).silent_or_dispatched.resolve_left fun hs => hne hs.1

/-! ## When the call is made -/

namespace Answers

variable (answer : Answers)

def tidHex : String := hexEncode (answer .tenantDid)

def nowSecs : UInt64 := answer .clusterTimestampSecs

/-- What the host holds under `mandate[default]`. -/
def mandate (C : Crates) : Except Fault Mandate :=
  mandateOf C (answer (.kvGet (mandateMap answer.tidHex) (utf8 "default")))

/-- The dispatch record that can be read under a key. -/
def record (k : String) : Option String :=
  recordOf (answer (.kvGet (dispatchedMap answer.tidHex) (utf8 k)))

def secret (credentialKey : String) : Except String (Option Bytes) :=
  answer (.kvGet (secretsMap answer.tidHex) (utf8 credentialKey))

end Answers

/-- What the gate asks of a request and of the host before it lets the call out. -/
structure Admits (C : Crates) (answer : Answers) (req : ExecuteReq) (mandate : Mandate) :
    Prop where
  parses : answer.mandate C = .ok mandate
  passes : Passes C req mandate answer.nowSecs
  fresh : ∀ k, trimmedKey req.idempotencyKey = some k → answer.record k = none
  credential : mandate.credentialKey ≠ "" →
    ∃ secret, answer.secret mandate.credentialKey = .ok (some (utf8 secret)) ∧ secret ≠ ""

theorem agrees_append {answer : Answers} {t₁ t₂ : List HostEvent} :
    Agrees answer (t₁ ++ t₂) ↔ Agrees answer t₁ ∧ Agrees answer t₂ := List.forall_mem_append

theorem agrees_cons {answer : Answers} {e : HostEvent} {t : List HostEvent} :
    Agrees answer (e :: t) ↔ e.res = answer e.op ∧ Agrees answer t := List.forall_mem_cons

theorem agrees_opening {answer : Answers} {tid : Bytes} {nowSecs : UInt64}
    {a : Except String (Option Bytes)} (h : Agrees answer (opening tid nowSecs a)) :
    hexEncode tid = answer.tidHex ∧ nowSecs = answer.nowSecs ∧
      ∀ C, mandateOf C a = answer.mandate C := by
  simp only [opening, agrees_cons] at h
  obtain ⟨htid, hnow, ha, -⟩ := h
  obtain rfl : tid = answer .tenantDid := htid
  obtain rfl : nowSecs = answer .clusterTimestampSecs := hnow
  refine ⟨rfl, rfl, fun C => ?_⟩
  rw [show a = _ from ha]
  rfl

/-- The mandate an invocation judged by is the one the host holds. -/
theorem Judged.read_eq {C : Crates} {answer : Answers} {req : ExecuteReq} {tid : Bytes}
    {nowSecs : UInt64} {a : Except String (Option Bytes)} {mandate held : Mandate} {v : Verdict}
    (hj : Judged C req nowSecs a mandate v) (hopen : Agrees answer (opening tid nowSecs a))
    (hm : answer.mandate C = .ok held) : held = mandate := by
  obtain ⟨-, -, hread⟩ := agrees_opening hopen
  have h := hj.read
  rw [hread C, hm] at h
  exact Except.ok.inj h

/-- A named credential goes out as one header, and only when the secret is there, is UTF-8
and is not empty. -/
theorem credential_ok_iff {a : Except String (Option Bytes)} {credentialKey : String}
    {headers : Option (List (String × String))} (hkey : credentialKey ≠ "") :
    (secretOf a >>= authHeaders credentialKey) = .ok headers ↔
      ∃ v, a = .ok (some (utf8 v)) ∧ v ≠ "" ∧
        headers = some [("Authorization", s!"Bearer {v}")] := by
  have hauth : ∀ secret, authHeaders credentialKey secret = .ok headers ↔
      ∃ v, secret = some v ∧ v ≠ "" ∧ headers = some [("Authorization", s!"Bearer {v}")] := by
    intro secret
    rw [authHeaders, if_neg hkey]
    cases secret with
    | none => simp
    | some v =>
      by_cases hv : v = ""
      · simp [Option.filter, hv]
      · simp [Option.filter, hv, eq_comm]
  rcases a with e | _ | bytes
  · simp [secretOf, bind, Except.bind]
  · simp [secretOf, bind, Except.bind, hauth]
  · cases hv : ofUtf8 bytes with
    | none =>
      simp only [secretOf, hv, bind, Except.bind, reduceCtorEq, false_iff, not_exists]
      rintro v ⟨hb, -⟩
      cases hb
      simp at hv
    | some v =>
      obtain rfl := utf8_of_ofUtf8 hv
      simp [secretOf, bind, Except.bind, hauth]

/-- The credential step succeeds exactly when the secret can be sent. -/
theorem headers_ok_iff {answer : Answers} {mandate : Mandate} {t : List HostEvent}
    {r : Except Fault (Option (List (String × String)))}
    (h : Emits (outboundHeaders answer.tidHex mandate) t r) (ha : Agrees answer t) :
    (∃ headers, r = .ok headers) ↔ (mandate.credentialKey ≠ "" →
      ∃ secret, answer.secret mandate.credentialKey = .ok (some (utf8 secret)) ∧ secret ≠ "") := by
  rcases emits_outboundHeaders h with ⟨hkey, rfl, rfl⟩ | ⟨hkey, a, rfl, rfl⟩
  · exact ⟨fun _ hne => absurd hkey hne, fun _ => ⟨none, rfl⟩⟩
  obtain rfl : a = answer.secret mandate.credentialKey := (agrees_cons.mp ha).1
  constructor
  · rintro ⟨headers, hok⟩ -
    obtain ⟨v, hv, hne, -⟩ := (credential_ok_iff hkey).mp hok
    exact ⟨v, hv, hne⟩
  · intro hsecret
    obtain ⟨v, hv, hne⟩ := hsecret hkey
    exact ⟨_, (credential_ok_iff hkey).mpr ⟨v, hv, hne, rfl⟩⟩

/-- A run that makes the call had everything the gate asks for. -/
theorem Dispatched.admits {C : Crates} {answer : Answers} {req : ExecuteReq}
    {t : List HostEvent} {r : Except Fault ExecuteOut} (h : Dispatched C req t r)
    (ha : Agrees answer t) : ∃ mandate, Admits C answer req mandate := by
  cases h with
  | @intro tid nowSecs a mandate v t₁ t₂ headers e o t₃ l hj happ hnone hheaders he hrec hl =>
    simp only [agrees_append] at ha
    obtain ⟨hopen, hlookup, hsecret, -⟩ := ha
    obtain ⟨htid, rfl, hm⟩ := agrees_opening hopen
    rw [htid] at hnone hheaders
    refine ⟨mandate, ?_, ?_, ?_, ?_⟩
    · rw [← hm C, hj.read]
    · exact (assess_approved_iff hj.verdict).mp happ
    -- no record could be read under the key, because none was replayed
    · intro k hk
      rw [← assess_idemKey hj.verdict happ] at hk
      rw [hk] at hnone
      obtain ⟨b, l', hb, -, rfl⟩ := hnone
      have hanswer : b = answer (.kvGet (dispatchedMap answer.tidHex) (utf8 k)) :=
        (agrees_cons.mp hlookup).1
      rw [Answers.record, ← hanswer, hb]
    · exact (headers_ok_iff hheaders hsecret).mp ⟨headers, rfl⟩

/-- The call a run makes carries the credential its mandate names. -/
theorem Dispatched.sends {C : Crates} {answer : Answers} {req : ExecuteReq} {mandate : Mandate}
    {t : List HostEvent} {r : Except Fault ExecuteOut} (h : Dispatched C req t r)
    (ha : Agrees answer t) (hm : answer.mandate C = .ok mandate) :
    ∃ headers, outboundCalls t = [outboundRequest req headers] ∧
      (mandate.credentialKey = "" → headers = none) ∧
      (mandate.credentialKey ≠ "" → ∃ v,
        answer.secret mandate.credentialKey = .ok (some (utf8 v)) ∧
        headers = some [("Authorization", s!"Bearer {v}")]) := by
  cases h with
  | @intro tid nowSecs a mandate' v t₁ t₂ headers e o t₃ l hj _ hnone hheaders he hrec hl =>
    simp only [agrees_append] at ha
    obtain ⟨hopen, -, hsecret, -⟩ := ha
    obtain rfl := hj.read_eq hopen hm
    obtain ⟨htid, -, -⟩ := agrees_opening hopen
    refine ⟨headers, outboundCalls_dispatch hnone hheaders he hrec hl, ?_, ?_⟩
    · intro hkey
      rcases emits_outboundHeaders hheaders with ⟨-, -, hr⟩ | ⟨hne, -⟩
      · cases hr
        rfl
      · exact absurd hkey hne
    · intro hkey
      rcases emits_outboundHeaders hheaders with ⟨hempty, -⟩ | ⟨-, b, rfl, hr⟩
      · exact absurd hempty hkey
      · rw [htid] at hsecret
        obtain rfl : b = answer.secret mandate.credentialKey := (agrees_cons.mp hsecret).1
        obtain ⟨v, hv, -, hheader⟩ := (credential_ok_iff hkey).mp hr.symm
        exact ⟨v, hv, hheader⟩

/-- All a dispatch reads: the mandate, no record, and a secret that can be sent. -/
theorem Dispatched.gets {C : Crates} {req : ExecuteReq} {t : List HostEvent}
    {r : Except Fault ExecuteOut} (h : Dispatched C req t r) :
    ∃ tid rest, t = ⟨.tenantDid, tid⟩ :: rest ∧ ∀ mapName key a,
      (⟨.kvGet mapName key, a⟩ : HostEvent) ∈ t →
      mapName = mandateMap (hexEncode tid) ∨
      (mapName = dispatchedMap (hexEncode tid) ∧ recordOf a = none) ∨
      (mapName = secretsMap (hexEncode tid) ∧ ∃ v, a = .ok (some (utf8 v)) ∧ v ≠ "") := by
  cases h with
  | @intro tid nowSecs b mandate v t₁ t₂ headers e o t₃ l hj happ hnone hheaders he hrec hl =>
    refine ⟨tid, _, rfl, fun mapName key a hmem => ?_⟩
    -- a log message reads nothing
    have hlogs : ∀ {l}, Logs l → (⟨.kvGet mapName key, a⟩ : HostEvent) ∉ l := by
      intro l hl hmem
      obtain ⟨message, hop⟩ := hl _ hmem
      cases hop
    simp only [List.mem_append, List.mem_cons] at hmem
    -- the parts of a dispatch in order: opening, lookup, secret, call, record, log
    rcases hmem with hopen | hlookup | hsecret | rfl | hrecord | hlog
    · simp only [opening, List.mem_cons, List.not_mem_nil, or_false] at hopen
      rcases hopen with h | h | h
      · cases congrArg Event.op h
      · cases congrArg Event.op h
      · injection congrArg Event.op h with hmap _
        exact .inl hmap
    · refine .inr (.inl ?_)
      cases hk : v.idemKey with
      | none =>
        rw [hk] at hnone
        obtain rfl : t₁ = [] := hnone
        cases hlookup
      | some k =>
        rw [hk] at hnone
        obtain ⟨c, l', hc, hl', rfl⟩ := hnone
        rcases List.mem_cons.mp hlookup with h | hlog
        · cases h
          exact ⟨rfl, hc⟩
        · exact absurd hlog (hlogs hl')
    · refine .inr (.inr ?_)
      rcases emits_outboundHeaders hheaders with ⟨-, rfl, -⟩ | ⟨hkey, c, rfl, hr⟩
      · cases hsecret
      · cases List.mem_singleton.mp hsecret
        obtain ⟨v, hv, hne, -⟩ := (credential_ok_iff hkey).mp hr.symm
        exact ⟨rfl, v, hv, hne⟩
    · cases he
    · cases hk : v.idemKey with
      | none =>
        rw [hk] at hrec
        obtain rfl : t₃ = [] := hrec
        cases hrecord
      | some k =>
        rw [hk] at hrec
        obtain ⟨x, rfl⟩ := hrec
        cases congrArg Event.op (List.mem_singleton.mp hrecord)
    · exact absurd hlog (hlogs hl)

/-- A run with everything the gate asks for makes the call. -/
theorem Execution.dispatched_of_admits {C : Crates} {answer : Answers} {req : ExecuteReq}
    {mandate : Mandate} {t : List HostEvent} {r : Except Fault ExecuteOut}
    (h : Execution C req t r) (ha : Agrees answer t) (hadm : Admits C answer req mandate) :
    Dispatched C req t r := by
  -- every other way to end contradicts one of the things the gate asks for
  cases h with
  | unreadable hf =>
    obtain ⟨-, -, hm⟩ := agrees_opening ha
    rw [hm C, hadm.parses] at hf
    cases hf
  | trapped hread hf =>
    obtain ⟨-, rfl, hm⟩ := agrees_opening ha
    rw [hm C, hadm.parses] at hread
    cases hread
    obtain ⟨v, hv⟩ := assess_of_passes hadm.passes
    rw [hv] at hf
    cases hf
  | rejected hj happ _ =>
    obtain rfl := hj.read_eq (agrees_append.mp ha).1 hadm.parses
    obtain ⟨-, rfl, -⟩ := agrees_opening (agrees_append.mp ha).1
    rw [(assess_approved_iff hj.verdict).mpr hadm.passes] at happ
    cases happ
  | @replayed tid _ _ _ _ k b _ _ hj happ hk hb _ =>
    obtain ⟨hopen, hrest⟩ := agrees_append.mp ha
    obtain ⟨htid, -, -⟩ := agrees_opening hopen
    have hanswer : b = answer (.kvGet (dispatchedMap (hexEncode tid)) (utf8 k)) :=
      (agrees_cons.mp hrest).1
    have hfresh := hadm.fresh _ ((assess_idemKey hj.verdict happ).symm.trans hk)
    rw [Answers.record, ← htid, ← hanswer, hb] at hfresh
    cases hfresh
  | unauthenticated hj happ hnone hheaders =>
    simp only [agrees_append] at ha
    obtain ⟨hopen, -, hsecret⟩ := ha
    obtain rfl := hj.read_eq hopen hadm.parses
    obtain ⟨htid, -, -⟩ := agrees_opening hopen
    rw [htid] at hheaders
    obtain ⟨headers, hok⟩ := (headers_ok_iff hheaders hsecret).mpr hadm.credential
    cases hok
  | dispatched hd => exact hd

/-- An output reports the verdict of the mandate that was read. -/
theorem Execution.judged {C : Crates} {req : ExecuteReq} {t : List HostEvent}
    {out : ExecuteOut} (h : Execution C req t (.ok out)) :
    ∃ tid nowSecs a mandate v l, Judged C req nowSecs a mandate v ∧
      t = opening tid nowSecs a ++ l ∧ (out.decision = "approved" ↔ v.approved = true) ∧
      out.reasons = v.reasons := by
  have hdecision : ∀ tidHex nowSecs v,
      (baseOut C req tidHex nowSecs v).decision = "approved" ↔ v.approved = true := by
    intro tidHex nowSecs v
    cases happ : v.approved <;> simp [baseOut, happ]
  cases h with
  | rejected hj _ _ => exact ⟨_, _, _, _, _, _, hj, rfl, hdecision _ _ _, rfl⟩
  | @replayed tid nowSecs _ _ v _ _ _ _ hj =>
    exact ⟨_, _, _, _, _, _, hj, rfl, hdecision (hexEncode tid) nowSecs v, rfl⟩
  | dispatched hd =>
    obtain ⟨tid, nowSecs, a, mandate, v, l, response, hj, rfl, rfl⟩ := hd.out_eq
    exact ⟨_, _, _, _, _, _, hj, rfl, hdecision (hexEncode tid) nowSecs v, rfl⟩

/-- An output says it dispatched when the call was made. -/
theorem Execution.dispatched_iff {C : Crates} {req : ExecuteReq} {t : List HostEvent}
    {out : ExecuteOut} (h : Execution C req t (.ok out)) :
    out.dispatched = true ↔ outboundCalls t ≠ [] := by
  cases h with
  | rejected hj happ hl =>
    rw [outboundCalls_append, hl.outboundCalls]
    simp [baseOut]
  | replayed hj happ hk hb hl =>
    rw [outboundCalls_append, outboundCalls_cons, hl.outboundCalls]
    simp [replayOut, lookupEvent, HostOp.outbound]
  | dispatched hd =>
    obtain ⟨headers, hcalls⟩ := hd.one_call
    obtain ⟨_, _, _, _, _, _, _, _, _, rfl⟩ := hd.out_eq
    rw [hcalls]
    simp [sentOut]

/-- An output says approved exactly when the request passed every check. -/
theorem Execution.approved_iff {C : Crates} {answer : Answers} {req : ExecuteReq}
    {mandate : Mandate} {t : List HostEvent} {out : ExecuteOut}
    (h : Execution C req t (.ok out)) (ha : Agrees answer t)
    (hm : answer.mandate C = .ok mandate) :
    out.decision = "approved" ↔ Passes C req mandate answer.nowSecs := by
  obtain ⟨tid, nowSecs, a, mandate', v, l, hj, rfl, hdecision, -⟩ := h.judged
  obtain rfl := hj.read_eq (agrees_append.mp ha).1 hm
  obtain ⟨-, rfl, -⟩ := agrees_opening (agrees_append.mp ha).1
  exact hdecision.trans (assess_approved_iff hj.verdict)

/-- `execute_action` is a complete gate: against any host it makes at most one outbound
call, makes it exactly when everything the gate asks for holds, and says so. -/
theorem execute_action_gate (C : Crates) (answer : Answers) (req : ExecuteReq) :
    (outboundCalls (run answer (executeActionWasm C req)).1).length ≤ 1 ∧
    ((outboundCalls (run answer (executeActionWasm C req)).1).length = 1 ↔
      ∃ mandate, Admits C answer req mandate) ∧
    ∀ out, (run answer (executeActionWasm C req)).2 = .ok out →
      (out.decision = "approved" ↔ out.reasons = []) ∧
      (out.dispatched = true ↔
        (outboundCalls (run answer (executeActionWasm C req)).1).length = 1) := by
  have hexec := execution_of_emits (emits_run answer (executeActionWasm C req))
  have hagrees := agrees_run answer (executeActionWasm C req)
  generalize (run answer (executeActionWasm C req)).1 = t at hexec hagrees ⊢
  generalize (run answer (executeActionWasm C req)).2 = r at hexec ⊢
  -- one call and a dispatch are the same thing, so both sides speak of the dispatch
  have hone : Dispatched C req t r → (outboundCalls t).length = 1 := by
    intro hd
    obtain ⟨headers, hcalls⟩ := hd.one_call
    rw [hcalls]
    rfl
  have hcalls : (outboundCalls t).length ≤ 1 ∧
      ((outboundCalls t).length = 1 ↔ Dispatched C req t r) := by
    rcases hexec.silent_or_dispatched with ⟨hnone, -⟩ | hd
    · rw [hnone]
      refine ⟨by decide, fun h => absurd h (by decide), fun hd => ?_⟩
      rw [← hone hd, hnone]
    · exact ⟨(hone hd).le, fun _ => hd, hone⟩
  refine ⟨hcalls.1, hcalls.2.trans ⟨?_, ?_⟩, ?_⟩
  · intro hd
    exact hd.admits hagrees
  · rintro ⟨mandate, hadm⟩
    exact hexec.dispatched_of_admits hagrees hadm
  · rintro out rfl
    obtain ⟨_, _, _, _, v, _, hj, -, hdecision, hreasons⟩ := hexec.judged
    refine ⟨?_, hexec.dispatched_iff.trans ?_⟩
    · rw [hdecision, hreasons]
      exact assess_reasons hj.verdict
    · rw [← List.length_pos_iff]
      omega

end Gatekeeper.Gate
