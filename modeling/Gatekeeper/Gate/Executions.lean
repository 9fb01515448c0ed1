import Gatekeeper.Gate.Execute
import Gatekeeper.Gate.RulesTheorems

/-!
# The complete runs of `execute_action`

`Execution` lists every way one invocation can end, with the host calls it made and the
answers it got. `execution_of_emits` reads the program once; later results argue by cases
on `Execution` and never unfold the program again.
-/

namespace Gatekeeper.Gate

open Encoding Interaction Text

/-! ## What a trace did to the host -/

/-- The entry a call writes: map, key and value. -/
def HostOp.written : HostOp → Option (String × Bytes × Bytes)
  | kvPut mapName key value => some (mapName, key, value)
  | _ => none

/-- The entries a run wrote, in order. -/
def writes (t : List HostEvent) : List (String × Bytes × Bytes) :=
  t.filterMap fun e => e.op.written

@[simp] theorem writes_append (t₁ t₂ : List HostEvent) :
    writes (t₁ ++ t₂) = writes t₁ ++ writes t₂ := List.filterMap_append

theorem writes_cons (e : HostEvent) (t : List HostEvent) :
    writes (e :: t) = e.op.written.toList ++ writes t := by
  cases h : e.op.written <;> simp [writes, h]

/-- A trace that only logs. -/
def Logs (t : List HostEvent) : Prop := ∀ e ∈ t, ∃ message, e.op = .logInfo message

theorem logs_nil : Logs [] := by
  intro e he
  cases he

theorem Logs.append {t₁ t₂ : List HostEvent} (h₁ : Logs t₁) (h₂ : Logs t₂) : Logs (t₁ ++ t₂) := by
  intro e he
  rcases List.mem_append.mp he with he | he
  · exact h₁ e he
  · exact h₂ e he

theorem logs_singleton (message : String) (x : HostOp.Res (.logInfo message)) :
    Logs [⟨.logInfo message, x⟩] := by
  intro e he
  rw [List.mem_singleton] at he
  exact ⟨message, by rw [he]⟩

theorem Logs.outboundCalls {t : List HostEvent} (h : Logs t) : outboundCalls t = [] := by
  rw [Gate.outboundCalls, List.filterMap_eq_nil_iff]
  intro e he
  obtain ⟨message, hop⟩ := h e he
  rw [hop]
  rfl

theorem Logs.writes {t : List HostEvent} (h : Logs t) : writes t = [] := by
  rw [Gate.writes, List.filterMap_eq_nil_iff]
  intro e he
  obtain ⟨message, hop⟩ := h e he
  rw [hop]
  rfl

theorem emits_logInfo_bind {α : Type} {message : String} {f : Except String Unit → Guest α}
    {t : List HostEvent} {r : Except Fault α} :
    Emits (logInfo message >>= f) t r ↔
      ∃ x t', t = ⟨.logInfo message, x⟩ :: t' ∧ Emits (f x) t' r := emits_perform_bind

/-- A message at the end of a program is all that is left of it. -/
theorem emits_logInfo_pure {α : Type} {message : String} {a : α} {t : List HostEvent}
    {r : Except Fault α} (h : Emits (logInfo message >>= fun _ => pure a) t r) :
    Logs t ∧ r = .ok a := by
  rw [emits_logInfo_bind] at h
  obtain ⟨x, t', rfl, h⟩ := h
  obtain ⟨rfl, hr⟩ := emits_pure.mp h
  exact ⟨logs_singleton message x, hr⟩

/-! ## The parts of an invocation -/

/-- The three calls every invocation starts with. -/
def opening (tid : Bytes) (nowSecs : UInt64) (a : Except String (Option Bytes)) :
    List HostEvent :=
  [⟨.tenantDid, tid⟩, ⟨.clusterTimestampSecs, nowSecs⟩,
    ⟨.kvGet (mandateMap (hexEncode tid)) (utf8 "default"), a⟩]

/-- The lookup of a key in the dispatch map. -/
def lookupEvent (tidHex k : String) (a : Except String (Option Bytes)) : HostEvent :=
  ⟨.kvGet (dispatchedMap tidHex) (utf8 k), a⟩

/-- The record an answer of the dispatch map holds, if it can be read. -/
def recordOf : Except String (Option Bytes) → Option String
  | .ok (some bytes) => some (fromUtf8Lossy bytes)
  | _ => none

/-- The calls of a lookup that finds no record; without a key there is none. -/
def NoRecord (tidHex : String) : Option String → List HostEvent → Prop
  | none, t => t = []
  | some k, t => ∃ a l, recordOf a = none ∧ Logs l ∧ t = lookupEvent tidHex k a :: l

/-- The call that records an outcome; without a key there is none. -/
def Recorded (tidHex value : String) : Option String → List HostEvent → Prop
  | none, t => t = []
  | some k, t => ∃ x, t = [⟨.kvPut (dispatchedMap tidHex) (utf8 k) (utf8 value), x⟩]

/-- The mandate the invocation read and the verdict it came to. -/
structure Judged (C : Crates) (req : ExecuteReq) (nowSecs : UInt64)
    (a : Except String (Option Bytes)) (mandate : Mandate) (v : Verdict) : Prop where
  read : mandateOf C a = .ok mandate
  verdict : assess C req mandate nowSecs = .ok v

/-- The output of a dispatch. -/
def sentOut (req : ExecuteReq) (out : ExecuteOut) (response : Json.Value)
    (idemKey : Option String) : ExecuteOut :=
  { out with
    dispatched := true
    dispatchVia := some (dispatchVia req)
    response := some response
    idempotencyKey := idemKey }

theorem emits_readMandate {C : Crates} {tidHex : String} {t : List HostEvent}
    {r : Except Fault Mandate} :
    Emits (readMandate C tidHex) t r ↔
      ∃ a, t = [⟨.kvGet (mandateMap tidHex) (utf8 "default"), a⟩] ∧ r = mandateOf C a := by
  rw [readMandate, kvGet, emits_perform_bind]
  simp only [emits_ofExcept]
  constructor
  · rintro ⟨a, t', rfl, rfl, rfl⟩
    exact ⟨a, rfl, rfl⟩
  · rintro ⟨a, rfl, rfl⟩
    exact ⟨a, [], rfl, rfl, rfl⟩

theorem emits_readDispatchRecord {tidHex k : String} {t : List HostEvent}
    {r : Except Fault (Option String)} (h : Emits (readDispatchRecord tidHex k) t r) :
    ∃ a l, Logs l ∧ t = lookupEvent tidHex k a :: l ∧ r = .ok (recordOf a) := by
  rw [readDispatchRecord, kvGet, emits_perform_bind] at h
  obtain ⟨a, l, rfl, h⟩ := h
  rcases a with e | _ | bytes
  -- a failed read is logged and counts as no record
  · obtain ⟨hl, hr⟩ := emits_logInfo_pure h
    exact ⟨.error e, l, hl, rfl, hr⟩
  · obtain ⟨rfl, hr⟩ := emits_pure.mp h
    exact ⟨.ok none, [], logs_nil, rfl, hr⟩
  · obtain ⟨rfl, hr⟩ := emits_pure.mp h
    exact ⟨.ok (some bytes), [], logs_nil, rfl, hr⟩

/-- Only an approved action with a key is looked up; the lookup ends in no error. -/
theorem emits_readPrevious {tidHex : String} {v : Verdict} {t : List HostEvent}
    {r : Except Fault (Option (String × String))} (h : Emits (readPrevious tidHex v) t r) :
    (v.approved = false ∧ t = [] ∧ r = .ok none) ∨
    (v.approved = true ∧ NoRecord tidHex v.idemKey t ∧ r = .ok none) ∨
    (v.approved = true ∧ ∃ k a l p, v.idemKey = some k ∧ recordOf a = some p ∧ Logs l ∧
      t = lookupEvent tidHex k a :: l ∧ r = .ok (some (k, p))) := by
  unfold readPrevious at h
  split at h
  · rename_i k happ hk
    rw [emits_bind] at h
    rcases h with ⟨f, hread, -⟩ | ⟨prev, t₁, t₂, rfl, hread, hret⟩
    · obtain ⟨a, l, -, -, hr⟩ := emits_readDispatchRecord hread
      cases hr
    · obtain ⟨a, l, hl, rfl, hr⟩ := emits_readDispatchRecord hread
      obtain ⟨rfl, rfl⟩ := emits_pure.mp hret
      cases hr
      rw [List.append_nil]
      cases hrec : recordOf a with
      | none =>
        rw [hk]
        exact .inr (.inl ⟨happ, ⟨a, l, hrec, hl, rfl⟩, rfl⟩)
      | some p => exact .inr (.inr ⟨happ, k, a, l, p, hk, hrec, hl, rfl, rfl⟩)
  · rename_i hnot
    obtain ⟨rfl, rfl⟩ := emits_pure.mp h
    cases happ : v.approved with
    | false => exact .inl ⟨rfl, rfl, rfl⟩
    | true =>
      cases hk : v.idemKey with
      | none => exact .inr (.inl ⟨rfl, rfl, rfl⟩)
      | some k => exact absurd hk (hnot k happ)

/-- The credential read: none when the mandate names none, otherwise one secret. -/
theorem emits_outboundHeaders {tidHex : String} {mandate : Mandate} {t : List HostEvent}
    {r : Except Fault (Option (List (String × String)))}
    (h : Emits (outboundHeaders tidHex mandate) t r) :
    (mandate.credentialKey = "" ∧ t = [] ∧ r = .ok none) ∨
    (mandate.credentialKey ≠ "" ∧ ∃ a,
      t = [⟨.kvGet (secretsMap tidHex) (utf8 mandate.credentialKey), a⟩] ∧
      r = secretOf a >>= authHeaders mandate.credentialKey) := by
  unfold outboundHeaders at h
  by_cases hkey : mandate.credentialKey = ""
  · rw [if_pos hkey] at h
    rw [emits_bind] at h
    rcases h with ⟨f, hread, -⟩ | ⟨secret, t₁, t₂, rfl, hread, hret⟩
    · cases (emits_pure.mp hread).2
    · obtain ⟨rfl, hsecret⟩ := emits_pure.mp hread
      obtain ⟨rfl, rfl⟩ := emits_ofExcept.mp hret
      exact .inl ⟨hkey, rfl, by simp [authHeaders, hkey]⟩
  · rw [if_neg hkey] at h
    refine .inr ⟨hkey, ?_⟩
    have hread : ∀ {t r'}, Emits (readSecret tidHex mandate.credentialKey) t r' →
        ∃ a, t = [⟨.kvGet (secretsMap tidHex) (utf8 mandate.credentialKey), a⟩] ∧
          r' = secretOf a := by
      intro t r' hr
      rw [readSecret, kvGet, emits_perform_bind] at hr
      obtain ⟨a, t', rfl, hr⟩ := hr
      obtain ⟨rfl, rfl⟩ := emits_ofExcept.mp hr
      exact ⟨a, rfl, rfl⟩
    rw [emits_bind] at h
    rcases h with ⟨f, hsec, rfl⟩ | ⟨secret, t₁, t₂, rfl, hsec, hret⟩
    · obtain ⟨a, rfl, hf⟩ := hread hsec
      exact ⟨a, rfl, by rw [← hf]; rfl⟩
    · obtain ⟨a, rfl, hs⟩ := hread hsec
      obtain ⟨rfl, rfl⟩ := emits_ofExcept.mp hret
      exact ⟨a, rfl, by rw [← hs]; rfl⟩

/-- Whichever interface is used, one call is made, and it carries the request. -/
theorem emits_sendOut {req : ExecuteReq} {request : Request} {t : List HostEvent}
    {r : Except Fault Json.Value} (h : Emits (sendOut req request) t r) :
    ∃ e o, e.op.outbound = some request ∧ t = [e] ∧ r = .ok (outcomeJson o) := by
  unfold sendOut at h
  split at h
  · rw [callPlaceholders, emits_perform_bind] at h
    obtain ⟨x, t', rfl, h⟩ := h
    rcases x with e | resp
    · obtain ⟨rfl, rfl⟩ := emits_pure.mp h
      exact ⟨_, _, rfl, rfl, rfl⟩
    · obtain ⟨rfl, rfl⟩ := emits_pure.mp h
      exact ⟨_, _, rfl, rfl, rfl⟩
  · rw [callHttp, emits_perform_bind] at h
    obtain ⟨x, t', rfl, h⟩ := h
    obtain ⟨rfl, rfl⟩ := emits_pure.mp h
    exact ⟨_, _, rfl, rfl, rfl⟩

theorem emits_writeDispatchRecord {tidHex k value : String} {t : List HostEvent}
    {r : Except Fault (Except String Unit)} (h : Emits (writeDispatchRecord tidHex k value) t r) :
    Recorded tidHex value (some k) t ∧ ∃ x, r = .ok x := by
  rw [writeDispatchRecord, kvPut, emits_perform_bind] at h
  obtain ⟨x, t', rfl, h⟩ := h
  rcases x with e | ⟨⟩
  · obtain ⟨rfl, rfl⟩ := emits_pure.mp h
    exact ⟨⟨_, rfl⟩, _, rfl⟩
  · obtain ⟨rfl, rfl⟩ := emits_pure.mp h
    exact ⟨⟨_, rfl⟩, _, rfl⟩

/-- The dispatch branch either fails on the credential, before any call, or makes its one
call and then records the outcome. -/
theorem emits_dispatch {C : Crates} {req : ExecuteReq} {tidHex : String} {mandate : Mandate}
    {idemKey : Option String} {out : ExecuteOut} {t : List HostEvent}
    {r : Except Fault ExecuteOut} (hout : out.idempotencyKey = none)
    (h : Emits (dispatch C req tidHex mandate idemKey out) t r) :
    (∃ f, Emits (outboundHeaders tidHex mandate) t (.error f) ∧ r = .error f) ∨
    (∃ t₁ headers e o t₂, Emits (outboundHeaders tidHex mandate) t₁ (.ok headers) ∧
      e.op.outbound = some (outboundRequest req headers) ∧
      Recorded tidHex (C.valueToString (outcomeJson o)) idemKey t₂ ∧ t = t₁ ++ e :: t₂ ∧
      r = .ok (sentOut req out (outcomeJson o) idemKey)) := by
  unfold dispatch at h
  rw [emits_bind] at h
  rcases h with ⟨f, hheaders, rfl⟩ | ⟨headers, t₁, t', rfl, hheaders, h⟩
  · exact .inl ⟨f, hheaders, rfl⟩
  refine .inr ?_
  rw [emits_bind] at h
  rcases h with ⟨f, hsend, -⟩ | ⟨response, t₂, t₃, rfl, hsend, h⟩
  · obtain ⟨e, o, -, -, hr⟩ := emits_sendOut hsend
    cases hr
  obtain ⟨e, o, he, rfl, hr⟩ := emits_sendOut hsend
  cases hr
  cases idemKey with
  | none =>
    obtain ⟨rfl, rfl⟩ := emits_pure.mp h
    refine ⟨t₁, headers, e, o, [], hheaders, he, rfl, rfl, ?_⟩
    rw [sentOut, ← hout]
  | some k =>
    rw [emits_bind] at h
    rcases h with ⟨f, hwrite, -⟩ | ⟨x, t₄, t₅, rfl, hwrite, h⟩
    · obtain ⟨-, x, hx⟩ := emits_writeDispatchRecord hwrite
      cases hx
    obtain ⟨rfl, rfl⟩ := emits_pure.mp h
    refine ⟨t₁, headers, e, o, t₄, hheaders, he, (emits_writeDispatchRecord hwrite).1, ?_, rfl⟩
    simp

/-! ## The ways an invocation ends -/

/-- The runs that make the call, and record it when there is a key. -/
inductive Dispatched (C : Crates) (req : ExecuteReq) :
    List HostEvent → Except Fault ExecuteOut → Prop where
  | intro {tid nowSecs a mandate v t₁ t₂ headers e o t₃ l} :
      Judged C req nowSecs a mandate v → v.approved = true →
      NoRecord (hexEncode tid) v.idemKey t₁ →
      Emits (outboundHeaders (hexEncode tid) mandate) t₂ (.ok headers) →
      e.op.outbound = some (outboundRequest req headers) →
      Recorded (hexEncode tid) (C.valueToString (outcomeJson o)) v.idemKey t₃ → Logs l →
      Dispatched C req (opening tid nowSecs a ++ (t₁ ++ (t₂ ++ e :: (t₃ ++ l))))
        (.ok (sentOut req (baseOut C req (hexEncode tid) nowSecs v) (outcomeJson o) v.idemKey))

/-- Every complete run of `execute_action`: its calls with their answers, and its result. -/
inductive Execution (C : Crates) (req : ExecuteReq) :
    List HostEvent → Except Fault ExecuteOut → Prop where
  /-- There is no mandate to read. -/
  | unreadable {tid nowSecs a f} : mandateOf C a = .error f →
      Execution C req (opening tid nowSecs a) (.error f)
  /-- The binding check panics. -/
  | trapped {tid nowSecs a mandate f} : mandateOf C a = .ok mandate →
      assess C req mandate nowSecs = .error f →
      Execution C req (opening tid nowSecs a) (.error f)
  /-- Some check fails. -/
  | rejected {tid nowSecs a mandate v l} : Judged C req nowSecs a mandate v →
      v.approved = false → Logs l →
      Execution C req (opening tid nowSecs a ++ l) (.ok (baseOut C req (hexEncode tid) nowSecs v))
  /-- The key has a record. -/
  | replayed {tid nowSecs a mandate v k b p l} : Judged C req nowSecs a mandate v →
      v.approved = true → v.idemKey = some k → recordOf b = some p → Logs l →
      Execution C req (opening tid nowSecs a ++ lookupEvent (hexEncode tid) k b :: l)
        (.ok (replayOut C (baseOut C req (hexEncode tid) nowSecs v) k p))
  /-- The credential the mandate names cannot be had. -/
  | unauthenticated {tid nowSecs a mandate v t₁ t₂ f} : Judged C req nowSecs a mandate v →
      v.approved = true → NoRecord (hexEncode tid) v.idemKey t₁ →
      Emits (outboundHeaders (hexEncode tid) mandate) t₂ (.error f) →
      Execution C req (opening tid nowSecs a ++ (t₁ ++ t₂)) (.error f)
  /-- The call is made. -/
  | dispatched {t r} : Dispatched C req t r → Execution C req t r

/-- Every run of the program is one of these. -/
theorem execution_of_emits {C : Crates} {req : ExecuteReq} {t : List HostEvent}
    {r : Except Fault ExecuteOut} (h : Emits (executeActionWasm C req) t r) :
    Execution C req t r := by
  unfold executeActionWasm at h
  rw [emits_perform_bind] at h
  obtain ⟨tid, t₁, rfl, h⟩ := h
  rw [emits_perform_bind] at h
  obtain ⟨nowSecs, t₂, rfl, h⟩ := h
  rw [emits_bind] at h
  -- a failure in what follows is the failure of the whole run
  rcases h with ⟨f, hread, rfl⟩ | ⟨mandate, t₃, t₄, rfl, hread, h⟩
  · obtain ⟨a, rfl, hf⟩ := emits_readMandate.mp hread
    exact .unreadable hf.symm
  obtain ⟨a, rfl, hm⟩ := emits_readMandate.mp hread
  rw [emits_bind] at h
  rcases h with ⟨f, hassess, rfl⟩ | ⟨v, t₅, t₆, rfl, hassess, h⟩
  · obtain ⟨rfl, hf⟩ := emits_ofExcept.mp hassess
    exact .trapped hm.symm hf.symm
  obtain ⟨rfl, hv⟩ := emits_ofExcept.mp hassess
  have hjudged : Judged C req nowSecs a mandate v := ⟨hm.symm, hv.symm⟩
  rw [emits_bind] at h
  rcases h with ⟨f, hprev, -⟩ | ⟨previous, t₇, t₈, rfl, hprev, h⟩
  · rcases emits_readPrevious hprev with ⟨-, -, hr⟩ | ⟨-, -, hr⟩ | ⟨-, k, b, l, p, -, -, -, -, hr⟩
    all_goals cases hr
  rcases emits_readPrevious hprev with
    ⟨happ, rfl, hr⟩ | ⟨happ, hnone, hr⟩ | ⟨happ, k, b, l, p, hk, hb, hl, rfl, hr⟩
  -- rejected: `dispatchIfApproved` returns what it was given
  · cases hr
    dsimp only at h
    rw [dispatchIfApproved, if_neg (by simp [happ])] at h
    rw [emits_bind] at h
    rcases h with ⟨f, hpure, -⟩ | ⟨out, t₉, t₁₀, rfl, hpure, h⟩
    · cases (emits_pure.mp hpure).2
    obtain ⟨rfl, hout⟩ := emits_pure.mp hpure
    obtain ⟨hlogs, rfl⟩ := emits_logInfo_pure h
    cases hout
    exact .rejected hjudged happ hlogs
  -- approved and not recorded: only the credential can still stop the call
  · cases hr
    dsimp only at h
    rw [dispatchIfApproved, if_pos happ] at h
    rw [emits_bind] at h
    rcases h with ⟨f, hdisp, rfl⟩ | ⟨out, t₉, t₁₀, rfl, hdisp, h⟩
    · rcases emits_dispatch rfl hdisp with ⟨f', hheaders, hf⟩ | ⟨_, _, _, _, _, _, _, _, _, hr⟩
      · cases hf
        show Execution C req (opening tid nowSecs a ++ (t₇ ++ t₈)) _
        exact .unauthenticated hjudged happ hnone hheaders
      · cases hr
    · rcases emits_dispatch rfl hdisp with ⟨_, _, hf⟩ |
        ⟨t₁₁, headers, e, o, t₁₂, hheaders, he, hrec, rfl, hr⟩
      · cases hf
      · cases hr
        obtain ⟨hlogs, rfl⟩ := emits_logInfo_pure h
        refine .dispatched ?_
        show Dispatched C req (opening tid nowSecs a ++ _) _
        simpa using Dispatched.intro hjudged happ hnone hheaders he hrec hlogs
  -- approved and recorded
  · cases hr
    obtain ⟨hlogs, rfl⟩ := emits_logInfo_pure h
    have hexec : Execution C req
        (opening tid nowSecs a ++ lookupEvent (hexEncode tid) k b :: (l ++ t₈)) _ :=
      .replayed hjudged happ hk hb (hl.append hlogs)
    simpa [opening] using hexec

/-! ## No call is repeated

An invocation goes through its calls in a fixed order and makes none of them twice, so a run
against a host that may answer one call differently at different times is also a run against
fixed answers.
-/

/-- The place of a call in an invocation of the tenant with this id. -/
def stage (tidHex : String) : HostOp → ℕ
  | .tenantDid => 0
  | .clusterTimestampSecs => 1
  | .kvGet mapName _ =>
    if mapName = mandateMap tidHex then 2 else if mapName = dispatchedMap tidHex then 3 else 5
  -- "idempotency unavailable" is logged before the call, the two closing messages after it
  | .logInfo message => if message.toList.head? = some 'i' then 4 else 8
  | .httpCall _ => 6
  | .hwpCall _ => 6
  | .kvPut _ _ _ => 7

/-- The first character of a log message, which tells the three messages' stages apart. -/
theorem headChar_append {a b : String} {c : Char} (h : a.toList.head? = some c) :
    (a ++ b).toList.head? = some c := by
  rw [String.toList_append, List.head?_append, h]
  rfl

theorem stage_unavailable (tidHex e : String) :
    stage tidHex (.logInfo s!"idempotency unavailable: {e}") = 4 := by
  have hhead : s!"idempotency unavailable: {e}".toList.head? = some 'i' :=
    headChar_append (by decide)
  rw [stage, if_pos hhead]

theorem stage_dispatched (tidHex : String) (key : Bytes) :
    stage tidHex (.kvGet (dispatchedMap tidHex) key) = 3 := by
  rw [stage, if_neg (mandateMap_ne_dispatchedMap tidHex).symm, if_pos rfl]

theorem stage_secrets (tidHex : String) (key : Bytes) :
    stage tidHex (.kvGet (secretsMap tidHex) key) = 5 := by
  rw [stage, if_neg (mandateMap_ne_secretsMap tidHex).symm,
    if_neg (secretsMap_ne_dispatchedMap tidHex)]

theorem rising_readMandate (C : Crates) (tidHex : String) :
    Rising (stage tidHex) 3 2 (readMandate C tidHex) := by
  have hstage : stage tidHex (.kvGet (mandateMap tidHex) (utf8 "default")) = 2 := if_pos rfl
  exact rising_bind (rising_perform _ hstage.ge (hstage.trans_lt (by decide)))
    (fun _ => rising_ofExcept _ le_rfl) le_rfl

theorem rising_readPrevious (tidHex : String) (v : Verdict) :
    Rising (stage tidHex) 5 3 (readPrevious tidHex v) := by
  have hrecord : ∀ k, Rising (stage tidHex) 5 3 (readDispatchRecord tidHex k) := by
    intro k
    have hstage := stage_dispatched tidHex (utf8 k)
    unfold readDispatchRecord
    refine rising_bind (rising_perform _ hstage.ge (hstage.trans_lt (by decide : 3 < 4)))
      (fun a => ?_) (by decide)
    rcases a with e | _ | bytes
    · have hlog := stage_unavailable tidHex e
      exact rising_bind (rising_perform _ hlog.ge (hlog.trans_lt (by decide)))
        (fun _ => rising_pure _ le_rfl) le_rfl
    · exact rising_pure _ (by decide)
    · exact rising_pure _ (by decide)
  unfold readPrevious
  split
  · exact rising_bind (hrecord _) (fun _ => rising_pure _ le_rfl) le_rfl
  · exact rising_pure _ (by decide)

theorem rising_outboundHeaders (tidHex : String) (mandate : Mandate) :
    Rising (stage tidHex) 6 5 (outboundHeaders tidHex mandate) := by
  unfold outboundHeaders
  split_ifs
  · exact rising_ofExcept _ (by decide)
  · unfold readSecret
    have hstage := stage_secrets tidHex (utf8 mandate.credentialKey)
    have hread : Rising (stage tidHex) 6 5
        (kvGet (secretsMap tidHex) (utf8 mandate.credentialKey)) :=
      rising_perform _ hstage.ge (hstage.trans_lt (by decide))
    exact rising_bind (rising_bind hread (fun _ => rising_ofExcept _ le_rfl) le_rfl)
      (fun _ => rising_ofExcept _ le_rfl) le_rfl

theorem rising_sendOut (tidHex : String) (req : ExecuteReq) (request : Request) :
    Rising (stage tidHex) 7 6 (sendOut req request) := by
  unfold sendOut
  split_ifs
  · refine rising_bind (rising_perform _ (le_refl 6) (Nat.lt_succ_self 6)) (fun a => ?_) le_rfl
    rcases a with e | resp
    · exact rising_pure _ le_rfl
    · exact rising_pure _ le_rfl
  · exact rising_bind (rising_perform _ (le_refl 6) (Nat.lt_succ_self 6))
      (fun _ => rising_pure _ le_rfl) le_rfl

theorem rising_dispatch (C : Crates) (req : ExecuteReq) (tidHex : String) (mandate : Mandate)
    (idemKey : Option String) (out : ExecuteOut) :
    Rising (stage tidHex) 8 5 (dispatch C req tidHex mandate idemKey out) := by
  refine rising_bind (rising_outboundHeaders tidHex mandate) (fun headers => ?_) (by decide)
  refine rising_bind (rising_sendOut tidHex req _) (fun response => ?_) (by decide)
  cases idemKey with
  | none => exact rising_pure _ (by decide)
  | some k =>
    refine rising_bind ?_ (fun _ => rising_pure _ le_rfl) le_rfl
    refine rising_bind (rising_perform _ (le_refl 7) (Nat.lt_succ_self 7)) (fun a => ?_) le_rfl
    rcases a with e | ⟨⟩
    · exact rising_pure _ le_rfl
    · exact rising_pure _ le_rfl

/-- Both closing messages of an invocation start with its name. -/
theorem rising_closing (tidHex : String) {message : String}
    (h : message.toList.head? = some 'e') : Rising (stage tidHex) 9 8 (logInfo message) := by
  have hstage : stage tidHex (.logInfo message) = 8 := by
    rw [stage, h]
    rfl
  exact rising_perform _ (by omega) (by omega)

theorem rising_dispatchIfApproved (C : Crates) (req : ExecuteReq) (tidHex : String)
    (mandate : Mandate) (v : Verdict) (out : ExecuteOut) :
    Rising (stage tidHex) 8 5 (dispatchIfApproved C req tidHex mandate v out) := by
  unfold dispatchIfApproved
  split_ifs
  · exact rising_dispatch C req tidHex mandate v.idemKey out
  · exact rising_pure _ (by decide)

/-- An invocation makes its calls in the order of their stages. -/
theorem stages_rise {C : Crates} {req : ExecuteReq} {t : List HostEvent}
    {r : Except Fault ExecuteOut} (h : Emits (executeActionWasm C req) t r) :
    ∃ tidHex, t.Pairwise fun e e' => stage tidHex e.op < stage tidHex e'.op := by
  unfold executeActionWasm at h
  rw [emits_perform_bind] at h
  obtain ⟨tid, t', rfl, h⟩ := h
  -- the stages are those of the tenant that the first call names
  obtain ⟨hpairs, hstages⟩ :
      t'.Pairwise (fun e e' => stage (hexEncode tid) e.op < stage (hexEncode tid) e'.op) ∧
        ∀ e ∈ t', 1 ≤ stage (hexEncode tid) e.op := by
    refine Rising.pairwise (?_ : Rising _ 9 1 _) h
    refine rising_bind (rising_perform _ (le_refl 1) (Nat.lt_succ_self 1)) (fun nowSecs => ?_)
      (by decide)
    refine rising_bind (rising_readMandate C _) (fun mandate => ?_) (by decide)
    refine rising_bind (rising_ofExcept _ le_rfl) (fun v => ?_) (by decide)
    refine rising_bind (rising_readPrevious _ v) (fun previous => ?_) (by decide)
    rcases previous with _ | ⟨k, prev⟩
    · refine rising_bind (rising_dispatchIfApproved C req _ mandate v _) (fun out => ?_) (by decide)
      refine rising_bind (rising_closing _ ?_) (fun _ => rising_pure _ le_rfl) le_rfl
      exact headChar_append (headChar_append (headChar_append (headChar_append (by decide))))
    · refine rising_bind ((rising_closing _ ?_).mono (by decide)) (fun _ => ?_) le_rfl
      · exact headChar_append (by decide)
      · exact rising_pure _ le_rfl
  exact ⟨hexEncode tid, List.pairwise_cons.mpr ⟨fun e he => hstages e he, hpairs⟩⟩

/-- Fixed answers lose nothing: every complete run is the run against some of them. -/
theorem exists_answers_of_emits {C : Crates} {req : ExecuteReq} {t : List HostEvent}
    {r : Except Fault ExecuteOut} (h : Emits (executeActionWasm C req) t r) :
    ∃ answer : Answers, run answer (executeActionWasm C req) = (t, r) := by
  obtain ⟨tidHex, hrising⟩ := stages_rise h
  refine exists_run_of_pairwise anyAnswer h (hrising.imp ?_)
  intro e e' hlt heq
  rw [heq] at hlt
  exact Nat.lt_irrefl _ hlt

end Gatekeeper.Gate
