import Gatekeeper.Agent.EnclaveProof

/-!
# What a passed proof shows

`prove-enclave.mjs` ends with no failed check. The checks judge only what the calls returned; what
the enclave did is read off the answers that `execute_action` gives.
-/

namespace Gatekeeper.Agent

open Encoding Interaction Js Gate

/-! ## What the enclave tells of a call -/

/-- What is told of an outbound call that was answered. -/
def toldOf : HostEvent → Option Json.Value
  | ⟨.httpCall _, x⟩ => some (outcomeJson x)
  | ⟨.hwpCall _, .ok resp⟩ => some (outcomeJson (.ok resp))
  | ⟨.hwpCall _, .error e⟩ => some (outcomeJson (.error (describeHwpError e)))
  | _ => none

/-- The interface that the body of a request asks for. -/
def sendOp (req : ExecuteReq) (request : Request) : HostOp :=
  if needsPlaceholders req.body then .hwpCall request else .httpCall request

theorem outbound_sendOp (req : ExecuteReq) (request : Request) :
    (sendOp req request).outbound = some request := by
  rw [sendOp]
  split_ifs
  · rfl
  · rfl

theorem told_of_sendOut {req : ExecuteReq} {request : Request} {t : List HostEvent}
    {r : Except Fault Json.Value} (h : Emits (sendOut req request) t r) :
    ∃ e v, e.op = sendOp req request ∧ t = [e] ∧ toldOf e = some v ∧ r = .ok v := by
  rw [sendOut] at h
  rw [sendOp]
  split_ifs at h ⊢
  · rw [callPlaceholders, emits_perform_bind] at h
    obtain ⟨x, t', rfl, h⟩ := h
    cases x with
    | error e =>
      obtain ⟨rfl, rfl⟩ := emits_pure.mp h
      exact ⟨_, _, rfl, rfl, rfl, rfl⟩
    | ok resp =>
      obtain ⟨rfl, rfl⟩ := emits_pure.mp h
      exact ⟨_, _, rfl, rfl, rfl, rfl⟩
  · rw [callHttp, emits_perform_bind] at h
    obtain ⟨x, t', rfl, h⟩ := h
    obtain ⟨rfl, rfl⟩ := emits_pure.mp h
    exact ⟨_, _, rfl, rfl, rfl, rfl⟩

/-- A call of the run carries the request, and its answer is what the run tells. -/
def Told (req : ExecuteReq) (t : List HostEvent) (out : ExecuteOut) : Prop :=
  ∃ headers, ∃ e ∈ t, e.op = sendOp req (outboundRequest req headers) ∧ toldOf e = out.response

theorem Told.mono {req : ExecuteReq} {t u : List HostEvent} {out : ExecuteOut}
    (h : Told req t out) (hsub : t ⊆ u) : Told req u out := by
  obtain ⟨headers, e, he, hop, htold⟩ := h
  exact ⟨headers, e, hsub he, hop, htold⟩

theorem told_of_dispatch {C : Crates} {req : ExecuteReq} {tidHex : String}
    {mandate : Mandate} {idemKey : Option String} {out out' : ExecuteOut} {t : List HostEvent}
    (h : Emits (dispatch C req tidHex mandate idemKey out) t (.ok out')) : Told req t out' := by
  rw [dispatch] at h
  rcases emits_bind.mp h with ⟨f, -, hf⟩ | ⟨headers, t₁, t₂, rfl, -, hcall⟩
  · cases hf
  rcases emits_bind.mp hcall with ⟨f, hsend, hf⟩ | ⟨v, t₃, t₄, rfl, hsend, hrecord⟩
  · cases hf
  obtain ⟨e, v', hop, rfl, htold, hv⟩ := told_of_sendOut hsend
  cases hv
  refine ⟨headers, e, by simp, hop, htold.trans ?_⟩
  cases idemKey with
  | none =>
    obtain ⟨-, hr⟩ := emits_pure.mp hrecord
    cases hr
    rfl
  | some k =>
    rcases emits_bind.mp hrecord with ⟨f, -, hf⟩ | ⟨x, t₅, t₆, -, -, hdone⟩
    · cases hf
    obtain ⟨-, hr⟩ := emits_pure.mp hdone
    cases hr
    rfl

/-- What a run tells of a dispatch was answered so. -/
theorem told_of_emits {C : Crates} {req : ExecuteReq} {t : List HostEvent} {out : ExecuteOut}
    (h : Emits (executeActionWasm C req) t (.ok out)) (hout : out.dispatched = true) :
    Told req t out := by
  rw [executeActionWasm] at h
  obtain ⟨tid, t₁, rfl, hclock⟩ := emits_perform_bind.mp h
  obtain ⟨nowSecs, t₂, rfl, hread⟩ := emits_perform_bind.mp hclock
  rcases emits_bind.mp hread with ⟨f, -, hf⟩ | ⟨mandate, t₃, t₄, rfl, -, hassess⟩
  · cases hf
  rcases emits_ofExcept_bind.mp hassess with ⟨f, -, -, hf⟩ | ⟨v, -, hlookup⟩
  · cases hf
  rcases emits_bind.mp hlookup with ⟨f, -, hf⟩ | ⟨previous, t₅, t₆, rfl, -, hrest⟩
  · cases hf
  rcases previous with _ | ⟨k, prev⟩
  · rcases emits_bind.mp hrest with ⟨f, -, hf⟩ | ⟨out', t₇, t₈, rfl, hdispatch, hlog⟩
    · cases hf
    rcases emits_bind.mp hlog with ⟨f, -, hf⟩ | ⟨x, t₉, t₁₀, -, -, hdone⟩
    · cases hf
    obtain ⟨-, hr⟩ := emits_pure.mp hdone
    cases hr
    rw [dispatchIfApproved] at hdispatch
    split_ifs at hdispatch
    · refine (told_of_dispatch hdispatch).mono fun e he => ?_
      simp [he]
    · obtain ⟨-, hr⟩ := emits_pure.mp hdispatch
      cases hr
      cases hout
  -- a replay is not a dispatch
  · rcases emits_bind.mp hrest with ⟨f, -, hf⟩ | ⟨x, t₇, t₈, -, -, hdone⟩
    · cases hf
    obtain ⟨-, hr⟩ := emits_pure.mp hdone
    cases hr
    cases hout

/-- One call leaves, through this interface, with what the order names. -/
structure CalledOnce (send : Request → HostOp) (req : ExecuteReq) (t : List HostEvent)
    (e : HostEvent) : Prop where
  mem : e ∈ t
  sent : ∃ headers, e.op = send (outboundRequest req headers) ∧
    outboundCalls t = [outboundRequest req headers]

theorem exists_calledOnce {C : Crates} {req : ExecuteReq} {t : List HostEvent} {out : ExecuteOut}
    (h : Emits (executeActionWasm C req) t (.ok out)) (hout : out.dispatched = true) :
    ∃ e, CalledOnce (sendOp req) req t e ∧ toldOf e = out.response := by
  obtain ⟨headers, e, he, hop, htold⟩ := told_of_emits h hout
  have hmem : outboundRequest req headers ∈ outboundCalls t :=
    List.mem_filterMap.mpr ⟨e, he, by rw [hop, outbound_sendOp]⟩
  refine ⟨e, ⟨he, headers, hop, ?_⟩, htold⟩
  obtain ⟨headers', hcalls⟩ := (dispatched_of_emits h (List.ne_nil_of_mem hmem)).one_call
  rw [hcalls] at hmem ⊢
  rw [List.mem_singleton.mp hmem]

/-- What a run tells of a replay is the record that it read under the key. -/
theorem replayed_of_emits {C : Crates} {req : ExecuteReq} {t : List HostEvent} {out : ExecuteOut}
    (h : Emits (executeActionWasm C req) t (.ok out)) (hout : out.replayed = some true) :
    outboundCalls t = [] ∧ ∃ tidHex k b p, trimmedKey req.idempotencyKey = some k ∧
      lookupEvent tidHex k b ∈ t ∧ recordOf b = some p ∧
      out.response = some ((C.valueFromStr p).getD (.string p)) := by
  have hexecution := execution_of_emits h
  generalize hr : (Except.ok out : Except Fault ExecuteOut) = r at hexecution
  cases hexecution with
  | unreadable hread => cases hr
  | trapped hread htrap => cases hr
  | rejected hj happ hl =>
    cases hr
    cases hout
  | @replayed tid nowSecs a mandate v k b p l hj happ hk hb hl =>
    cases hr
    have hsilent := mt (execution_of_emits h).dispatched_iff.mpr Bool.false_ne_true
    refine ⟨not_not.mp hsilent, hexEncode tid, k, b, p, ?_, by simp, hb, rfl⟩
    rw [← assess_idemKey hj.verdict happ, hk]
  | unauthenticated hj happ hnone hemits => cases hr
  | dispatched hdispatched =>
    cases hdispatched
    cases hr
    cases hout

/-! ## What the checks ask of an answer -/

/-- The call came back with status 200. -/
def AnsweredOk (e : HostEvent) : Prop :=
  ∃ request resp, resp.code.toUInt64 = 200 ∧
    (e = ⟨.httpCall request, .ok resp⟩ ∨ e = ⟨.hwpCall request, .ok resp⟩)

/-- The host refused to fill in what the body names. -/
def RefusedByHost (e : HostEvent) : Prop :=
  ∃ request error, e = ⟨.hwpCall request, .error error⟩ ∧
    (Text.contains (describeHwpError error) "placeholder_unknown" = true ∨
      Text.contains (describeHwpError error) "placeholder_denied" = true)

theorem code_of_hasCode {code : UInt64} {x : Except String Gate.Response}
    (h : hasCode code (some (outcomeJson x)) = true) :
    ∃ resp, x = .ok resp ∧ resp.code.toUInt64 = code := by
  cases x with
  | error e => cases h
  | ok resp =>
    refine ⟨resp, rfl, ?_⟩
    simpa [hasCode, member, outcomeJson, List.lookup_cons] using h

theorem answeredOk_of_told {e : HostEvent} {response : Option Json.Value}
    (h : toldOf e = response) (hcode : hasCode 200 response = true) : AnsweredOk e := by
  subst h
  obtain ⟨op, x⟩ := e
  cases op with
  | httpCall request =>
    obtain ⟨resp, rfl, hresp⟩ := code_of_hasCode hcode
    exact ⟨request, resp, hresp, .inl rfl⟩
  | hwpCall request =>
    cases x with
    | ok answer =>
      obtain ⟨resp, hok, hresp⟩ := code_of_hasCode hcode
      cases hok
      exact ⟨request, answer, hresp, .inr rfl⟩
    | error e =>
      obtain ⟨resp, hok, -⟩ := code_of_hasCode hcode
      cases hok
  | _ => cases hcode

theorem refusedByHost_of_told {request : Request} {e : HostEvent} {response : Option Json.Value}
    (hop : e.op = .hwpCall request) (h : toldOf e = response)
    (herror : hasPlaceholderError response = true) : RefusedByHost e := by
  subst h
  obtain ⟨op, x⟩ := e
  obtain rfl : op = _ := hop
  cases x with
  | ok resp => cases herror
  | error e =>
    refine ⟨request, e, rfl, ?_⟩
    simpa [hasPlaceholderError, toldOf, member, outcomeJson, List.lookup_cons] using herror

/-! ## A run without a failed check -/

theorem tally_eq_zero {failed : ℕ} {pass : Bool} :
    tally failed pass = 0 ↔ failed = 0 ∧ pass = true := by
  cases pass <;> simp [tally]

/-- A call that throws is counted, so each one came back. -/
theorem emits_check {op : ControlOp} {α : Type} {failed : ℕ} {g : op.Res → Except Thrown α}
    {f : α → Checking ℕ} {t : List ControlEvent} {r : Except ℕ ℕ}
    (h : Emits (Prog.perform op >>= fun answer => orFailed failed (g answer) >>= f) t r)
    (hne : ∀ n, r ≠ .error (n + 1)) :
    ∃ x v t', g x = .ok v ∧ t = ⟨op, x⟩ :: t' ∧ Emits (f v) t' r := by
  obtain ⟨x, t', rfl, hrest⟩ := emits_perform_bind.mp h
  rw [orFailed] at hrest
  rcases emits_ofExcept_bind.mp hrest with ⟨n, hn, -, hr⟩ | ⟨v, hv, hnext⟩
  · cases hx : g x with
    | ok v =>
      rw [hx] at hn
      cases hn
    | error e =>
      rw [hx] at hn
      cases hn
      exact absurd hr (hne failed)
  · cases hx : g x with
    | error e =>
      rw [hx] at hv
      cases hv
    | ok v₀ =>
      rw [hx] at hv
      obtain rfl : v₀ = v := Except.ok.inj hv
      exact ⟨x, v₀, t', hx, rfl, hnext⟩

/-- The answers of a run whose checks all passed. -/
structure Passed (bare : Json.Value) (authed sent unknown first retry : ExecuteOut) : Prop where
  refused : refused bare = true
  accepted : accepted authed = true
  substituted : substituted sent = true
  unsubstituted : unsubstituted unknown = true
  dispatchedFirst : dispatchedFirst first = true
  replayedOnly : replayedOnly retry = true
  sameOutcome : sameOutcome first retry = true

/-- The calls of the checks, all answered. -/
def checksAnswered (run : ProofRun) (bare : Json.Value)
    (authed sent unknown first retry : ExecuteOut) : List ControlEvent :=
  [⟨.dispatchAction ⟨bearerUrl, "GET", ""⟩, .ok bare⟩,
    ⟨.executeAction (run.order 0 (run.keys 0) bearerUrl "GET" ""), .ok authed⟩,
    ⟨.executeAction (run.order 1 (run.keys 1) echoUrl "POST" profileBody), .ok sent⟩,
    ⟨.executeAction (run.order 2 (run.keys 2) echoUrl "POST" unknownBody), .ok unknown⟩,
    ⟨.executeAction (run.order 3 (run.keys 3) echoUrl "POST" actionText), .ok first⟩,
    ⟨.executeAction (run.order 4 (run.keys 3) echoUrl "POST" actionText), .ok retry⟩]

theorem passed_of_emits {run : ProofRun} {t : List ControlEvent}
    (h : Emits (endTry (proofChecks run)) t (.ok 0)) :
    ∃ bare authed sent unknown first retry,
      t = checksAnswered run bare authed sent unknown first retry ∧
      Passed bare authed sent unknown first retry := by
  obtain ⟨failed, hfailed, hchecks⟩ := emits_endTry.mp h
  cases hfailed
  obtain ⟨r, hr, hemits⟩ : ∃ r : Except ℕ ℕ, (r = .ok 0 ∨ r = .error 0) ∧
      Emits (proofChecks run) t r := by
    rcases hchecks with hok | herror
    · exact ⟨_, .inl rfl, hok⟩
    · exact ⟨_, .inr rfl, herror⟩
  have hne : ∀ n, r ≠ .error (n + 1) := by
    rintro n rfl
    rcases hr with hr | hr
    · cases hr
    · cases hr
  rw [proofChecks] at hemits
  obtain ⟨x₁, bare, t₁, hbare, rfl, h₁⟩ := emits_check hemits hne
  obtain ⟨x₂, authed, t₂, hauthed, rfl, h₂⟩ := emits_check h₁ hne
  obtain ⟨x₃, sent, t₃, hsent, rfl, h₃⟩ := emits_check h₂ hne
  obtain ⟨x₄, unknown, t₄, hunknown, rfl, h₄⟩ := emits_check h₃ hne
  obtain ⟨x₅, first, t₅, hfirst, rfl, h₅⟩ := emits_check h₄ hne
  obtain ⟨x₆, retry, t₆, hretry, rfl, h₆⟩ := emits_check h₅ hne
  obtain ⟨rfl, rfl⟩ := emits_pure.mp h₆
  refine ⟨bare, authed, sent, unknown, first, retry, ?_, ?_⟩
  · rw [checksAnswered, ← hbare, ← hauthed, ← hsent, ← hunknown, ← hfirst, ← hretry]
  · rcases hr with hr | hr
    · have hzero := Except.ok.inj hr
      simp only [tally_eq_zero, true_and] at hzero
      obtain ⟨⟨⟨⟨⟨⟨h1, h2⟩, h3⟩, h4⟩, h5⟩, h6⟩, h7⟩ := hzero
      exact ⟨h1, h2, h3, h4, h5, h6, h7⟩
    · cases hr

/-! ## What it shows -/

section Orders
variable {run : ProofRun} {n : ℕ} {key url method body : String}

theorem sendOp_marked (h : needsPlaceholders body = true) :
    sendOp (run.order n key url method body) = .hwpCall := by
  funext request
  rw [sendOp]
  exact if_pos h

theorem sendOp_plain (h : needsPlaceholders body = false) :
    sendOp (run.order n key url method body) = .httpCall := by
  funext request
  rw [sendOp]
  exact if_neg (Bool.eq_false_iff.mp h)

end Orders

/-- Only a dispatch names an interface. -/
theorem dispatched_of_viaPlaceholders {C : Crates} {req : ExecuteReq} {t : List HostEvent}
    {out : ExecuteOut} (h : Emits (executeActionWasm C req) t (.ok out))
    (hvia : viaPlaceholders out = true) : out.dispatched = true := by
  have hexecution := execution_of_emits h
  generalize hr : (Except.ok out : Except Fault ExecuteOut) = r at hexecution
  cases hexecution with
  | unreadable hread => cases hr
  | trapped hread htrap => cases hr
  | unauthenticated hj happ hnone hemits => cases hr
  | rejected hj happ hl =>
    cases hr
    cases hvia
  | replayed hj happ hk hb hl =>
    cases hr
    cases hvia
  | dispatched hdispatched =>
    cases hdispatched
    cases hr
    rfl

theorem plain_empty : needsPlaceholders "" = false := by decide

theorem marked_profileBody : needsPlaceholders profileBody = true := by decide

theorem marked_unknownBody : needsPlaceholders unknownBody = true := by decide

theorem plain_actionText : needsPlaceholders actionText = false := by decide

/-- What the answers of a passed run show of an enclave that gave them. -/
structure ShownBy (C : Crates) (run : ProofRun) (authed sent unknown first retry : ExecuteOut) :
    Prop where
  /-- The order was called out once and accepted, with the sealed secret. -/
  credential : ∀ u,
    Emits (executeActionWasm C (run.order 0 (run.keys 0) bearerUrl "GET" "")) u (.ok authed) →
    ∃ e, CalledOnce .httpCall (run.order 0 (run.keys 0) bearerUrl "GET" "") u e ∧ AnsweredOk e ∧
      ∀ m, jsonMandate (proofMandate run.imported).toJson = some m →
        C.mandateFromSlice (utf8 (proofMandate run.imported).json) = .ok m →
        ReadsMandate (proofMandate run.imported).json u → ReadsSecret run.secret u →
        ∀ request ∈ outboundCalls u,
          request.headers = some [("Authorization", s!"Bearer {run.secret}")]
  /-- The host took the body with its marker, and it was delivered. -/
  substituted : ∀ u,
    Emits (executeActionWasm C (run.order 1 (run.keys 1) echoUrl "POST" profileBody)) u
      (.ok sent) →
    ∃ e, CalledOnce .hwpCall (run.order 1 (run.keys 1) echoUrl "POST" profileBody) u e ∧
      AnsweredOk e
  /-- The host took the body with a marker it does not know, and refused it. -/
  unsubstituted : ∀ u,
    Emits (executeActionWasm C (run.order 2 (run.keys 2) echoUrl "POST" unknownBody)) u
      (.ok unknown) →
    ∃ e, CalledOnce .hwpCall (run.order 2 (run.keys 2) echoUrl "POST" unknownBody) u e ∧
      RefusedByHost e
  /-- The second order under the key is not called out; it read a record under the key that tells
  of the first one's call. -/
  replayed : ∀ u u',
    Emits (executeActionWasm C (run.order 3 (run.keys 3) echoUrl "POST" actionText)) u
      (.ok first) →
    Emits (executeActionWasm C (run.order 4 (run.keys 3) echoUrl "POST" actionText)) u'
      (.ok retry) →
    ∃ e, CalledOnce .httpCall (run.order 3 (run.keys 3) echoUrl "POST" actionText) u e ∧
      AnsweredOk e ∧ outboundCalls u' = [] ∧
      ∃ tidHex k b p, trimmedKey (some (run.keys 3)) = some k ∧ lookupEvent tidHex k b ∈ u' ∧
        recordOf b = some p ∧
        (toldOf e).map Json.print = some (Json.print ((C.valueFromStr p).getD (.string p)))

theorem shownBy_of_passed {C : Crates} {run : ProofRun} {bare : Json.Value}
    {authed sent unknown first retry : ExecuteOut}
    (h : Passed bare authed sent unknown first retry) :
    ShownBy C run authed sent unknown first retry where
  credential u hemits := by
    have hpassed := h.accepted
    simp only [accepted, Bool.and_eq_true] at hpassed
    obtain ⟨e, hcalled, htold⟩ := exists_calledOnce hemits hpassed.1.2
    rw [sendOp_plain plain_empty] at hcalled
    refine ⟨e, hcalled, answeredOk_of_told htold hpassed.2, ?_⟩
    intro m hm hparse hmandate hsecret request hmem
    obtain rfl : namingMandate (trustedIssuers run.imported) credentialKey = m :=
      Option.some.inj ((jsonMandate_mandateNaming _ _).symm.trans hm)
    exact headers_of_dispatched (dispatched_of_emits hemits (List.ne_nil_of_mem hmem)) hparse
      (.inr rfl) hmandate hsecret hmem
  substituted u hemits := by
    have hpassed := h.substituted
    simp only [substituted, Bool.and_eq_true] at hpassed
    obtain ⟨e, hcalled, htold⟩ :=
      exists_calledOnce hemits (dispatched_of_viaPlaceholders hemits hpassed.1.1)
    rw [sendOp_marked marked_profileBody] at hcalled
    exact ⟨e, hcalled, answeredOk_of_told htold hpassed.2⟩
  unsubstituted u hemits := by
    have hpassed := h.unsubstituted
    simp only [unsubstituted, Bool.and_eq_true] at hpassed
    obtain ⟨e, hcalled, htold⟩ :=
      exists_calledOnce hemits (dispatched_of_viaPlaceholders hemits hpassed.1.1)
    rw [sendOp_marked marked_unknownBody] at hcalled
    obtain ⟨headers, hop, -⟩ := hcalled.sent
    exact ⟨e, hcalled, refusedByHost_of_told hop htold hpassed.2⟩
  replayed u u' hfirst hretry := by
    have hdispatched := h.dispatchedFirst
    have hreplayed := h.replayedOnly
    have hsame := h.sameOutcome
    simp only [dispatchedFirst, Bool.and_eq_true] at hdispatched
    simp only [replayedOnly, Bool.and_eq_true, beq_iff_eq] at hreplayed
    rw [sameOutcome, beq_iff_eq] at hsame
    obtain ⟨e, hcalled, htold⟩ := exists_calledOnce hfirst hdispatched.1.1
    rw [sendOp_plain plain_actionText] at hcalled
    obtain ⟨hsilent, tidHex, k, b, p, hk, hlookup, hb, hresponse⟩ :=
      replayed_of_emits hretry hreplayed.2
    refine ⟨e, hcalled, answeredOk_of_told htold hdispatched.2, hsilent, tidHex, k, b, p, hk,
      hlookup, hb, ?_⟩
    rw [htold, ← hsame, hresponse]
    rfl

/-- A run that ends with no failed check made all its calls and restored the mandate; and an
enclave that gave these answers called out what the checks say, with the answers they say. -/
theorem passed_proof_shows {run : ProofRun} {t : List ControlEvent}
    (h : Emits (proveEnclave run) t (.ok 0)) :
    ∃ bare authed sent unknown first retry,
      t = proofOpened run ++ egressGranted (.ok ()) ::
        (checksAnswered run bare authed sent unknown first retry ++ [restores run (.ok ())]) ∧
      refused bare = true ∧ ∀ C, ShownBy C run authed sent unknown first retry := by
  rcases emits_proveEnclave h with ⟨⟨e, he⟩, -⟩ | ⟨e, he, -⟩ | ⟨t', failed, x, rfl, hchecks, hr⟩
  · cases he
  · cases he
  · cases x with
    | error e => cases hr
    | ok u =>
      cases hr
      obtain ⟨bare, authed, sent, unknown, first, retry, rfl, hpassed⟩ := passed_of_emits hchecks
      exact ⟨bare, authed, sent, unknown, first, retry, rfl, hpassed.refused,
        fun C => shownBy_of_passed hpassed⟩

/-! ### An enclave that answers as the checks ask -/

/-- The answer to the order after `n` others. -/
def sampleAnswer (req : ExecuteReq) (n : ℕ) : ExecuteOut :=
  let out := baseOut sampleCrates req (hexEncode sampleTid) 0 ⟨true, [], req.idempotencyKey⟩
  match n with
  | 2 => sentOut req out
      (outcomeJson (.error (describeHwpError (.placeholderUnknown "no_such_field_xyz"))))
      req.idempotencyKey
  | 4 => replayOut sampleCrates out (req.idempotencyKey.getD "")
      (Json.print (outcomeJson (.ok ⟨200, []⟩)))
  | _ => sentOut req out (outcomeJson (.ok ⟨200, []⟩)) req.idempotencyKey

def sampleEnclave : (op : ControlOp) → ℕ → op.Res × ℕ
  | .dispatchAction _, n => (.ok (outcomeJson (.ok ⟨401, []⟩)), n)
  | .executeAction req, n => (.ok (sampleAnswer req n), n + 1)
  | .register _, n => (.ok none, n)
  | .create _ _, n => (.ok (), n)
  | .update _ _, n => (.ok (), n)
  | .entrySet _ _ _, n => (.ok (), n)
  | .openSession, n => (.ok (), n)
  | .readWasm, n => (.ok (), n)
  | .submitUserInput, n => (.ok (), n)
  | .grantEgress _, n => (.ok (), n)

theorem passed_sampleEnclave :
    (runFrom sampleEnclave (proveEnclave sampleProofRun) 0).2.1 = .ok 0 := by
  decide +kernel

theorem passed_proof_shows_sample : ∃ t bare authed sent unknown first retry,
    Emits (proveEnclave sampleProofRun) t (.ok 0) ∧ refused bare = true ∧
      ShownBy sampleCrates sampleProofRun authed sent unknown first retry := by
  have h := emits_runFrom sampleEnclave (proveEnclave sampleProofRun) 0
  rw [passed_sampleEnclave] at h
  obtain ⟨bare, authed, sent, unknown, first, retry, -, hrefused, hshown⟩ := passed_proof_shows h
  exact ⟨_, bare, authed, sent, unknown, first, retry, h, hrefused, hshown sampleCrates⟩

end Gatekeeper.Agent
