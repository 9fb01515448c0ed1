import Gatekeeper.Gate.EntryPoints
import Gatekeeper.Gate.Executions
import Gatekeeper.Gate.ExecuteTheorems
import Gatekeeper.Gate.SampleTenant
import Gatekeeper.Lib.TwoRuns

/-!
# What the agent can learn

Two runs of one request are compared. `execute_action` is put in lockstep with itself
against hosts that hold different secrets and get different payloads from upstream; the
other entry points never ask for a secret.
-/

namespace Gatekeeper.Gate

open Encoding Interaction Text Prog

/-! ## What a run shows -/

/-- A header with its value blanked when it is the credential. -/
def maskHeader (h : String × String) : String × String :=
  if h.1 = "Authorization" then (h.1, "") else h

/-- A request with its credential blanked. -/
def Request.masked (r : Request) : Request := { r with headers := r.headers.map (·.map maskHeader) }

/-- A call with the credential blanked in what it sends. -/
def HostOp.masked : HostOp → HostOp
  | httpCall request => httpCall request.masked
  | hwpCall request => hwpCall request.masked
  | op => op

def HostOp.logged : HostOp → Option String
  | logInfo message => some message
  | _ => none

/-- The lines a run logged, in order. -/
def logLines (t : List HostEvent) : List String := t.filterMap fun e => e.op.logged

@[simp] theorem HostOp.logged_masked (op : HostOp) : op.masked.logged = op.logged := by
  cases op <;> rfl

@[simp] theorem HostOp.written_masked (op : HostOp) : op.masked.written = op.written := by
  cases op <;> rfl

@[simp] theorem HostOp.outbound_masked (op : HostOp) :
    op.masked.outbound = op.outbound.map Request.masked := by
  cases op <;> rfl

/-- What is read off the blanked calls is the same for two runs whose blanked calls are. -/
theorem filterMap_of_masked {β : Type} {f g : HostOp → Option β}
    (hf : ∀ op, f op.masked = g op) {t t' : List HostEvent}
    (h : List.Forall₂ (fun e e' => e.op.masked = e'.op.masked) t t') :
    (t.filterMap fun e => g e.op) = t'.filterMap fun e => g e.op := by
  induction h with
  | nil => rfl
  | @cons e e' _ _ hop _ ih =>
    have hg : g e.op = g e'.op := by rw [← hf, ← hf, hop]
    rw [List.filterMap_cons, List.filterMap_cons, hg, ih]

/-! ## Hosts that differ in secrets and payloads -/

/-- Two responses that look the same from outside: same status and length, or same error. -/
def SameOutcome {ε : Type} : Except ε Response → Except ε Response → Prop
  | .ok r, .ok r' => r.code = r'.code ∧ r.payload.length = r'.payload.length
  | .error e, .error e' => e = e'
  | _, _ => False

/-- The answer holds a secret that can be sent. -/
def HoldsSecret (a : Except String (Option Bytes)) : Prop := ∃ v, a = .ok (some (utf8 v)) ∧ v ≠ ""

/-- The calls of the two runs are the same but for the credential they carry. Answers are
the same but for secrets and payloads; what writing and logging answer is left open. -/
def secretsLink (tid : Bytes) : Link HostOp HostOp.Res where
  calls := fun op op' => op.masked = op'.masked
  answers := fun op op' =>
    match op, op' with
    | .tenantDid, .tenantDid => fun a a' => a = tid ∧ a' = tid
    | .clusterTimestampSecs, .clusterTimestampSecs => fun a a' => a = a'
    | .kvGet m _, .kvGet _ _ => fun a a' =>
        a = a' ∨ (m = secretsMap (hexEncode tid) ∧ HoldsSecret a ∧ HoldsSecret a')
    | .httpCall _, .httpCall _ => SameOutcome
    | .hwpCall _, .hwpCall _ => SameOutcome
    | _, _ => fun _ _ => True

section Lockstep

variable {tid : Bytes}

theorem outcomeJson_congr {a a' : Except String Response} (h : SameOutcome a a') :
    outcomeJson a = outcomeJson a' := by
  rcases a with e | r
  · rcases a' with e' | r'
    · obtain rfl : e = e' := h
      rfl
    · exact h.elim
  · rcases a' with e' | r'
    · exact h.elim
    · obtain ⟨hcode, hlength⟩ := h
      simp only [outcomeJson, hcode, hlength]

/-- A map that is not the secrets map is read alike. -/
theorem lockstep_kvGet {mapName : String} (h : mapName ≠ secretsMap (hexEncode tid))
    (key : Bytes) :
    Lockstep (secretsLink tid) Eq (kvGet mapName key) (kvGet mapName key) := by
  refine .call rfl fun a a' ha => .done (.ok ?_)
  exact ha.resolve_right fun hs => h hs.1

theorem lockstep_logInfo (message : String) :
    Lockstep (secretsLink tid) (fun _ _ => True) (logInfo message) (logInfo message) :=
  .call rfl fun _ _ _ => .done (.ok trivial)

theorem lockstep_readMandate (C : Crates) :
    Lockstep (secretsLink tid) Eq (readMandate C (hexEncode tid))
      (readMandate C (hexEncode tid)) := by
  refine lockstep_bind (lockstep_kvGet (mandateMap_ne_secretsMap _) _) ?_
  rintro a _ rfl
  exact lockstep_ofExcept (.refl (fun _ => rfl) _)

theorem lockstep_readDispatchRecord (k : String) :
    Lockstep (secretsLink tid) Eq (readDispatchRecord (hexEncode tid) k)
      (readDispatchRecord (hexEncode tid) k) := by
  refine lockstep_bind (lockstep_kvGet (secretsMap_ne_dispatchedMap _).symm _) ?_
  rintro a _ rfl
  rcases a with e | _ | bytes
  · exact lockstep_bind (lockstep_logInfo _) fun _ _ _ => lockstep_pure rfl
  · exact lockstep_pure rfl
  · exact lockstep_pure rfl

theorem lockstep_readPrevious (v : Verdict) :
    Lockstep (secretsLink tid) Eq (readPrevious (hexEncode tid) v)
      (readPrevious (hexEncode tid) v) := by
  unfold readPrevious
  split
  · refine lockstep_bind (lockstep_readDispatchRecord _) ?_
    rintro prev _ rfl
    exact lockstep_pure rfl
  · exact lockstep_pure rfl

/-- Two lists of headers that differ in the credential only. -/
def SameButCredential (h h' : Option (List (String × String))) : Prop :=
  h.map (·.map maskHeader) = h'.map (·.map maskHeader)

theorem SameButCredential.refl (h : Option (List (String × String))) : SameButCredential h h := rfl

theorem authHeaders_some {credentialKey v : String} (hkey : credentialKey ≠ "") (hv : v ≠ "") :
    authHeaders credentialKey (some v) = .ok (some [("Authorization", s!"Bearer {v}")]) := by
  have hsecret : (some v).filter (fun v => v ≠ "") = some v := by simp [Option.filter, hv]
  rw [authHeaders, if_neg hkey, hsecret]

/-- Either both secrets are the same answer, or both can be sent: the headers then differ
in the credential only. -/
theorem lockstep_outboundHeaders (mandate : Mandate) :
    Lockstep (secretsLink tid) SameButCredential (outboundHeaders (hexEncode tid) mandate)
      (outboundHeaders (hexEncode tid) mandate) := by
  unfold outboundHeaders
  by_cases hkey : mandate.credentialKey = ""
  · rw [if_pos hkey]
    refine lockstep_bind (lockstep_pure rfl) ?_
    rintro secret _ rfl
    exact lockstep_ofExcept (.refl SameButCredential.refl _)
  rw [if_neg hkey]
  -- both runs fail alike or go on with two secrets
  have hread : Lockstep (secretsLink tid)
      (fun s s' => s = s' ∨ ∃ v v', v ≠ "" ∧ v' ≠ "" ∧ s = some v ∧ s' = some v')
      (readSecret (hexEncode tid) mandate.credentialKey)
      (readSecret (hexEncode tid) mandate.credentialKey) := by
    refine .call rfl fun a a' ha => ?_
    rcases ha with rfl | ⟨-, ⟨v, rfl, hv⟩, ⟨v', rfl, hv'⟩⟩
    · exact lockstep_ofExcept (.refl (fun _ => .inl rfl) _)
    · refine lockstep_ofExcept ?_
      simp only [secretOf, ofUtf8_utf8]
      exact .ok (.inr ⟨v, v', hv, hv', rfl, rfl⟩)
  refine lockstep_bind hread ?_
  rintro s s' (rfl | ⟨v, v', hv, hv', rfl, rfl⟩)
  · exact lockstep_ofExcept (.refl SameButCredential.refl _)
  · dsimp only
    rw [authHeaders_some hkey hv, authHeaders_some hkey hv']
    exact lockstep_ofExcept (.ok rfl)

theorem lockstep_sendOut (req : ExecuteReq) {h h' : Option (List (String × String))}
    (hh : SameButCredential h h') :
    Lockstep (secretsLink tid) Eq (sendOut req (outboundRequest req h))
      (sendOut req (outboundRequest req h')) := by
  have hmasked : (outboundRequest req h).masked = (outboundRequest req h').masked := by
    unfold outboundRequest Request.masked
    exact congrArg (Request.mk _ _ · _) hh
  unfold sendOut
  split
  · refine lockstep_bind (lockstep_perform (congrArg HostOp.hwpCall hmasked)) ?_
    intro a a' ha
    rcases a with e | r
    · rcases a' with e' | r'
      · obtain rfl : e = e' := ha
        exact lockstep_pure rfl
      · exact ha.elim
    · rcases a' with e' | r'
      · exact ha.elim
      · have hsame : SameOutcome (Except.ok r : Except String Response) (.ok r') := ha
        exact lockstep_pure (outcomeJson_congr hsame)
  · refine lockstep_bind (lockstep_perform (congrArg HostOp.httpCall hmasked)) ?_
    intro a a' ha
    exact lockstep_pure (outcomeJson_congr ha)

theorem lockstep_dispatch (C : Crates) (req : ExecuteReq) (mandate : Mandate)
    (idemKey : Option String) (out : ExecuteOut) :
    Lockstep (secretsLink tid) Eq (dispatch C req (hexEncode tid) mandate idemKey out)
      (dispatch C req (hexEncode tid) mandate idemKey out) := by
  refine lockstep_bind (lockstep_outboundHeaders mandate) fun h h' hh => ?_
  refine lockstep_bind (lockstep_sendOut req hh) ?_
  rintro response _ rfl
  cases idemKey with
  | none => exact lockstep_pure rfl
  | some k =>
    -- what is recorded is the outcome, whatever the store answers
    have hwrite : ∀ value, Lockstep (secretsLink tid) (fun _ _ => True)
        (writeDispatchRecord (hexEncode tid) k value)
        (writeDispatchRecord (hexEncode tid) k value) := by
      intro value
      refine .call rfl fun a a' _ => ?_
      rcases a with e | ⟨⟩ <;> rcases a' with e' | ⟨⟩ <;> exact lockstep_pure trivial
    exact lockstep_bind (hwrite _) fun _ _ _ => lockstep_pure rfl

/-- Two runs of one request go through the same calls, the credential apart. -/
theorem lockstep_executeAction (C : Crates) (req : ExecuteReq) :
    Lockstep (secretsLink tid) Eq (executeActionWasm C req) (executeActionWasm C req) := by
  refine lockstep_bind (lockstep_perform rfl) ?_
  intro tid₁ tid₂ htid
  rw [htid.1, htid.2]
  refine lockstep_bind (lockstep_perform rfl) ?_
  rintro nowSecs _ rfl
  refine lockstep_bind (lockstep_readMandate C) ?_
  rintro mandate _ rfl
  refine lockstep_bind (lockstep_ofExcept (.refl (fun _ => rfl) _)) ?_
  rintro v _ rfl
  refine lockstep_bind (lockstep_readPrevious v) ?_
  rintro previous _ rfl
  rcases previous with _ | ⟨k, prev⟩
  · have hdispatch : ∀ out, Lockstep (secretsLink tid) Eq
        (dispatchIfApproved C req (hexEncode tid) mandate v out)
        (dispatchIfApproved C req (hexEncode tid) mandate v out) := by
      intro out
      unfold dispatchIfApproved
      split
      · exact lockstep_dispatch C req mandate _ out
      · exact lockstep_pure rfl
    refine lockstep_bind (hdispatch _) ?_
    rintro out _ rfl
    exact lockstep_bind (lockstep_logInfo _) fun _ _ _ => lockstep_pure rfl
  · exact lockstep_bind (lockstep_logInfo _) fun _ _ _ => lockstep_pure rfl

end Lockstep

/-! ## The entry points that ask for no secret -/

/-- The call reads no secret of this tenant. -/
def AsksNoSecret (tid : Bytes) (op : HostOp) : Prop :=
  ∀ key, op ≠ .kvGet (secretsMap (hexEncode tid)) key

section Within

variable {tid : Bytes}

theorem asksNoSecret_kvGet {mapName : String} (h : mapName ≠ secretsMap (hexEncode tid))
    (key : Bytes) : AsksNoSecret tid (.kvGet mapName key) := by
  intro key' heq
  cases heq
  exact h rfl

theorem getLast_append {a b : String} {c : Char} (h : b.toList.getLast? = some c) :
    (a ++ b).toList.getLast? = some c := by
  rw [String.toList_append, List.getLast?_append, h]
  rfl

/-- The name of a secrets map ends as no other name does. -/
theorem ne_secretsMap {mapName : String} {c : Char} (h : mapName.toList.getLast? = some c)
    (hc : c ≠ 's') (tidHex : String) : mapName ≠ secretsMap tidHex := by
  rintro rfl
  have hlast : (secretsMap tidHex).toList.getLast? = some 's' := getLast_append (by decide)
  rw [h] at hlast
  exact hc (Option.some.inj hlast)

theorem within_readMandate (C : Crates) (tidHex : String) :
    Within (AsksNoSecret tid) (readMandate C tidHex) := by
  have hname : mandateMap tidHex ≠ secretsMap (hexEncode tid) :=
    ne_secretsMap (getLast_append (by decide)) (by decide : 'e' ≠ 's') _
  exact within_bind (within_perform (asksNoSecret_kvGet hname _)) fun _ => within_ofExcept _

theorem within_logInfo (message : String) : Within (AsksNoSecret tid) (logInfo message) :=
  within_perform fun _ h => by cases h

theorem within_evaluate (C : Crates) (req : EvaluateReq) :
    Within (AsksNoSecret tid) (evaluateWasm C req) := by
  have hmandate : ∀ tidHex, Within (AsksNoSecret tid) (mandateAndSource C tidHex req) := by
    intro tidHex
    unfold mandateAndSource
    split
    · exact within_pure _
    · exact within_bind (within_readMandate C tidHex) fun _ => within_pure _
  refine within_bind (within_perform fun _ h => by cases h) fun tid' => ?_
  refine within_bind (within_perform fun _ h => by cases h) fun nowSecs => ?_
  refine within_bind (hmandate _) fun chosen => ?_
  exact within_bind (within_logInfo _) fun _ => within_pure _

theorem within_recordSpend (tidHex : String) (key : Bytes) (req : SpendReq) (before : UInt64) :
    Within (AsksNoSecret tid) (recordSpend tidHex key req before) := by
  unfold recordSpend
  split
  · refine within_bind (within_perform fun _ h => by cases h) fun a => ?_
    rcases a with e | ⟨⟩
    · exact within_ofExcept _
    · exact within_pure _
  · exact within_pure _

theorem within_spend (req : SpendReq) : Within (AsksNoSecret tid) (spendWasm req) := by
  have hname : ∀ tidHex, spentMap tidHex ≠ secretsMap (hexEncode tid) := fun tidHex =>
    ne_secretsMap (getLast_append (by decide)) (by decide : 't' ≠ 's') _
  refine within_bind (within_perform fun _ h => by cases h) fun tid' => ?_
  refine within_bind (within_perform fun _ h => by cases h) fun nowSecs => ?_
  refine within_bind (within_perform (asksNoSecret_kvGet (hname _) _)) fun a => ?_
  refine within_bind (within_ofExcept _) fun before => ?_
  refine within_bind (within_recordSpend _ _ req before) fun _ => ?_
  exact within_bind (within_logInfo _) fun _ => within_pure _

theorem within_dispatchAction (C : Crates) (req : DispatchReq) :
    Within (AsksNoSecret tid) (dispatchActionWasm C req) := by
  refine within_bind ?_ fun json => within_bind (within_logInfo _) fun _ => within_pure _
  exact within_bind (within_perform fun _ h => by cases h) fun _ => within_pure _

end Within

/-! ## What does not flow -/

/-- The two hosts differ in the secret the mandate names, which both can send, and in
nothing else they are asked for: they are one tenant at one time. -/
structure SameButSecret (C : Crates) (answer answer' : Answers) : Prop where
  tenant : answer .tenantDid = answer' .tenantDid
  clock : answer .clusterTimestampSecs = answer' .clusterTimestampSecs
  reads : ∀ mapName key, answer (.kvGet mapName key) = answer' (.kvGet mapName key) ∨
    ∃ mandate, answer.mandate C = .ok mandate ∧ mandate.credentialKey ≠ "" ∧
      mapName = secretsMap answer.tidHex ∧ key = utf8 mandate.credentialKey ∧
      HoldsSecret (answer (.kvGet mapName key)) ∧ HoldsSecret (answer' (.kvGet mapName key))

/-- Two calls to upstream got responses that look the same. -/
def SameUpstream : HostEvent → HostEvent → Prop
  | ⟨.httpCall _, a⟩, ⟨.httpCall _, a'⟩ => SameOutcome a a'
  | ⟨.hwpCall _, a⟩, ⟨.hwpCall _, a'⟩ => SameOutcome a a'
  | _, _ => True

/-- The two runs show the same: one result, one log, the same writes, and requests that
differ in the credential only. -/
structure SameView {α : Type} (u u' : List HostEvent × Except Fault α) : Prop where
  result : u.2 = u'.2
  log : logLines u.1 = logLines u'.1
  writes : writes u.1 = writes u'.1
  sent : (outboundCalls u.1).map Request.masked = (outboundCalls u'.1).map Request.masked

/-- The two hosts differ in the secrets map and in nothing else. -/
def SameButSecrets (answer answer' : Answers) : Prop :=
  ∀ op, AsksNoSecret (answer .tenantDid) op → answer op = answer' op

/-- Corresponding calls get corresponding answers from two such hosts. -/
theorem answers_of_sameButSecret {C : Crates} {answer answer' : Answers} {e e' : HostEvent}
    (h : SameButSecret C answer answer') (hop : e.op.masked = e'.op.masked)
    (he : e.res = answer e.op) (he' : e'.res = answer' e'.op) (hup : SameUpstream e e') :
    (secretsLink (answer .tenantDid)).answers e.op e'.op e.res e'.res := by
  obtain ⟨op, a⟩ := e
  obtain ⟨op', a'⟩ := e'
  -- blanking keeps the kind of a call, so the two calls are of one kind
  cases op with
  | tenantDid =>
    cases op' <;> cases hop
    exact ⟨he, he'.trans h.tenant.symm⟩
  | clusterTimestampSecs =>
    cases op' <;> cases hop
    exact he.trans (h.clock.trans he'.symm)
  | kvGet mapName key =>
    cases op' <;> cases hop
    obtain rfl : a = answer (.kvGet mapName key) := he
    obtain rfl : a' = answer' (.kvGet mapName key) := he'
    exact (h.reads mapName key).imp_right fun ⟨_, _, _, hmap, _, hs, hs'⟩ => ⟨hmap, hs, hs'⟩
  | httpCall request =>
    cases op' <;> exact hup
  | hwpCall request =>
    cases op' <;> exact hup
  | kvPut => cases op' <;> trivial
  | logInfo => cases op' <;> trivial

/-- Two runs of `execute_action` that differ in the secret and in the payloads from upstream
show the same. -/
theorem sameView_executeAction {C : Crates} {answer answer' : Answers} {req : ExecuteReq}
    (h : SameButSecret C answer answer')
    (hup : ∀ e ∈ (run answer (executeActionWasm C req)).1,
      ∀ e' ∈ (run answer' (executeActionWasm C req)).1, SameUpstream e e') :
    SameView (run answer (executeActionWasm C req)) (run answer' (executeActionWasm C req)) := by
  obtain ⟨hcalls, hend⟩ := (lockstep_executeAction C req).runs (emits_run answer _)
    (emits_run answer' _) fun e he e' he' hop => answers_of_sameButSecret h hop
      (agrees_run answer _ e he) (agrees_run answer' _ e' he') (hup e he e' he')
  refine ⟨?_, filterMap_of_masked HostOp.logged_masked hcalls,
    filterMap_of_masked HostOp.written_masked hcalls, ?_⟩
  · generalize (run answer (executeActionWasm C req)).2 = r at hend ⊢
    generalize (run answer' (executeActionWasm C req)).2 = r' at hend ⊢
    cases hend with
    | ok hout => rw [hout]
    | error f => rfl
  · have hsent := filterMap_of_masked HostOp.outbound_masked hcalls
    simpa only [outboundCalls, List.map_filterMap] using hsent

/-- Nothing of the secrets map reaches the agent. Two runs of `execute_action` against
hosts that differ in the secret the mandate names, and get upstream responses of the same
status and length, return the same, log the same and write the same, and send the same but
for the credential; the other entry points run in one way whatever the secrets map holds. -/
theorem secrets_do_not_flow_back (C : Crates) :
    (∀ answer answer' req, SameButSecret C answer answer' →
      (∀ e ∈ (run answer (executeActionWasm C req)).1,
        ∀ e' ∈ (run answer' (executeActionWasm C req)).1, SameUpstream e e') →
      SameView (run answer (executeActionWasm C req)) (run answer' (executeActionWasm C req))) ∧
    ∀ answer answer', SameButSecrets answer answer' →
      (∀ req, run answer (evaluateWasm C req) = run answer' (evaluateWasm C req)) ∧
      (∀ req, run answer (spendWasm req) = run answer' (spendWasm req)) ∧
      (∀ req, run answer (dispatchActionWasm C req) = run answer' (dispatchActionWasm C req)) := by
  refine ⟨fun answer answer' req => sameView_executeAction, fun answer answer' h => ⟨?_, ?_, ?_⟩⟩
  · exact fun req => (within_evaluate C req).run_congr h
  · exact fun req => (within_spend req).run_congr h
  · exact fun req => (within_dispatchAction C req).run_congr h

/-- The sample tenant with another secret, and an upstream that says something else. -/
def sampleAnswersOther : Answers
  | .kvGet mapName key =>
    if mapName = secretsMap "ab" ∧ key = utf8 "broker" then .ok (some (utf8 "0ther"))
    else .ok (sampleKv mapName key)
  | .httpCall _ => .ok ⟨200, utf8 "fail"⟩
  | .hwpCall _ => .ok ⟨200, utf8 "fail"⟩
  | op => sampleAnswers op

theorem sampleAnswersOther_secret {mapName : String} {key : Bytes}
    (h : mapName = secretsMap "ab" ∧ key = utf8 "broker") :
    sampleAnswersOther (.kvGet mapName key) = .ok (some (utf8 "0ther")) := if_pos h

theorem sampleAnswersOther_kvGet {mapName : String} {key : Bytes}
    (h : ¬ (mapName = secretsMap "ab" ∧ key = utf8 "broker")) :
    sampleAnswersOther (.kvGet mapName key) = .ok (sampleKv mapName key) := if_neg h

theorem sameButSecret_sample : SameButSecret sampleCrates sampleAnswers sampleAnswersOther where
  tenant := rfl
  clock := rfl
  reads := by
    intro mapName key
    by_cases h : mapName = secretsMap "ab" ∧ key = utf8 "broker"
    · refine .inr ⟨sampleMandate, sampleAnswers_mandate, by decide, ?_, h.2, ?_, ?_⟩
      · rw [sampleAnswers_tidHex, h.1]
      · refine ⟨"s3cret", ?_, by decide⟩
        rw [h.1]
        exact congrArg Except.ok (sampleKv_secrets key)
      · exact ⟨"0ther", sampleAnswersOther_secret h, by decide⟩
    · exact .inl (sampleAnswersOther_kvGet h).symm

theorem sameUpstream_sample {e e' : HostEvent} (he : e.res = sampleAnswers e.op)
    (he' : e'.res = sampleAnswersOther e'.op) : SameUpstream e e' := by
  obtain ⟨op, a⟩ := e
  obtain ⟨op', a'⟩ := e'
  obtain rfl : a = sampleAnswers op := he
  obtain rfl : a' = sampleAnswersOther op' := he'
  cases op with
  | httpCall => cases op' <;> trivial
  | hwpCall => cases op' <;> trivial
  | _ => trivial

/-- The sample tenant without its secrets map. -/
def sampleAnswersGone : Answers
  | .kvGet mapName key =>
    if mapName = secretsMap "ab" then .error "no such map" else .ok (sampleKv mapName key)
  | op => sampleAnswers op

theorem sameButSecrets_sample : SameButSecrets sampleAnswers sampleAnswersGone := by
  intro op hop
  cases op with
  | kvGet mapName key =>
    have hmap : mapName ≠ secretsMap "ab" := by
      rintro rfl
      exact hop key rfl
    exact (if_neg hmap).symm
  | _ => rfl

/-- The sample order sent with one secret and with another; and the sample tenant with its
secrets gone. -/
theorem secrets_do_not_flow_back_sample :
    SameView (run sampleAnswers (executeActionWasm sampleCrates sampleReq))
      (run sampleAnswersOther (executeActionWasm sampleCrates sampleReq)) ∧
    run sampleAnswers (evaluateWasm sampleCrates ⟨sampleAction, none⟩) =
      run sampleAnswersGone (evaluateWasm sampleCrates ⟨sampleAction, none⟩) :=
  ⟨(secrets_do_not_flow_back sampleCrates).1 _ _ _ sameButSecret_sample fun _ he _ he' =>
      sameUpstream_sample (agrees_run _ _ _ he) (agrees_run _ _ _ he'),
    ((secrets_do_not_flow_back sampleCrates).2 _ _ sameButSecrets_sample).1 _⟩

end Gatekeeper.Gate
