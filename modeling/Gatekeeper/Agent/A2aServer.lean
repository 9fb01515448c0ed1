import Gatekeeper.Lib.Interaction
import Gatekeeper.Agent.Digests
import Gatekeeper.Agent.TaskRequests

/-!
# The A2A server's tasks

`GatekeeperExecutor.execute` of `a2a-server.mjs`: a message becomes a task, and the task publishes
its states on a bus. What the two skills answer is the host's. An exception is an `Error`, and
stands here as its message.
-/

namespace Gatekeeper.Agent.A2a

open Ecma Interaction
open Digests (orElse text read)
open Js (Error)

/-! ## What is published -/

inductive TaskState where
  | submitted
  | working
  | completed
  | failed
deriving DecidableEq

/-- An event on the bus, without the ids and the times that are made up for it. A status carries
at most one text. -/
inductive AgentEvent where
  | task (taskId contextId : String) (state : TaskState) (history : List Value)
  | statusUpdate (taskId contextId : String) (state : TaskState) (message : Option Str)
  | artifactUpdate (taskId contextId : String) (name : Value) (description : Str) (data : Value)

/-- What `execute` calls. -/
inductive HostOp where
  | publish (event : AgentEvent)
  | finished
  | bindCredential (credential : Value) (action : Option Value)
  | decideWith (args : Value)

/-- A skill returns a value or throws. -/
def HostOp.Res : HostOp → Type
  | .publish _ | .finished => Unit
  | .bindCredential _ _ | .decideWith _ => Except Str Value

abbrev Executor (α : Type) : Type := Prog HostOp HostOp.Res Str α

/-- A task with the message it is made for, whose parts can be gone through. -/
structure RequestContext where
  taskId : String
  contextId : String
  userMessage : Value
  parts : List Value
  partsOf_userMessage : partsOf (some userMessage) = .ok parts

variable (describe : Error → Str) (ctx : RequestContext)

/-- An error of the language, by the message the engine gives it. -/
def thrown {α : Type} : Except Error α → Except Str α
  | .ok a => .ok a
  | .error e => .error (describe e)

def publish (event : AgentEvent) : Executor Unit := Prog.perform (HostOp.publish event)

def finished : Executor Unit := Prog.perform HostOp.finished

def submitted : AgentEvent := .task ctx.taskId ctx.contextId .submitted [ctx.userMessage]

def status (state : TaskState) (message : Option Str) : AgentEvent :=
  .statusUpdate ctx.taskId ctx.contextId state message

def artifact (skill : Value) (summary : Str) (result : Value) : AgentEvent :=
  .artifactUpdate ctx.taskId ctx.contextId skill summary result

/-! ## The skills -/

/-- A member that is left out where it is `undefined`. -/
def given (name : String) (v : Option Value) : List (Str × Value) :=
  v.toList.map fun v => (ofString name, v)

def credentialOf (req : Value) : Value :=
  .object (given "issuer" (req.get? "issuer") ++ given "subject" (req.get? "subject") ++
    [(ofString "claims", orElse (req.get? "claims") (.object []))] ++
    given "verified" (req.get? "verified"))

def decideArgs (req : Value) : Value :=
  .object (given "action" (req.get? "action") ++ given "mandate" (req.get? "mandate") ++
    given "now_secs" (req.get? "now_secs") ++
    [(ofString "credential", orElse (req.get? "credential") .null),
      (ofString "idempotency_key", orElse (req.get? "idempotency_key") .null)] ++
    given "engine" (req.get? "engine"))

/-- `typeof v === "number"`. -/
def isNumeric : Option Value → Bool
  | some (.number _) => true
  | _ => false

def checkEvaluable (req : Value) : Except Str Unit :=
  let mandate := req.get? "mandate"
  if !truthy ((req.get? "action").bind (·.get? "kind")) then
    .error (ofString "action.kind is required")
  else if !truthy mandate || !isNumeric (mandate.bind (·.get? "max_amount_cents")) then
    .error (ofString
      "mandate.max_amount_cents is required — a mandate with no ceiling is not a mandate")
  else .ok ()

/-- `if (result?.error) throw new Error(result.error)`. -/
def checkResult (result : Value) : Except Str Unit :=
  if truthy (result.get? "error") then do
    let message ← thrown describe (template (result.get? "error"))
    throw message
  else .ok ()

def unknownSkill (skill : Value) : Except Str Value := do
  let name ← thrown describe (template (some skill))
  throw (ofString "unknown skill '" ++ name ++ ofString "'")

/-- The skill `evaluate-gated-action`. -/
def evaluate (req : Value) : Executor Value := do
  Prog.ofExcept (checkEvaluable req)
  let result ← Prog.perform (HostOp.decideWith (decideArgs req)) >>= Prog.ofExcept
  Prog.ofExcept (checkResult describe result)
  return result

/-- The result of the skill that the request names. -/
def resultOf (req skill : Value) : Executor Value :=
  if isText (some skill) "bind-credential" then
    Prog.perform (HostOp.bindCredential (credentialOf req) (req.get? "action")) >>= Prog.ofExcept
  else if isText (some skill) "evaluate-gated-action" then evaluate describe req
  else Prog.ofExcept (unknownSkill describe skill)

/-- `reasons.join("; ")`, which throws for what is no array. -/
def joinReasons (reasons : Option Value) : Except Error Str :=
  match reasons with
  | some (.array xs) =>
    match elementTexts xs with
    | some ts => .ok ((ofString "; ").intercalate ts)
    | none => .error .typeError
  | _ => .error .typeError

def summaryOf (result : Value) : Except Error Str := do
  let decision ← read result "decision"
  if truthy decision then
    if isText decision "approved" then return ofString "APPROVED — inside mandate."
    else
      let reasons ← joinReasons (result.get? "reasons")
      return ofString "REJECTED — " ++ reasons
  else
    let commitment ← template (result.get? "commitment")
    return ofString "commitment " ++ commitment

/-! ## The executor -/

/-- The `try` block. -/
def answer (req : Value) : Executor Unit := do
  let skill := orElse (req.get? "skill") (text "evaluate-gated-action")
  let result ← resultOf describe req skill
  let summary ← Prog.ofExcept (thrown describe (summaryOf result))
  publish (artifact ctx skill summary result)
  publish (status ctx .completed (some summary))

def noRequest : Str :=
  ofString "no request found: send a data part (or JSON text) with \x7b action, mandate \x7d"

def execute : Executor Unit := do
  publish (submitted ctx)
  let req ← Prog.ofExcept (thrown describe (requestFromMessage (some ctx.userMessage)))
  if truthy (some req) then do
    publish (status ctx .working none)
    (answer describe ctx req).tryCatch fun message =>
      publish (status ctx .failed (some (message.take 300)))
    finished
  else do
    publish (status ctx .failed (some noRequest))
    finished

/-! ## What a run publishes -/

abbrev Run : Type := List (Event HostOp HostOp.Res)

def isBusCall : HostOp → Bool
  | .publish _ | .finished => true
  | .bindCredential _ _ | .decideWith _ => false

/-- The calls on the bus. -/
def busCalls (t : Run) : List HostOp := (t.map Event.op).filter isBusCall

/-- The answers of `decideWith`. -/
def decisions (t : Run) : List (Except Str Value) :=
  t.filterMap fun
    | ⟨.decideWith _, verdict⟩ => some verdict
    | _ => none

@[simp] theorem busCalls_append (t u : Run) : busCalls (t ++ u) = busCalls t ++ busCalls u := by
  rw [busCalls, List.map_append, List.filter_append]
  rfl

@[simp] theorem decisions_append (t u : Run) :
    decisions (t ++ u) = decisions t ++ decisions u := List.filterMap_append

@[simp] theorem busCalls_publish (event : AgentEvent) (x : HostOp.Res (.publish event))
    (t : Run) : busCalls (⟨HostOp.publish event, x⟩ :: t) = .publish event :: busCalls t := rfl

@[simp] theorem decisions_publish (event : AgentEvent) (x : HostOp.Res (.publish event))
    (t : Run) : decisions (⟨HostOp.publish event, x⟩ :: t) = decisions t := rfl

@[simp] theorem busCalls_finished (x : HostOp.Res .finished) :
    busCalls [⟨HostOp.finished, x⟩] = [.finished] := rfl

@[simp] theorem decisions_finished (x : HostOp.Res .finished) :
    decisions [⟨HostOp.finished, x⟩] = [] := rfl

/-- The ways a task ends: with an artifact and then completed, or failed. -/
inductive Ending (ctx : RequestContext) : List HostOp → Prop where
  | completed (skill : Value) (summary : Str) (result : Value) :
      Ending ctx [.publish (artifact ctx skill summary result),
        .publish (status ctx .completed (some summary))]
  | failed (message : Str) : Ending ctx [.publish (status ctx .failed (some message))]

/-- The life of a task: submitted, at most one working update, one of the endings, and nothing
after it. -/
inductive Lifecycle (ctx : RequestContext) : List HostOp → Prop where
  | mk {updates ending : List HostOp} :
      updates = [] ∨ updates = [.publish (status ctx .working none)] → Ending ctx ending →
      Lifecycle ctx (.publish (submitted ctx) :: updates ++ ending ++ [.finished])

/-- A verdict that refuses, as both engines give it (`rejected_of_decideWith`). -/
structure Rejected (v : Value) : Prop where
  decision : v.get? "decision" = some (.string (ofString "rejected"))
  reasons : ∃ texts : List Str, v.get? "reasons" = some (.array (texts.map Value.string))
  noError : truthy (v.get? "error") = false

/-! ## The parts of a run -/

variable {describe ctx}

/-- The evaluation asks for one decision at most, and a verdict without an error is its result. -/
theorem evaluate_spec {req : Value} {t : Run} {r : Except Str Value}
    (h : Emits (evaluate describe req) t r) :
    t = [] ∨ ∃ verdict, t = [⟨HostOp.decideWith (decideArgs req), verdict⟩] ∧
      ∀ v, verdict = .ok v → truthy (v.get? "error") = false → r = .ok v := by
  rcases emits_ofExcept_bind.mp h with ⟨e, _, rfl, _⟩ | ⟨_, _, hrest⟩
  · exact .inl rfl
  · rcases emits_bind.mp hrest with ⟨e, hcall, rfl⟩ | ⟨result, t₁, t₂, rfl, hcall, hchecked⟩
    · obtain ⟨verdict, rfl, hverdict⟩ := emits_await.mp hcall
      refine .inr ⟨verdict, rfl, fun v hv => ?_⟩
      cases hverdict.trans hv
    · obtain ⟨verdict, rfl, hverdict⟩ := emits_await.mp hcall
      rcases emits_ofExcept_bind.mp hchecked with ⟨e, hcheck, rfl, rfl⟩ | ⟨_, _, hreturn⟩
      · refine .inr ⟨verdict, rfl, fun v hv hclear => ?_⟩
        obtain rfl := Except.ok.inj (hverdict.trans hv)
        rw [checkResult, hclear] at hcheck
        cases hcheck
      · obtain ⟨rfl, rfl⟩ := emits_pure.mp hreturn
        exact .inr ⟨verdict, rfl, fun v hv _ => hverdict.trans hv⟩

/-- A skill publishes nothing, and a verdict without an error is its result. -/
theorem resultOf_spec {req skill : Value} {t : Run} {r : Except Str Value}
    (h : Emits (resultOf describe req skill) t r) :
    busCalls t = [] ∧
      ∀ v, .ok v ∈ decisions t → truthy (v.get? "error") = false → r = .ok v := by
  unfold resultOf at h
  split_ifs at h
  · obtain ⟨x, rfl, -⟩ := emits_await.mp h
    exact ⟨rfl, fun v hv => by cases hv⟩
  · rcases evaluate_spec h with rfl | ⟨verdict, rfl, hverdict⟩
    · exact ⟨rfl, fun v hv => by cases hv⟩
    · exact ⟨rfl, fun v hv => hverdict v (List.mem_singleton.mp hv).symm⟩
  · obtain ⟨rfl, -⟩ := emits_ofExcept.mp h
    exact ⟨rfl, fun v hv => by cases hv⟩

theorem elementTexts_strings (texts : List Str) :
    elementTexts (texts.map Value.string) = some texts := by
  induction texts with
  | nil => rfl
  | cons t texts ih =>
    rw [List.map_cons, elementTexts, ih]
    · rfl
    · intro h
      cases h

theorem read_of_get? {v x : Value} {name : String} (h : v.get? name = some x) :
    read v name = .ok (some x) := by
  cases v with
  | object ms => exact congrArg Except.ok h
  | _ => cases h

theorem summaryOf_rejected {v : Value} (h : Rejected v) : ∃ s, summaryOf v = .ok s := by
  obtain ⟨hdecision, ⟨texts, hreasons⟩, -⟩ := h
  have happroved : isText (some (.string (ofString "rejected"))) "approved" = false :=
    ofString_beq (by decide)
  have htruthy : truthy (some (.string (ofString "rejected"))) = true :=
    decide_eq_true (ofString_ne (s := "rejected") (t := "") (by decide))
  have hjoin : joinReasons (v.get? "reasons") = .ok ((ofString "; ").intercalate texts) := by
    rw [hreasons, joinReasons, elementTexts_strings]
  refine ⟨ofString "REJECTED — " ++ (ofString "; ").intercalate texts, ?_⟩
  rw [summaryOf, read_of_get? hdecision, hjoin]
  simp only [bind, Except.bind, htruthy, happroved, if_true, Bool.false_eq_true, if_false]
  rfl

/-- The `try` block ends with an artifact and the completed state, or publishes nothing and fails.
With a verdict that refuses it does not fail. -/
theorem answer_spec {req : Value} {t : Run} {r : Except Str Unit}
    (h : Emits (answer describe ctx req) t r) :
    (r = .ok () ∧ (∃ skill summary result,
        busCalls t = [.publish (artifact ctx skill summary result),
          .publish (status ctx .completed (some summary))] ∧
        ∀ v, .ok v ∈ decisions t → Rejected v → result = v)) ∨
      ((∃ e, r = .error e) ∧ busCalls t = [] ∧ ∀ v, .ok v ∈ decisions t → ¬ Rejected v) := by
  rcases emits_bind.mp h with ⟨e, hresult, rfl⟩ | ⟨result, t₁, t₂, rfl, hresult, hrest⟩
  · obtain ⟨hbus, hverdict⟩ := resultOf_spec hresult
    refine .inr ⟨⟨e, rfl⟩, hbus, fun v hv hrejected => ?_⟩
    cases hverdict v hv hrejected.noError
  · obtain ⟨hbus, hverdict⟩ := resultOf_spec hresult
    rcases emits_ofExcept_bind.mp hrest with ⟨e, hsummary, rfl, rfl⟩ | ⟨summary, _, hpublish⟩
    -- the summary cannot be made
    · refine .inr ⟨⟨e, rfl⟩, by rw [List.append_nil, hbus], fun v hv hrejected => ?_⟩
      rw [List.append_nil] at hv
      obtain rfl := Except.ok.inj (hverdict v hv hrejected.noError)
      obtain ⟨s, hs⟩ := summaryOf_rejected hrejected
      rw [hs] at hsummary
      cases hsummary
    · obtain ⟨_, t₃, rfl, hcompleted⟩ := emits_perform_bind.mp hpublish
      obtain ⟨_, rfl, rfl⟩ := emits_perform.mp hcompleted
      refine .inl ⟨rfl, _, summary, result, by rw [busCalls_append, hbus]; rfl, ?_⟩
      intro v hv hrejected
      rw [decisions_append, List.mem_append] at hv
      rcases hv with hv | hv
      · exact Except.ok.inj (hverdict v hv hrejected.noError)
      · cases hv

/-! ## The life of a task -/

/-- The `try` statement does not throw: the task is completed or it has failed. -/
theorem handled_spec {req : Value} {t : Run} {r : Except Str Unit}
    (h : Emits ((answer describe ctx req).tryCatch fun message =>
      publish (status ctx .failed (some (message.take 300)))) t r) :
    r = .ok () ∧
      ((∃ skill summary result,
        busCalls t = [.publish (artifact ctx skill summary result),
          .publish (status ctx .completed (some summary))] ∧
        ∀ v, .ok v ∈ decisions t → Rejected v → result = v) ∨
      (∃ message, busCalls t = [.publish (status ctx .failed (some message))] ∧
        ∀ v, .ok v ∈ decisions t → ¬ Rejected v)) := by
  rcases emits_tryCatch.mp h with ⟨_, hanswer, rfl⟩ | ⟨e, t₁, t₂, rfl, hanswer, hhandler⟩
  · rcases answer_spec hanswer with ⟨_, hdone⟩ | ⟨⟨e, he⟩, _⟩
    · exact ⟨rfl, .inl hdone⟩
    · cases he
  · rcases answer_spec hanswer with ⟨hok, _⟩ | ⟨_, hbus, hnone⟩
    · cases hok
    · obtain ⟨_, rfl, rfl⟩ := emits_perform.mp hhandler
      refine ⟨rfl, .inr ⟨e.take 300, by rw [busCalls_append, hbus]; rfl, fun v hv => ?_⟩⟩
      rw [decisions_append, List.mem_append] at hv
      rcases hv with hv | hv
      · exact hnone v hv
      · cases hv

def sampleEvaluation : Value :=
  .object [(ofString "action", .object [(ofString "kind", text "rwa.buy")]),
    (ofString "mandate", .object [(ofString "max_amount_cents", .number (.ofRat 1))])]

def sampleContext : RequestContext where
  taskId := "task-1"
  contextId := "context-1"
  userMessage := messageOfParts [sdkPart "data" sampleEvaluation]
  parts := [sdkPart "data" sampleEvaluation]
  partsOf_userMessage := partsOf_messageOfParts _

def sampleRefusal : Value :=
  .object [(ofString "decision", text "rejected"),
    (ofString "reasons", .array [text "amount 2 exceeds mandate max 1"])]

/-- A host whose engine refuses. -/
def refuses : (op : HostOp) → HostOp.Res op
  | .publish _ | .finished => ()
  | .bindCredential _ _ | .decideWith _ => .ok sampleRefusal

theorem sampleRefusal_rejected : Rejected sampleRefusal where
  decision := rfl
  reasons := ⟨[ofString "amount 2 exceeds mandate max 1"], rfl⟩
  noError := rfl

theorem decisions_sample :
    decisions (run refuses (execute (fun _ => []) sampleContext)).1 = [.ok sampleRefusal] := by
  rfl

end Gatekeeper.Agent.A2a
