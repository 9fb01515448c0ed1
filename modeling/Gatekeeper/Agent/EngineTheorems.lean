import Gatekeeper.Lib.JsValueTheorems
import Gatekeeper.Gate.Reasons
import Gatekeeper.Gate.SampleTenant
import Gatekeeper.Agent.CredentialBinding
import Gatekeeper.Agent.Engine

/-!
# When the two engines agree

Both engines run `decide` on one action and one mandate. `gate_cli` also checks what the mandate
requires beside the action, and each engine has its own reading of the time.
-/

namespace Gatekeeper.Agent

open Encoding Interaction Js Gate

/-! ## What a falsy argument is read as -/

theorem jsonOption_cases {α : Type} {read : Value → Option α} {v : Value} {o : Option α}
    (h : jsonOption read v = some o) : o = none ∨ ∃ x, o = some x ∧ read v = some x := by
  unfold jsonOption at h
  split at h
  · exact .inl (Option.some.inj h).symm
  · exact .inl (Option.some.inj h).symm
  · rw [Option.map_eq_some_iff] at h
    obtain ⟨x, hx, rfl⟩ := h
    exact .inr ⟨x, rfl, hx⟩

theorem jsonOption_of_read {α : Type} {read : Value → Option α} {v : Value} {x : α}
    (hundefined : read .undefined = none) (hnull : read .null = none) (h : read v = some x) :
    jsonOption read v = some (some x) := by
  unfold jsonOption
  split
  · rw [hundefined] at h
    cases h
  · rw [hnull] at h
    cases h
  · rw [h]
    rfl

theorem toJson_number (x : Number) :
    (Value.number x).toJson = .number x ∨ (Value.number x).toJson = .null := by
  cases x with
  | whole n => exact .inl rfl
  | other text =>
    rw [Value.toJson]
    split_ifs
    · exact .inr rfl
    · exact .inl rfl

/-- What has a member once it is written is not falsy. -/
theorem truthy_of_member {v w : Value} {name : String} (h : v.toJson.get? name = w)
    (hw : w ≠ .undefined) : v.truthy = true := by
  cases v with
  | array xs => rfl
  | object ms => rfl
  | number x =>
    rcases toJson_number x with hx | hx
    · rw [hx] at h
      exact absurd h.symm hw
    · rw [hx] at h
      exact absurd h.symm hw
  | _ => exact absurd h.symm hw

theorem truthy_of_jsonMandate {v : Value} {m : Mandate} (h : jsonMandate v.toJson = some m) :
    v.truthy = true := by
  obtain ⟨_, hmax, _⟩ := Option.bind_eq_some_iff.mp h
  obtain ⟨x, hx, _⟩ := jsonAmount_eq_some hmax
  exact truthy_of_member hx nofun

theorem truthy_of_jsonBinding {v : Value} {b : Gate.CredentialBinding}
    (h : jsonBinding v.toJson = some b) : v.truthy = true :=
  truthy_of_member (jsonBinding_eq_some.mp h).1 nofun

theorem jsonText_toJson {v : Value} {s : String} (h : jsonText v.toJson = some s) :
    v = .string s := by
  cases v with
  | string t => exact congrArg Value.string (Option.some.inj h)
  | number x =>
    rcases toJson_number x with hx | hx
    · rw [hx] at h
      cases h
    · rw [hx] at h
      cases h
  | _ => cases h

/-! ## The two ways through `decideWith` -/

/-- A verdict of one engine or the other. -/
theorem decideWith_cases {C : Crates} {H : EngineHost} {engine v : Value} {args : DecideArgs}
    (h : decideWith C H engine args = .ok v) :
    (∃ w, decideCli C H args = .ok w ∧ v = withCliName w) ∨
      (args.credential.truthy = false ∧ args.idempotencyKey.truthy = false ∧
        decideComponent C H args = .ok v) := by
  unfold decideWith at h
  dsimp only at h
  split_ifs at h with hcli hbuilt hcomponent hsupplied
  · cases hw : decideCli C H args with
    | error e =>
      rw [hw] at h
      cases h
    | ok w =>
      rw [hw] at h
      exact .inl ⟨w, rfl, (Except.ok.inj h).symm⟩
  · rw [Bool.not_eq_true, Bool.or_eq_false_iff] at hsupplied
    exact .inr ⟨hsupplied.1, hsupplied.2, h⟩
  · obtain ⟨_, _, h⟩ := bind_eq_ok.mp h
    cases h

/-- What `gate_cli` prints: an error, or its answer to the request it read. -/
theorem decideCli_cases {C : Crates} {H : EngineHost} {args : DecideArgs} {w : Value}
    (h : decideCli C H args = .ok w) :
    (∃ e, w = .object [("error", .string e)]) ∨
      ∃ req out, jsonCliReq (cliInput H args) = some req ∧ gateCli C req = .ok out ∧
        w = cliValue out := by
  unfold decideCli cliPrints at h
  split_ifs at h
  split at h
  · exact .inl ⟨_, (Except.ok.inj h).symm⟩
  · rename_i req hreq
    split at h
    · rename_i out hout
      exact .inr ⟨req, out, hreq, hout, (Except.ok.inj h).symm⟩
    · cases h

/-- A verdict of the component is a decision at the time its host was told. -/
theorem decideComponent_ok {C : Crates} {H : EngineHost} {args : DecideArgs} {v : Value}
    (h : decideComponent C H args = .ok v) :
    ∃ req nowSecs d, jsonEvaluateReq (evaluateInput args) = some req ∧
      hostNow H args = .ok nowSecs ∧
      (run (localAnswers H nowSecs) (evaluateWasm C req)).2 = .ok d ∧ v = componentVerdict d := by
  unfold decideComponent at h
  split at h
  · cases h
  · rename_i req hreq
    obtain ⟨nowSecs, hnow, h⟩ := bind_eq_ok.mp h
    split at h
    · rename_i d hd
      exact ⟨req, nowSecs, d, hreq, hnow, hd, (Except.ok.inj h).symm⟩
    · cases h
    · cases h

/-! ## Verdicts -/

/-- The answer has a decision; that of an input which cannot be read has none. -/
def IsVerdict (v : Value) : Prop := v.get? "decision" ≠ .undefined

/-- The answer names its engine. -/
def AnsweredBy (engine : String) (v : Value) : Prop := v.get? "engine" = .string engine

/-- The decision and the reasons of an answer. -/
def decided (v : Value) : Value × Value := (v.get? "decision", v.get? "reasons")

@[simp] theorem decided_cli (out : CliOut) :
    decided (withCliName (cliValue out)) =
      (.string out.decision, .array (out.reasons.map Value.string)) := rfl

@[simp] theorem decided_component (d : Decision) :
    decided (componentVerdict d) = (.string d.decision, .array (d.reasons.map Value.string)) := rfl

theorem cli_of_decideWith {C : Crates} {H : EngineHost} {engine v : Value} {args : DecideArgs}
    (h : decideWith C H engine args = .ok v) (hv : IsVerdict v) (he : AnsweredBy "gate_cli" v) :
    ∃ req out, jsonCliReq (cliInput H args) = some req ∧ gateCli C req = .ok out ∧
      v = withCliName (cliValue out) := by
  rcases decideWith_cases h with ⟨w, hw, rfl⟩ | ⟨_, _, h⟩
  · rcases decideCli_cases hw with ⟨e, rfl⟩ | ⟨req, out, hreq, hout, rfl⟩
    -- an input that cannot be read gets no decision
    · exact absurd rfl hv
    · exact ⟨req, out, hreq, hout, rfl⟩
  · obtain ⟨_, _, d, _, _, _, rfl⟩ := decideComponent_ok h
    have hname : Value.string "component" = .string "gate_cli" := he
    exact absurd (Value.string.inj hname) (by decide)

theorem component_of_decideWith {C : Crates} {H : EngineHost} {engine v : Value}
    {args : DecideArgs} (h : decideWith C H engine args = .ok v) (he : AnsweredBy "component" v) :
    args.credential.truthy = false ∧ args.idempotencyKey.truthy = false ∧
      ∃ req nowSecs d, jsonEvaluateReq (evaluateInput args) = some req ∧
        hostNow H args = .ok nowSecs ∧
        (run (localAnswers H nowSecs) (evaluateWasm C req)).2 = .ok d ∧ v = componentVerdict d := by
  rcases decideWith_cases h with ⟨w, hw, rfl⟩ | ⟨hcredential, hkey, h⟩
  · have hname : Value.string "gate_cli" = .string "component" := by
      rcases decideCli_cases hw with ⟨e, rfl⟩ | ⟨req, out, _, _, rfl⟩
      · exact he
      · exact he
    exact absurd (Value.string.inj hname) (by decide)
  · exact ⟨hcredential, hkey, decideComponent_ok h⟩

/-! ## One action and one mandate -/

/-- The time `gate_cli` reads. -/
def cliTime (H : EngineHost) (args : DecideArgs) : Option UInt64 :=
  orDefault 0 jsonAmount (cliNow H args).toJson

/-- What `gate_cli` reads of the arguments. -/
theorem jsonCliReq_cliInput {H : EngineHost} {args : DecideArgs} {req : CliReq} :
    jsonCliReq (cliInput H args) = some req ↔
      jsonAction args.action.toJson = some req.action ∧
      jsonMandate args.mandate.toJson = some req.mandate ∧ cliTime H args = some req.nowSecs ∧
      jsonOption jsonBinding (args.credential.ifUndefined .null).toJson = some req.credential ∧
      jsonOption jsonText (args.idempotencyKey.ifUndefined .null).toJson =
        some req.idempotencyKey := by
  have hget : ∀ name, (cliInput H args).get? name =
      ((Value.object (cliMembers H args)).get? name).toJson := get?_toJson (by simp [cliMembers])
  simp only [jsonCliReq, hget, Option.bind_eq_bind, Option.bind_eq_some_iff]
  constructor
  · rintro ⟨action, h₁, mandate, h₂, nowSecs, h₃, credential, h₄, key, h₅, h⟩
    cases h
    exact ⟨h₁, h₂, h₃, h₄, h₅⟩
  · rintro ⟨h₁, h₂, h₃, h₄, h₅⟩
    exact ⟨_, h₁, _, h₂, _, h₃, _, h₄, _, h₅, rfl⟩

/-- The component reads the same action and the same mandate. -/
theorem jsonEvaluateReq_evaluateInput {args : DecideArgs} {a : Gate.Action} {m : Mandate}
    (ha : jsonAction args.action.toJson = some a) (hm : jsonMandate args.mandate.toJson = some m) :
    jsonEvaluateReq (evaluateInput args) = some ⟨a, some m⟩ := by
  have hmembers : evaluateMembers args = [("action", args.action), ("mandate", args.mandate)] :=
    if_pos (truthy_of_jsonMandate hm)
  have hget : ∀ name, (evaluateInput args).get? name =
      ((Value.object (evaluateMembers args)).get? name).toJson :=
    get?_toJson (by simp [hmembers])
  have haction : jsonAction ((evaluateInput args).get? "action") = some a := by
    rw [hget, hmembers]
    exact ha
  have hmandate : jsonOption jsonMandate ((evaluateInput args).get? "mandate") = some (some m) := by
    rw [hget, hmembers]
    exact jsonOption_of_read rfl rfl hm
  rw [jsonEvaluateReq, haction, hmandate]
  rfl

/-- With a mandate in the request the component runs `decide` on it. -/
theorem run_evaluate_inline (C : Crates) (H : EngineHost) (a : Gate.Action) (m : Mandate)
    (t : UInt64) :
    ∃ tenantDid, (run (localAnswers H t) (evaluateWasm C ⟨a, some m⟩)).2 =
      .ok (buildDecision C a m t "inline" tenantDid) := ⟨_, rfl⟩

/-- A credential and a key that the component lets pass are none to `gate_cli` either. -/
theorem unsupplied_of_falsy {H : EngineHost} {args : DecideArgs} {req : CliReq}
    (h : jsonCliReq (cliInput H args) = some req) (hcredential : args.credential.truthy = false)
    (hkey : args.idempotencyKey.truthy = false) :
    req.credential = none ∧ trimmedKey req.idempotencyKey = none := by
  obtain ⟨_, _, _, hc, hk⟩ := jsonCliReq_cliInput.mp h
  constructor
  · rcases jsonOption_cases hc with hnone | ⟨b, _, hb⟩
    · exact hnone
    · have htrue := truthy_of_jsonBinding hb
      cases hv : args.credential with
      | undefined =>
        rw [hv] at htrue
        cases htrue
      | _ =>
        rw [hv] at htrue hcredential
        exact absurd (htrue.symm.trans hcredential) Bool.noConfusion
  · rcases jsonOption_cases hk with hnone | ⟨s, hs, htext⟩
    · rw [hnone]
      rfl
    · have hstring := jsonText_toJson htext
      -- a text that is not truthy is empty
      cases hv : args.idempotencyKey with
      | string s' =>
        rw [hv] at hstring hkey
        cases hstring
        have hempty : s = "" := by simpa [Value.truthy] using hkey
        rw [hs, hempty]
        rfl
      | _ =>
        rw [hv] at hstring
        cases hstring

/-! ## What each engine answers -/

section
variable {C : Crates} {H : EngineHost} {args : DecideArgs} {a : Gate.Action} {m : Mandate}
  {t : UInt64}

/-- The answer of `gate_cli` to a question without a credential and a key. -/
theorem decideWith_cli (ha : jsonAction args.action.toJson = some a)
    (hm : jsonMandate args.mandate.toJson = some m) (ht : cliTime H args = some t)
    (hc : args.credential = .undefined) (hk : args.idempotencyKey = .undefined)
    (hbuilt : H.cliBuilt = true) (hanswers : H.cliAnswers = true) :
    ∃ out, decideWith C H (.string "gate_cli") args = .ok (withCliName (cliValue out)) ∧
      out.decision = verdictText ((Gate.decide C a m t).2 ++ demands m) := by
  have hreq : jsonCliReq (cliInput H args) = some ⟨a, m, t, none, none⟩ :=
    jsonCliReq_cliInput.mpr ⟨ha, hm, ht, by rw [hc]; rfl, by rw [hk]; rfl⟩
  obtain ⟨out, hout, hreasons, hdecision⟩ :=
    @gateCli_unsupplied C ⟨a, m, t, none, none⟩ rfl rfl
  have hprints : decideCli C H args = .ok (cliValue out) := by
    unfold decideCli cliPrints
    rw [if_pos hanswers, hreq]
    dsimp only
    rw [hout]
  refine ⟨out, ?_, by rw [hdecision, hreasons]⟩
  show (if H.cliBuilt then (decideCli C H args).map withCliName else _) = _
  rw [if_pos hbuilt, hprints]
  rfl

/-- The answer of the component to a question without a credential and a key. -/
theorem decideWith_component (ha : jsonAction args.action.toJson = some a)
    (hm : jsonMandate args.mandate.toJson = some m) (ht : hostNow H args = .ok t)
    (hc : args.credential = .undefined) (hk : args.idempotencyKey = .undefined) :
    ∃ d, decideWith C H (.string "component") args = .ok (componentVerdict d) ∧
      d.decision = verdictText (Gate.decide C a m t).2 := by
  obtain ⟨tenantDid, hrun⟩ := run_evaluate_inline C H a m t
  refine ⟨buildDecision C a m t "inline" tenantDid, ?_, rfl⟩
  show (if args.credential.truthy || args.idempotencyKey.truthy then _
    else decideComponent C H args) = _
  rw [hc, hk, if_neg (by decide)]
  unfold decideComponent
  rw [jsonEvaluateReq_evaluateInput ha hm]
  refine bind_eq_ok.mpr ⟨t, ht, ?_⟩
  rw [hrun]
  rfl

end

/-! ## Agreement -/

/-- The engines are asked the same thing: the mandate requires nothing beside the action, and
the times they read are one time, or both in the mandate's window. -/
def SameQuestion (H₁ H₂ : EngineHost) (args : DecideArgs) : Prop :=
  ∃ m t u, jsonMandate args.mandate.toJson = some m ∧ cliTime H₁ args = some t ∧
    hostNow H₂ args = .ok u ∧ m.requireCredential = false ∧ m.requireIdempotencyKey = false ∧
    (t = u ∨ (InWindow m t ∧ InWindow m u))

theorem decided_eq_iff {out : CliOut} {d : Decision} (h₁ : out.decision = verdictText out.reasons)
    (h₂ : d.decision = verdictText d.reasons) :
    decided (withCliName (cliValue out)) = decided (componentVerdict d) ↔
      out.reasons = d.reasons := by
  have hinj : Function.Injective Value.string := fun _ _ h => Value.string.inj h
  rw [decided_cli, decided_component, Prod.mk.injEq, Value.array.injEq,
    (List.map_injective_iff.mpr hinj).eq_iff]
  constructor
  · exact fun h => h.2
  · intro h
    rw [h₁, h₂, h]
    exact ⟨rfl, rfl⟩

/-- Whenever `gate_cli` and the component both answer with a verdict, whichever engine was asked
for and on whichever hosts, the verdicts are the same exactly when the engines were asked the
same thing. -/
theorem engines_agree_iff (C : Crates) {H₁ H₂ : EngineHost} {engine₁ engine₂ v₁ v₂ : Value}
    {args : DecideArgs} (h₁ : decideWith C H₁ engine₁ args = .ok v₁) (hv : IsVerdict v₁)
    (he₁ : AnsweredBy "gate_cli" v₁) (h₂ : decideWith C H₂ engine₂ args = .ok v₂)
    (he₂ : AnsweredBy "component" v₂) : decided v₁ = decided v₂ ↔ SameQuestion H₁ H₂ args := by
  obtain ⟨req, out, hreq, hout, rfl⟩ := cli_of_decideWith h₁ hv he₁
  obtain ⟨hcredential, hkey, req', u, d, hreq', hnow, hd, rfl⟩ := component_of_decideWith h₂ he₂
  obtain ⟨haction, hmandate, htime, _, _⟩ := jsonCliReq_cliInput.mp hreq
  -- the component decides on what `gate_cli` read
  rw [jsonEvaluateReq_evaluateInput haction hmandate] at hreq'
  obtain rfl := Option.some.inj hreq'
  obtain ⟨tenantDid, hrun⟩ := run_evaluate_inline C H₂ req.action req.mandate u
  obtain rfl := Except.ok.inj (hd.symm.trans hrun)
  obtain ⟨hc, hk⟩ := unsupplied_of_falsy hreq hcredential hkey
  obtain ⟨out', hout', hreasons, hdecision⟩ := gateCli_unsupplied C hc hk
  obtain rfl := Except.ok.inj (hout.symm.trans hout')
  rw [decided_eq_iff hdecision rfl, hreasons]
  show _ = (Gate.decide C req.action req.mandate u).2 ↔ _
  rw [reasons_eq_iff, demands_eq_nil]
  constructor
  · rintro ⟨⟨hcred, hidem⟩, htimes⟩
    exact ⟨req.mandate, req.nowSecs, u, hmandate, htime, hnow, hcred, hidem, htimes⟩
  · rintro ⟨m, t, u', hm, ht, hu, hcred, hidem, htimes⟩
    obtain rfl := Option.some.inj (hmandate.symm.trans hm)
    obtain rfl := Option.some.inj (htime.symm.trans ht)
    obtain rfl := Except.ok.inj (hnow.symm.trans hu)
    exact ⟨⟨hcred, hidem⟩, htimes⟩

/-! ## Samples -/

def sampleEngineHost : EngineHost where
  cliBuilt := true
  buildHint := "cargo build --bin gate_cli --release"
  cliAnswers := true
  cliFailure := .error "gate_cli produced no output"
  cliError := fun _ => "missing field"
  evaluateError := fun _ => "missing field"
  trap := .error "unreachable"
  kv := fun _ _ => none
  clock := 1_800_000_000

/-- The sample trade at a fixed time, under limits with these further members. -/
def tradeArgs (further : List (String × Value)) : DecideArgs where
  action := sampleTrade
  mandate := .object
    ([("max_amount_cents", .number (Number.ofNat 500)), ("allowed_assets", .array [.string "*"]),
      ("allowed_kinds", .array [.string "trade"])] ++ further)
  nowSecs := .number (Number.ofNat 1_700_000_000)
  credential := .undefined
  idempotencyKey := .undefined

/-- The limits of the sample trade as the gate reads them. -/
def tradeLimits (requireCredential : Bool) : Mandate where
  maxAmountCents := 500
  allowedAssets := ["*"]
  allowedKinds := ["trade"]
  allowedCounterparties := []
  allowedIssuers := []
  counterpartyLimits := []
  expiresAtSecs := 0
  validAfterSecs := 0
  credentialKey := ""
  requireCredential := requireCredential
  requireIdempotencyKey := false

theorem jsonMandate_tradeArgs :
    jsonMandate (tradeArgs []).mandate.toJson = some (tradeLimits false) ∧
      jsonMandate (tradeArgs [("require_credential", .bool true)]).mandate.toJson =
        some (tradeLimits true) := by decide +kernel

theorem jsonAction_tradeArgs (further : List (String × Value)) :
    jsonAction (tradeArgs further).action.toJson = some Gate.sampleAction := jsonAction_sampleTrade

theorem times_tradeArgs (further : List (String × Value)) :
    cliTime sampleEngineHost (tradeArgs further) = some 1_700_000_000 ∧
      hostNow sampleEngineHost (tradeArgs further) = .ok 1_700_000_000 := by
  constructor
  · show orDefault 0 jsonAmount (.number (Number.ofNat 1_700_000_000)) = _
    decide +kernel
  · show (do
      let n ← (Value.number (Number.ofNat 1_700_000_000)).toBigInt
      return toUint64 n : Except Error UInt64) = _
    decide +kernel

theorem decide_tradeLimits (requireCredential : Bool) :
    (Gate.decide sampleCrates Gate.sampleAction (tradeLimits requireCredential)
      1_700_000_000).2 = [] := by
  cases requireCredential <;> decide

/-- A mandate that requires nothing beside the action gets one verdict from both engines. -/
theorem engines_agree_sample :
    ∃ v₁ v₂, decideWith sampleCrates sampleEngineHost (.string "gate_cli") (tradeArgs []) = .ok v₁ ∧
      decideWith sampleCrates sampleEngineHost (.string "component") (tradeArgs []) = .ok v₂ ∧
      decided v₁ = decided v₂ := by
  obtain ⟨htime, hnow⟩ := times_tradeArgs []
  obtain ⟨out, hcli, _⟩ := @decideWith_cli sampleCrates sampleEngineHost (tradeArgs []) _ _ _
    (jsonAction_tradeArgs []) jsonMandate_tradeArgs.1 htime rfl rfl rfl rfl
  obtain ⟨d, hcomponent, _⟩ := @decideWith_component sampleCrates sampleEngineHost (tradeArgs []) _
    _ _ (jsonAction_tradeArgs []) jsonMandate_tradeArgs.1 hnow rfl rfl
  refine ⟨_, _, hcli, hcomponent, ?_⟩
  refine (engines_agree_iff sampleCrates hcli ?_ rfl hcomponent rfl).mpr ?_
  · exact fun h => Value.noConfusion h
  · exact ⟨_, _, _, jsonMandate_tradeArgs.1, htime, hnow, rfl, rfl, .inl rfl⟩

/-- A mandate that requires a credential: asked without one, `gate_cli` rejects the trade and
the component approves it. -/
theorem required_credential_overlooked :
    ∃ v₁ v₂, decideWith sampleCrates sampleEngineHost (.string "gate_cli")
        (tradeArgs [("require_credential", .bool true)]) = .ok v₁ ∧
      decideWith sampleCrates sampleEngineHost (.string "component")
        (tradeArgs [("require_credential", .bool true)]) = .ok v₂ ∧
      v₁.get? "decision" = .string "rejected" ∧ v₂.get? "decision" = .string "approved" := by
  obtain ⟨htime, hnow⟩ := times_tradeArgs [("require_credential", .bool true)]
  obtain ⟨out, hcli, hrejected⟩ := @decideWith_cli sampleCrates sampleEngineHost _ _ _ _
    (jsonAction_tradeArgs _) jsonMandate_tradeArgs.2 htime rfl rfl rfl rfl
  obtain ⟨d, hcomponent, happroved⟩ := @decideWith_component sampleCrates sampleEngineHost _ _ _ _
    (jsonAction_tradeArgs _) jsonMandate_tradeArgs.2 hnow rfl rfl
  rw [decide_tradeLimits] at hrejected happroved
  exact ⟨_, _, hcli, hcomponent, congrArg Value.string hrejected,
    congrArg Value.string happroved⟩

end Gatekeeper.Agent
