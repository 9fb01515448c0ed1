import Gatekeeper.Agent.Provisioning

/-!
# The mandate that provisioning seeds

`MANDATE` is evaluated when `lib.mjs` is imported, before `connect` loads `agent/.env`. So the
issuers it trusts and whether it names the broker's credential come from the environment the
process was started with; only the credential itself comes from the file.
-/

namespace Gatekeeper.Agent

open Encoding Interaction Js Gate

/-! ## What the contract reads of it -/

/-- The mandate that a text of `mandateNaming` holds. -/
def namingMandate (issuers : List String) (key : String) : Mandate where
  maxAmountCents := 500000
  allowedAssets := ["USDC", "USD"]
  allowedKinds := ["rwa.buy"]
  allowedCounterparties := []
  allowedIssuers := issuers
  counterpartyLimits := []
  expiresAtSecs := 0
  validAfterSecs := 0
  credentialKey := key
  requireCredential := true
  requireIdempotencyKey := true

/-- The mandate that the text of `MANDATE` holds. -/
def mandateOfEnv (env : Env) : Mandate :=
  namingMandate (trustedIssuers env) (if env.has "BROKER_API_KEY" then credentialKey else "")

theorem jsonElements_strings (ss : List String) :
    jsonElements (ss.map Value.string) = ss.map Value.string := by
  induction ss with
  | nil => rfl
  | cons s ss ih => exact congrArg (Value.string s :: ·) ih

theorem jsonTexts_strings (ss : List String) :
    jsonTexts (.array (ss.map Value.string)) = some ss := by
  show (ss.map Value.string).mapM jsonText = some ss
  induction ss with
  | nil => rfl
  | cons s ss ih =>
    rw [List.map_cons, List.mapM_cons, ih]
    rfl

theorem toJson_mandateNaming (issuers : List String) (key : String) :
    (mandateNaming issuers key).toJson = mandateNaming issuers key := by
  have hissuers := jsonElements_strings issuers
  simp only [mandateNaming, Value.toJson, jsonMembers, jsonElements, hissuers, wholeNumber]

theorem jsonMandate_mandateNaming (issuers : List String) (key : String) :
    jsonMandate (mandateNaming issuers key).toJson = some (namingMandate issuers key) := by
  rw [toJson_mandateNaming, mandateNaming]
  have hissuers : orDefault [] jsonTexts (.array (issuers.map Value.string)) = some issuers :=
    jsonTexts_strings issuers
  have hamount : jsonAmount (wholeNumber 500000 (by decide)) = some 500000 := by decide
  have hnever : orDefault 0 jsonAmount (wholeNumber 0 (by decide)) = some 0 := by decide
  generalize issuers.map Value.string = xs at hissuers ⊢
  generalize wholeNumber 500000 _ = a at hamount ⊢
  generalize wholeNumber 0 _ = b at hnever ⊢
  unfold jsonMandate
  show (jsonAmount a >>= _) = _
  rw [hamount]
  show (orDefault [] jsonTexts (.array xs) >>= _) = _
  rw [hissuers]
  show (orDefault 0 jsonAmount b >>= _) = _
  rw [hnever]
  rfl

theorem jsonMandate_defaultMandate (env : Env) :
    jsonMandate (defaultMandate env).toJson = some (mandateOfEnv env) :=
  jsonMandate_mandateNaming _ _

/-! ## Orders under it -/

/-- Whenever the run reads the mandate, it is answered with this text. -/
def ReadsMandate (text : String) (t : List HostEvent) : Prop :=
  ∀ tidHex a, (⟨.kvGet (mandateMap tidHex) (utf8 "default"), a⟩ : HostEvent) ∈ t →
    a = .ok (some (utf8 text))

/-- What holds of a request that leaves the enclave under the seeded mandate. -/
structure Governed (C : Crates) (imported : Env) (req : ExecuteReq) (request : Request) :
    Prop where
  amount : req.action.amountCents ≤ 500000
  kind : Listed ["rwa.buy"] req.action.kind
  asset : Listed ["USDC", "USD"] req.action.asset
  issuer : trustedIssuers imported ≠ [] →
    ∃ iss, req.action.issuer = some iss ∧ Listed (trustedIssuers imported) iss
  bound : ∃ b, req.credential = some b ∧ Binds C b req.action
  key : ∃ k, trimmedKey req.idempotencyKey = some k
  headers : request.headers ≠ none ↔ imported.has "BROKER_API_KEY" = true

theorem headers_of_mandateOfEnv {env : Env} {tidHex : String} {t : List HostEvent}
    {headers : Option (List (String × String))}
    (h : Emits (outboundHeaders tidHex (mandateOfEnv env)) t (.ok headers)) :
    headers ≠ none ↔ env.has "BROKER_API_KEY" = true := by
  have hkey : (mandateOfEnv env).credentialKey ≠ "" ↔ env.has "BROKER_API_KEY" = true := by
    show (if env.has "BROKER_API_KEY" = true then credentialKey else "") ≠ "" ↔ _
    split_ifs with hhas
    · simp [hhas, credentialKey]
    · simp [hhas]
  rw [← hkey]
  rcases emits_outboundHeaders h with ⟨hnone, -, hr⟩ | ⟨hsome, a, -, hr⟩
  · cases hr
    simp [hnone]
  · obtain ⟨v, -, -, hheaders⟩ := (credential_ok_iff hsome).mp hr.symm
    simp [hsome, hheaders]

theorem governed_of_dispatched {C : Crates} {env : Env} {req : ExecuteReq} {text : String}
    {t : List HostEvent} {r : Except Fault ExecuteOut} {request : Request}
    (h : Dispatched C req t r) (hparse : C.mandateFromSlice (utf8 text) = .ok (mandateOfEnv env))
    (hread : ReadsMandate text t) (hmem : request ∈ outboundCalls t) :
    Governed C env req request := by
  cases h with
  | @intro tid nowSecs a mandate v t₁ t₂ headers e o t₃ l hj happ hnone hemits he hrec hl =>
    have hanswer := hread (hexEncode tid) a (by simp [opening])
    obtain rfl : mandateOfEnv env = mandate := by
      have hmandate := hj.read
      rw [hanswer, mandateOf, hparse] at hmandate
      exact Except.ok.inj hmandate
    rw [outboundCalls_dispatch hnone hemits he hrec hl] at hmem
    obtain rfl := List.mem_singleton.mp hmem
    have hpasses := (assess_approved_iff hj.verdict).mp happ
    obtain ⟨k, hk⟩ := hpasses.key
    refine ⟨hpasses.permitted.amount, hpasses.permitted.kind, hpasses.permitted.asset,
      hpasses.permitted.issuer, ?_, ?_, headers_of_mandateOfEnv hemits⟩
    · cases hcredential : req.credential with
      | none =>
        have hbinding := hpasses.binding
        rw [hcredential] at hbinding
        cases checkBinding_none.mp hbinding
      | some b =>
        have hbinding := hpasses.binding
        rw [hcredential] at hbinding
        exact ⟨b, rfl, checkBinding_some.mp hbinding⟩
    · cases htrimmed : trimmedKey req.idempotencyKey with
      | none =>
        rw [checkIdempotency, htrimmed] at hk
        cases hk
      | some k => exact ⟨k, rfl⟩

/-! ## Sessions of runs -/

/-- After any runs, what is sealed is the broker's key as some run loaded it, and the mandate is
the one of a run's starting environment: under it, every order the contract sends is within its
limits, and carries the sealed key exactly if the key was set when that run started. -/
theorem seeded_mandate_governs
    {is : List (Invocation ControlOp ControlOp.Res Error Unit SetupRun)} {s : Tenant}
    (h : SetupSession Tenant.empty is s) :
    (∀ key value, s.entries "secrets" key = some value → key = credentialKey ∧
      ∃ i ∈ is, ∃ env, loadEnv i.request.file i.request.imported = .ok env ∧
        env "BROKER_API_KEY" = some value ∧ value ≠ "") ∧
    ∀ text, s.entries "mandate" "default" = some text → ∃ i ∈ is, ∃ m,
      text = (defaultMandate i.request.imported).json ∧
      jsonMandate (defaultMandate i.request.imported).toJson = some m ∧
      ∀ C req t r request, C.mandateFromSlice (utf8 text) = .ok m →
        Emits (executeActionWasm C req) t r → ReadsMandate text t →
        request ∈ outboundCalls t → Governed C i.request.imported req request := by
  refine ⟨fun key value hvalue => ?_, fun text htext => ?_⟩
  · rcases Cell.session_origin (c := entryCell "secrets" key (by decide)) h
      (fun _ _ => read_entryCell) hvalue with hempty | ⟨i, hi, e, he, hwrites⟩
    · cases hempty
    · rcases entry_of_setup (h.emits_of_mem hi) he hwrites with ⟨hmap, -⟩ | ⟨-, hkey, hloaded⟩
      · exact absurd hmap (by decide)
      · obtain ⟨env, henv, hhas, hv⟩ := hloaded
        refine ⟨hkey, i, hi, env, henv, hv, ?_⟩
        rw [Env.has, hv] at hhas
        simpa using hhas
  · rcases Cell.session_origin (c := entryCell "mandate" "default" (by decide)) h
      (fun _ _ => read_entryCell) htext with hempty | ⟨i, hi, e, he, hwrites⟩
    · cases hempty
    · rcases entry_of_setup (h.emits_of_mem hi) he hwrites with ⟨-, -, rfl⟩ | ⟨hmap, -⟩
      · refine ⟨i, hi, _, rfl, jsonMandate_defaultMandate _, ?_⟩
        intro C req t r request hparse hemits hread hmem
        have hcall : outboundCalls t ≠ [] := List.ne_nil_of_mem hmem
        exact governed_of_dispatched (dispatched_of_emits hemits hcall) hparse hread hmem
      · exact absurd hmap (by decide)

/-! ## The sample run -/

def seededText : String := (defaultMandate sampleSetupRun.imported).json

def seededCrates : Crates :=
  cratesWith [(utf8 seededText, mandateOfEnv sampleSetupRun.imported)]

/-- A host that holds the seeded mandate, and nothing under another key. -/
def seededAnswers : Answers
  | .tenantDid => sampleTid
  | .clusterTimestampSecs => 1_700_000_000
  | .kvGet _ key => .ok (if key = utf8 "default" then some (utf8 seededText) else none)
  | .kvPut _ _ _ => .ok ()
  | .httpCall _ => .ok ⟨200, utf8 "done"⟩
  | .hwpCall _ => .ok ⟨200, utf8 "done"⟩
  | .logInfo _ => .ok ()

def seededAction : Gate.Action where
  kind := rwaBuy
  asset := usdc
  amountCents := 250000
  counterparty := none
  issuer := sampleAction.issuer

def seededOrder : ExecuteReq where
  action := seededAction
  url := "https://broker.example/v1/orders"
  method := "post"
  body := "buy 1"
  credential := some (bindingFor seededCrates Gate.sampleNonce seededAction)
  idempotencyKey := some "k-1"

theorem admits_seededOrder :
    Admits seededCrates seededAnswers seededOrder (mandateOfEnv sampleSetupRun.imported) where
  parses := by
    have hanswer : seededAnswers
        (.kvGet (mandateMap seededAnswers.tidHex) (utf8 "default")) =
        .ok (some (utf8 seededText)) := congrArg Except.ok (if_pos rfl)
    rw [Answers.mandate, hanswer]
    simp [mandateOf, seededCrates, cratesWith]
  passes := by
    refine ⟨⟨.inl rfl, .inl rfl, .inr (by decide), .inr (by decide), ?_, ?_, by decide, ?_⟩, ?_, ?_⟩
    · exact fun h => absurd rfl h
    · exact fun h => absurd (by decide) h
    · intro cp limit hcp
      cases hcp
    · exact checkBinding_some.mpr (binds_bindingFor (by decide) rfl)
    · exact ⟨some "k-1", by decide⟩
  fresh := by
    intro k hk
    obtain rfl : "k-1" = k := Option.some.inj hk
    show recordOf (.ok (if _ then _ else _)) = none
    rw [if_neg (by decide)]
    rfl
  credential := fun h => absurd (by decide) h

/-- The key is sealed, but the mandate does not name it: the order goes out without. -/
theorem seeded_mandate_governs_sample :
    ∃ request, outboundCalls (run seededAnswers (executeActionWasm seededCrates seededOrder)).1 =
        [request] ∧
      Governed seededCrates sampleSetupRun.imported seededOrder request ∧ request.headers = none ∧
      (invoke sampleControl setup sampleSetupRun Tenant.empty).2.entries "secrets" credentialKey =
        some "key" := by
  have hsession : SetupSession Tenant.empty [sampleSetup] _ :=
    session_invoke controlPlane_sampleControl contractRuns setup sampleSetupRun Tenant.empty
  obtain ⟨i, hi, m, -, hm, hgoverns⟩ := (seeded_mandate_governs hsession).2 seededText rfl
  obtain rfl := List.mem_singleton.mp hi
  rw [jsonMandate_defaultMandate] at hm
  obtain rfl := Option.some.inj hm
  have hemits := emits_run seededAnswers (executeActionWasm seededCrates seededOrder)
  have hagrees := agrees_run seededAnswers (executeActionWasm seededCrates seededOrder)
  have hsent := (execution_of_emits hemits).dispatched_of_admits hagrees admits_seededOrder
  obtain ⟨headers, hcalls⟩ := hsent.one_call
  have hread : ReadsMandate seededText
      (run seededAnswers (executeActionWasm seededCrates seededOrder)).1 := by
    intro tidHex a ha
    have hanswer : a = seededAnswers (.kvGet (mandateMap tidHex) (utf8 "default")) := hagrees _ ha
    rw [hanswer]
    exact congrArg Except.ok (if_pos rfl)
  have hparse : seededCrates.mandateFromSlice (utf8 seededText) =
      .ok (mandateOfEnv sampleSetupRun.imported) := by
    simp [seededCrates, cratesWith]
  have hgoverned := hgoverns _ _ _ _ _ hparse hemits hread (hcalls ▸ List.mem_singleton_self _)
  refine ⟨_, hcalls, hgoverned, ?_, rfl⟩
  by_contra hheaders
  exact absurd (hgoverned.headers.mp hheaders) (by decide)

end Gatekeeper.Agent
