import Gatekeeper.Agent.SeededMandate

/-!
# `prove-enclave.mjs`

The script seals a secret of its own, seeds a mandate that names it, runs its checks against the
enclave and seeds the default mandate again in its `finally`. What it leaves behind is followed
through sessions of it and of `setup.mjs`.
-/

namespace Gatekeeper.Agent

open Encoding Interaction Js Gate

/-! ## The checks -/

/-- What a run starts with, and what it draws: the secret, the bindings and the keys. -/
structure ProofRun where
  imported : Env
  file : String
  secret : String
  credentials : ℕ → CredentialBinding
  keys : ℕ → String

/-- `ACTION`. -/
def proofAction : Gate.Action where
  kind := rwaBuy
  asset := usdc
  amountCents := 100000
  counterparty := none
  issuer := none

def actionText : String :=
  "\x7b\"kind\":\"rwa.buy\",\"asset\":\"USDC\",\"amount_cents\":100000\x7d"

def bearerUrl : String := "https://httpbin.org/bearer"

def echoUrl : String := "https://postman-echo.com/post"

/-- `JSON.stringify({ investor: "{{profile.first_name}}", order: ACTION })`. -/
def profileBody : String :=
  "\x7b\"investor\":\"\x7b\x7bprofile.first_name\x7d\x7d\",\"order\":" ++ actionText ++ "\x7d"

def unknownBody : String := "\x7b\"investor\":\"\x7b\x7bprofile.no_such_field_xyz\x7d\x7d\"\x7d"

def ProofRun.order (run : ProofRun) (n : ℕ) (key url method body : String) : ExecuteReq where
  action := proofAction
  url := url
  method := method
  body := body
  credential := some (run.credentials n)
  idempotencyKey := some key

/-- A member of an answer. -/
def member (name : String) : Json.Value → Option Json.Value
  | .object ms => ms.lookup name
  | _ => none

/-- `response?.code === code`. -/
def hasCode (code : UInt64) (response : Option Json.Value) : Bool :=
  match response.bind (member "code") with
  | some (.number n) => n == .posInt code
  | _ => false

/-- `response?.ok === b`. -/
def isOk (b : Bool) (response : Option Json.Value) : Bool :=
  match response.bind (member "ok") with
  | some (.bool b') => b' == b
  | _ => false

/-- `/placeholder_(unknown|denied)/.test(String(response?.error))`. -/
def hasPlaceholderError (response : Option Json.Value) : Bool :=
  match response.bind (member "error") with
  | some (.string e) =>
    Text.contains e "placeholder_unknown" || Text.contains e "placeholder_denied"
  | _ => false

def viaPlaceholders (out : ExecuteOut) : Bool := out.dispatchVia == some "http-with-placeholders"

def refused (bare : Json.Value) : Bool := isOk true (some bare) && hasCode 401 (some bare)

def accepted (out : ExecuteOut) : Bool :=
  out.decision == "approved" && out.dispatched && hasCode 200 out.response

def substituted (out : ExecuteOut) : Bool :=
  viaPlaceholders out && isOk true out.response && hasCode 200 out.response

def unsubstituted (out : ExecuteOut) : Bool :=
  viaPlaceholders out && isOk false out.response && hasPlaceholderError out.response

def dispatchedFirst (out : ExecuteOut) : Bool :=
  out.dispatched && out.replayed != some true && hasCode 200 out.response

def replayedOnly (out : ExecuteOut) : Bool := !out.dispatched && out.replayed == some true

/-- `JSON.stringify(retry.response) === JSON.stringify(first.response)`. -/
def sameOutcome (first retry : ExecuteOut) : Bool :=
  retry.response.map Json.print == first.response.map Json.print

/-! ## The script -/

/-- `check`. -/
def tally (failed : ℕ) (pass : Bool) : ℕ := if pass then failed else failed + 1

/-- The `try` of the script while it runs: it ends with `failed`, one way or the other. -/
abbrev Checking (α : Type) : Type := Prog ControlOp ControlOp.Res ℕ α

/-- A call that throws is one more failure. -/
def orFailed {α : Type} (failed : ℕ) (answer : Except Thrown α) : Checking α :=
  Prog.ofExcept (answer.mapError fun _ => failed + 1)

def proofChecks (run : ProofRun) : Checking ℕ := do
  let answer ← Prog.perform (.dispatchAction ⟨bearerUrl, "GET", ""⟩)
  let bare ← orFailed 0 answer
  let failed := tally 0 (refused bare)
  let answer ← Prog.perform (.executeAction (run.order 0 (run.keys 0) bearerUrl "GET" ""))
  let authed ← orFailed failed answer
  let failed := tally failed (accepted authed)
  let answer ← Prog.perform (.executeAction (run.order 1 (run.keys 1) echoUrl "POST" profileBody))
  let sent ← orFailed failed answer
  let failed := tally failed (substituted sent)
  let answer ← Prog.perform (.executeAction (run.order 2 (run.keys 2) echoUrl "POST" unknownBody))
  let unknown ← orFailed failed answer
  let failed := tally failed (unsubstituted unknown)
  let answer ← Prog.perform (.executeAction (run.order 3 (run.keys 3) echoUrl "POST" actionText))
  let first ← orFailed failed answer
  let failed := tally failed (dispatchedFirst first)
  let answer ← Prog.perform (.executeAction (run.order 4 (run.keys 3) echoUrl "POST" actionText))
  let retry ← orFailed failed answer
  let failed := tally failed (replayedOnly retry)
  return tally failed (sameOutcome first retry)

/-- `catch` and `finally`: the script goes on with `failed`. -/
def endTry : Checking ℕ → Control ℕ
  | .done (.ok failed) => .done (.ok failed)
  | .done (.error failed) => .done (.ok failed)
  | .call op k => .call op fun x => endTry (k x)

theorem emits_endTry {p : Checking ℕ} {t : List ControlEvent} {r : Except Error ℕ} :
    Emits (endTry p) t r ↔
      ∃ failed, r = .ok failed ∧ (Emits p t (.ok failed) ∨ Emits p t (.error failed)) := by
  induction p generalizing t with
  | done r' =>
    rcases r' with n | n
    · simp only [endTry, emits_done]
      constructor
      · rintro ⟨rfl, rfl⟩
        exact ⟨n, rfl, .inr ⟨rfl, rfl⟩⟩
      · rintro ⟨failed, rfl, ⟨-, h⟩ | ⟨rfl, h⟩⟩
        · cases h
        · cases h
          exact ⟨rfl, rfl⟩
    · simp only [endTry, emits_done]
      constructor
      · rintro ⟨rfl, rfl⟩
        exact ⟨n, rfl, .inl ⟨rfl, rfl⟩⟩
      · rintro ⟨failed, rfl, ⟨rfl, h⟩ | ⟨-, h⟩⟩
        · cases h
          exact ⟨rfl, rfl⟩
        · cases h
  | call op k ih =>
    simp only [endTry, emits_call, ih]
    constructor
    · rintro ⟨x, t', rfl, failed, rfl, h | h⟩
      · exact ⟨failed, rfl, .inl ⟨x, t', rfl, h⟩⟩
      · exact ⟨failed, rfl, .inr ⟨x, t', rfl, h⟩⟩
    · rintro ⟨failed, rfl, ⟨x, t', rfl, h⟩ | ⟨x, t', rfl, h⟩⟩
      · exact ⟨x, t', rfl, failed, rfl, .inl h⟩
      · exact ⟨x, t', rfl, failed, rfl, .inr h⟩

/-- `{ ...MANDATE, credential_key: CREDENTIAL_KEY, .. }`. -/
def proofMandate (env : Env) : Value := mandateNaming (trustedIssuers env) credentialKey

def proofHosts : List String := ["httpbin.org", "postman-echo.com"]

/-- What precedes the `try`: what throws here ends the script, and nothing is restored. -/
def proofOpening (run : ProofRun) : Control Unit := do
  let _ ← Prog.ofExcept (loadEnv run.file run.imported)
  let opened ← Prog.perform .openSession
  Prog.ofExcept opened
  let profile ← Prog.perform .submitUserInput
  Prog.ofExcept profile
  let sealed ← Prog.perform (.entrySet "secrets" credentialKey run.secret)
  Prog.ofExcept sealed
  let seeded ← Prog.perform (.entrySet "mandate" "default" (proofMandate run.imported).json)
  Prog.ofExcept seeded
  let granted ← Prog.perform (.grantEgress proofHosts)
  Prog.ofExcept granted

def proveEnclave (run : ProofRun) : Control ℕ := do
  proofOpening run
  let failed ← endTry (proofChecks run)
  let restored ← Prog.perform (.entrySet "mandate" "default" (defaultMandate run.imported).json)
  Prog.ofExcept restored
  pure failed

/-! ## Its runs -/

/-- The calls up to the seeding of the script's own mandate. -/
def proofOpened (run : ProofRun) : List ControlEvent :=
  [⟨.openSession, .ok ()⟩, ⟨.submitUserInput, .ok ()⟩,
    ⟨.entrySet "secrets" credentialKey run.secret, .ok ()⟩,
    ⟨.entrySet "mandate" "default" (proofMandate run.imported).json, .ok ()⟩]

def egressGranted (x : Except Error Unit) : ControlEvent := ⟨.grantEgress proofHosts, x⟩

/-- The script stops before it asks for egress, or by the answer to that. -/
theorem emits_proofOpening {run : ProofRun} {t : List ControlEvent} {r : Except Error Unit}
    (h : Emits (proofOpening run) t r) :
    ((∃ e, r = .error e) ∧ ∀ x, egressGranted x ∉ t) ∨
      t = proofOpened run ++ [egressGranted r] := by
  rw [proofOpening] at h
  rcases emits_ofExcept_bind.mp h with ⟨e, -, rfl, rfl⟩ | ⟨env, -, hopen⟩
  · exact .inl ⟨⟨e, rfl⟩, fun _ => List.not_mem_nil⟩
  rcases emits_required hopen with ⟨x, e, -, rfl, rfl⟩ | ⟨x, t₁, rfl, rfl, hprofile⟩
  · exact .inl ⟨⟨e, rfl⟩, fun _ => by simp [egressGranted]⟩
  rcases emits_required hprofile with ⟨x, e, -, rfl, rfl⟩ | ⟨x, t₂, rfl, rfl, hsecret⟩
  · exact .inl ⟨⟨e, rfl⟩, fun _ => by simp [egressGranted]⟩
  rcases emits_required hsecret with ⟨x, e, -, rfl, rfl⟩ | ⟨x, t₃, rfl, rfl, hmandate⟩
  · exact .inl ⟨⟨e, rfl⟩, fun _ => by simp [egressGranted]⟩
  rcases emits_required hmandate with ⟨x, e, -, rfl, rfl⟩ | ⟨x, t₄, rfl, rfl, hegress⟩
  · exact .inl ⟨⟨e, rfl⟩, fun _ => by simp [egressGranted]⟩
  obtain ⟨granted, rfl, rfl⟩ := emits_await.mp hegress
  exact .inr rfl

def restores (run : ProofRun) (x : Except Error Unit) : ControlEvent :=
  ⟨.entrySet "mandate" "default" (defaultMandate run.imported).json, x⟩

/-- A run that is granted egress comes to its restore, whatever its checks do. -/
theorem emits_proveEnclave {run : ProofRun} {t : List ControlEvent} {r : Except Error ℕ}
    (h : Emits (proveEnclave run) t r) :
    ((∃ e, r = .error e) ∧ ∀ x, egressGranted x ∉ t) ∨
    (∃ e, r = .error e ∧ t = proofOpened run ++ [egressGranted (.error e)]) ∨
    ∃ t' failed x, t = proofOpened run ++ egressGranted (.ok ()) :: (t' ++ [restores run x]) ∧
      Emits (endTry (proofChecks run)) t' (.ok failed) ∧ r = x.map fun _ => failed := by
  rcases emits_bind.mp h with ⟨e, hopening, rfl⟩ | ⟨⟨⟩, t₁, t₂, rfl, hopening, hrest⟩
  · rcases emits_proofOpening hopening with ⟨-, hnone⟩ | rfl
    · exact .inl ⟨⟨e, rfl⟩, hnone⟩
    · exact .inr (.inl ⟨e, rfl, rfl⟩)
  · rcases emits_proofOpening hopening with ⟨⟨e, he⟩, -⟩ | rfl
    · cases he
    · rcases emits_bind.mp hrest with ⟨e, hchecks, -⟩ | ⟨failed, t', t₃, rfl, hchecks, hrestore⟩
      · obtain ⟨failed, hfailed, -⟩ := emits_endTry.mp hchecks
        cases hfailed
      refine .inr (.inr ⟨t', failed, ?_⟩)
      rcases emits_required hrestore with ⟨x, e, hx, rfl, rfl⟩ | ⟨x, t₄, hx, rfl, hdone⟩
      · obtain rfl : x = .error e := hx
        exact ⟨.error e, by simp [restores], hchecks, rfl⟩
      · obtain rfl : x = .ok () := hx
        obtain ⟨rfl, rfl⟩ := emits_pure.mp hdone
        exact ⟨.ok (), by simp [restores], hchecks, rfl⟩

/-! ## What it writes -/

/-- The checks only call the contract. -/
def CallsContract : ControlOp → Prop
  | .dispatchAction _ => True
  | .executeAction _ => True
  | _ => False

theorem within_endTry {P : ControlOp → Prop} {p : Checking ℕ} (h : Interaction.Within P p) :
    Interaction.Within P (endTry p) := by
  induction p with
  | done r => cases r <;> trivial
  | call op k ih => exact ⟨h.1, fun x => ih x (h.2 x)⟩

theorem callsContract_checks (run : ProofRun) :
    Interaction.Within CallsContract (proofChecks run) := by
  have hcall : ∀ {op : ControlOp} {failed : ℕ} {α : Type} {g : op.Res → Except Thrown α}
      {f : α → Checking ℕ}, CallsContract op → (∀ x, Interaction.Within CallsContract (f x)) →
      Interaction.Within CallsContract
        (Prog.perform op >>= fun answer => orFailed failed (g answer) >>= f) :=
    fun hop hf => within_perform_bind hop fun _ => within_bind (within_ofExcept _) hf
  unfold proofChecks
  refine hcall trivial fun bare => hcall trivial fun authed => hcall trivial fun sent => ?_
  refine hcall trivial fun unknown => hcall trivial fun first => hcall trivial fun retry => ?_
  exact within_pure _

theorem entryWritten_of_checks {run : ProofRun} {t : List ControlEvent} {r : Except Error ℕ}
    (h : Emits (endTry (proofChecks run)) t r) {e : ControlEvent} (he : e ∈ t) (tail key : String) :
    entryWritten tail key e.op = none := by
  have hop := (within_endTry (callsContract_checks run)).of_steps h e he
  obtain ⟨op, x⟩ := e
  cases op with
  | entrySet u k v => exact hop.elim
  | _ => rfl

/-- Egress that is granted is not also refused. -/
theorem not_refused_of_checks {run : ProofRun} {t : List ControlEvent} {r : Except Error ℕ}
    {x : Except Error Unit} (h : Emits (endTry (proofChecks run)) t r) (e : Error) :
    egressGranted (.error e) ∉
      proofOpened run ++ egressGranted (.ok ()) :: (t ++ [restores run x]) := by
  intro hmem
  simp only [proofOpened, egressGranted, restores, List.mem_append, List.mem_cons,
    List.not_mem_nil, or_false, Event.mk.injEq, reduceCtorEq, false_and, false_or, true_and,
    heq_eq_eq] at hmem
  exact (within_endTry (callsContract_checks run)).of_steps h _ hmem

/-! ## Sessions of the two scripts -/

inductive AdminRun where
  | setup (run : SetupRun)
  | prove (run : ProofRun)

/-- A script, and how many of its checks failed. -/
def admin : AdminRun → Control ℕ
  | .setup run => setup run >>= fun _ => pure 0
  | .prove run => proveEnclave run

abbrev AdminInvocation : Type := Invocation ControlOp ControlOp.Res Error ℕ AdminRun

/-- Runs of the two scripts, with calls of the contract in between. -/
abbrev AdminSession : Tenant → List AdminInvocation → Tenant → Prop :=
  Session controlPlane contractRuns admin

section Leaves

variable {is : List AdminInvocation} {i : AdminInvocation} {run : ProofRun} {s : Tenant}
  {tail key value : String}

/-- What stands in an entry after a session that ends with a run of this trace. -/
theorem entries_of_last (htail : tail ∈ adminMaps)
    (h : AdminSession Tenant.empty (is ++ [i]) s) (t₁ : List ControlEvent) {t₂ : List ControlEvent}
    {e : ControlEvent} (ht : i.trace = t₁ ++ e :: t₂)
    (hwrites : entryWritten tail key e.op = some value) (hsure : Succeeded e.op e.res)
    (hafter : ∀ e' ∈ t₂, entryWritten tail key e'.op = none) :
    s.entries tail key = some value := by
  obtain ⟨s₁, s₂, -, halong, hrest⟩ := Cell.session_last h
  rw [ht] at halong
  obtain ⟨u, -, hlast⟩ := along_append.mp halong
  have hsettled : s₂.entries tail key = some value := by
    refine Cell.settles (c := entryCell tail key htail) hlast (fun e' he' => ?_)
      List.mem_cons_self hwrites hsure
    rcases List.mem_cons.mp he' with rfl | he'
    · exact .inr hwrites
    · exact .inl (hafter e' he')
  exact (Cell.read_of_session_nil (c := entryCell tail key htail) hrest
    fun _ _ => read_entryCell).trans hsettled

/-- Whenever the run reads the secret, it is answered with this one. -/
def ReadsSecret (secret : String) (t : List HostEvent) : Prop :=
  ∀ tidHex a, (⟨.kvGet (secretsMap tidHex) (utf8 credentialKey), a⟩ : HostEvent) ∈ t →
    a = .ok (some (utf8 secret))

/-- The header that goes out under a mandate that names the credential, or names none. -/
def bearerUnder (m : Mandate) (secret : String) : Option (List (String × String)) :=
  if m.credentialKey = "" then none else some [("Authorization", s!"Bearer {secret}")]

theorem headers_of_dispatched {C : Crates} {req : ExecuteReq} {text secret : String}
    {m : Mandate} {t : List HostEvent} {r : Except Fault ExecuteOut} {request : Request}
    (h : Dispatched C req t r) (hparse : C.mandateFromSlice (utf8 text) = .ok m)
    (hkey : m.credentialKey = "" ∨ m.credentialKey = credentialKey) (hmandate : ReadsMandate text t)
    (hsecret : ReadsSecret secret t) (hmem : request ∈ outboundCalls t) :
    request.headers = bearerUnder m secret := by
  cases h with
  | @intro tid nowSecs a mandate v t₁ t₂ headers e o t₃ l hj happ hnone hemits he hrec hl =>
    have hanswer := hmandate (hexEncode tid) a (by simp [opening])
    obtain rfl : m = mandate := by
      have hread := hj.read
      rw [hanswer, mandateOf, hparse] at hread
      exact Except.ok.inj hread
    rw [outboundCalls_dispatch hnone hemits he hrec hl] at hmem
    obtain rfl := List.mem_singleton.mp hmem
    rw [bearerUnder]
    rcases emits_outboundHeaders hemits with ⟨hempty, -, hr⟩ | ⟨hnamed, b, rfl, hr⟩
    · cases hr
      rw [if_pos hempty]
      rfl
    · rw [if_neg hnamed]
      obtain ⟨v, hv, -, hheaders⟩ := (credential_ok_iff hnamed).mp hr.symm
      rw [hkey.resolve_left hnamed] at hsecret
      have hanswer := hsecret (hexEncode tid) b (by simp)
      obtain rfl : secret = v := by
        rw [hanswer] at hv
        exact utf8_injective (Option.some.inj (Except.ok.inj hv))
      exact hheaders

/-- The mandate and the secret that stand in the maps, and what an order under them carries. -/
structure LeftWith (mandate : Value) (secret : String) (s : Tenant) : Prop where
  governing : s.entries "mandate" "default" = some mandate.json
  stored : s.entries "secrets" credentialKey = some secret
  orders : ∃ m, jsonMandate mandate.toJson = some m ∧
    ∀ C req t r request, C.mandateFromSlice (utf8 mandate.json) = .ok m →
      Emits (executeActionWasm C req) t r → ReadsMandate mandate.json t → ReadsSecret secret t →
      request ∈ outboundCalls t → request.headers = bearerUnder m secret

/-- The default mandate names the one credential there is, or none. -/
theorem named_or_empty (env : Env) :
    (if env.has "BROKER_API_KEY" = true then credentialKey else "") = "" ∨
      (if env.has "BROKER_API_KEY" = true then credentialKey else "") = credentialKey := by
  split_ifs
  · exact .inr rfl
  · exact .inl rfl

theorem leftWith_of_entries {issuers : List String} {key secret : String}
    (hkey : key = "" ∨ key = credentialKey)
    (hmandate : s.entries "mandate" "default" = some (mandateNaming issuers key).json)
    (hsecret : s.entries "secrets" credentialKey = some secret) :
    LeftWith (mandateNaming issuers key) secret s := by
  refine ⟨hmandate, hsecret, _, jsonMandate_mandateNaming issuers key, ?_⟩
  intro C req t r request hparse hemits hread hreads hmem
  exact headers_of_dispatched (dispatched_of_emits hemits (List.ne_nil_of_mem hmem)) hparse hkey
    hread hreads hmem

/-- Whatever stood there before: a run that ends, with or without failed checks, leaves the
default mandate of its own environment, and one that is refused egress leaves the mandate of its
checks; either way its secret stands in place of the broker's, and goes out with the orders. -/
theorem proof_run_leaves (h : AdminSession Tenant.empty (is ++ [i]) s)
    (hi : i.request = .prove run) :
    (∀ failed, i.result = .ok failed → LeftWith (defaultMandate run.imported) run.secret s) ∧
    ∀ e, egressGranted (.error e) ∈ i.trace →
      LeftWith (proofMandate run.imported) run.secret s := by
  have hemits := h.emits_of_mem (List.mem_append_right is (List.mem_singleton_self i))
  rw [hi] at hemits
  have hfails : ∀ {e : Error}, i.result = .error e → ∀ failed, i.result ≠ .ok failed := by
    intro e he failed hok
    cases he.symm.trans hok
  have hother : ∀ v,
      entryWritten "secrets" credentialKey (.entrySet "mandate" "default" v) = none :=
    fun v => by simp [entryWritten]
  rcases emits_proveEnclave hemits with
    ⟨⟨e, he⟩, hnone⟩ | ⟨e, he, ht⟩ | ⟨t', failed, x, ht, hchecks, hr⟩
  · exact ⟨fun failed hok => (hfails he failed hok).elim,
      fun e hmem => absurd hmem (hnone _)⟩
  · refine ⟨fun failed hok => (hfails he failed hok).elim, fun e' _ => ?_⟩
    refine leftWith_of_entries (.inr rfl) ?_ ?_
    · exact entries_of_last (by decide) h ((proofOpened run).take 3) ht rfl rfl
        (by simp [egressGranted, entryWritten])
    · exact entries_of_last (by decide) h ((proofOpened run).take 2) ht rfl rfl
        (by simp [egressGranted, entryWritten])
  · constructor
    · intro failed' hok
      obtain rfl : x = .ok () := by
        cases x with
        | error e => cases hr.symm.trans hok
        | ok u => rfl
      refine leftWith_of_entries (named_or_empty run.imported) ?_ ?_
      · have hlast : i.trace = (proofOpened run ++ egressGranted (.ok ()) :: t') ++
            restores run (.ok ()) :: [] := by
          rw [ht, List.append_assoc, List.cons_append]
        exact entries_of_last (by decide) h _ hlast rfl rfl (List.forall_mem_nil _)
      · refine entries_of_last (by decide) h ((proofOpened run).take 2) ht rfl rfl ?_
        refine List.forall_mem_cons.mpr ⟨hother _, List.forall_mem_cons.mpr ⟨rfl, ?_⟩⟩
        refine List.forall_mem_append.mpr ⟨fun e he => ?_, List.forall_mem_singleton.mpr (hother _)⟩
        exact entryWritten_of_checks hchecks he "secrets" credentialKey
    · intro e hmem
      rw [ht] at hmem
      exact absurd hmem (not_refused_of_checks hchecks e)

end Leaves

/-! ### A broker's key that is sealed and lost -/

/-- The environment of both scripts, with the broker's key. -/
def brokerEnv : Env := fun name =>
  if name = "T3N_API_KEY" ∨ name = "DID" then some "set"
  else if name = "BROKER_API_KEY" then some "sk-live" else none

def brokerSetup : SetupRun := ⟨brokerEnv, ""⟩

def sampleProofRun : ProofRun where
  imported := brokerEnv
  file := ""
  secret := "sk-test-00"
  credentials := fun _ => bindingFor sampleCrates Gate.sampleNonce proofAction
  keys := fun _ => "order-0"

def sampleAdminRuns : List AdminInvocation × Tenant :=
  runSession sampleControl admin [.setup brokerSetup, .prove sampleProofRun] Tenant.empty

theorem length_sampleAdminRuns : ∃ i j, sampleAdminRuns.1 = [i] ++ [j] ∧
    j.request = .prove sampleProofRun ∧ ∃ failed, j.result = .ok failed :=
  ⟨_, _, rfl, rfl, _, rfl⟩

theorem proof_run_leaves_sample :
    (runSession sampleControl admin [.setup brokerSetup] Tenant.empty).2.entries "secrets"
      credentialKey = some "sk-live" ∧
    LeftWith (defaultMandate brokerEnv) "sk-test-00" sampleAdminRuns.2 := by
  have hsession : AdminSession Tenant.empty sampleAdminRuns.1 sampleAdminRuns.2 :=
    session_runSession controlPlane_sampleControl contractRuns admin _ Tenant.empty
  obtain ⟨i, j, hruns, hj, failed, hfailed⟩ := length_sampleAdminRuns
  rw [hruns] at hsession
  exact ⟨rfl, (proof_run_leaves hsession hj).1 failed hfailed⟩

end Gatekeeper.Agent
