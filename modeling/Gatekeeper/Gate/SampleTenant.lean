import Gatekeeper.Gate.ExecuteTheorems
import Gatekeeper.Lib.Sha256

/-!
# Real crates and a sample tenant

`Crates` with SHA-256 and JSON as they are, the law `serde_json` is relied on for, and one
tenant whose mandate uses every rule: its payees, its issuer, its broker credential.
-/

namespace Gatekeeper.Gate

open Encoding Interaction

/-- What the contract relies on `serde_json` for: a plain value, nested less deep than its
reader allows, is read back from its text. -/
def Crates.RoundTrips (C : Crates) : Prop :=
  ∀ v : Json.Value, v.Plain → v.depth < 128 → C.valueFromStr (C.valueToString v) = some v

/-- SHA-256 and JSON, with the mandates these texts hold. -/
def cratesWith (mandates : List (Bytes × Mandate)) : Crates where
  sha256 := Sha256.sha256
  length_sha256 := Sha256.length_sha256
  mandateFromSlice := fun bytes =>
    match mandates.lookup bytes with
    | some m => .ok m
    | none => .error "expected value at line 1 column 1"
  valueFromStr := Json.parse
  valueToString := Json.print
  escapesInDebug := fun c => c.toNat < 32 || c.toNat == 127

theorem roundTrips_cratesWith (mandates : List (Bytes × Mandate)) :
    (cratesWith mandates).RoundTrips := fun _ hv _ => Json.parse_print hv

/-- Whatever the call answered, its outcome is a plain value. -/
theorem plain_outcomeJson (o : Except String Response) : (outcomeJson o).Plain := by
  cases o with
  | error e =>
    exact ⟨(by decide : List.Pairwise (· < ·) ["error", "ok"]), trivial, trivial, trivial⟩
  | ok resp =>
    exact ⟨(by decide : List.Pairwise (· < ·) ["body_len", "code", "ok"]), trivial, trivial,
      trivial, trivial⟩

theorem depth_outcomeJson (o : Except String Response) : (outcomeJson o).depth < 128 := by
  cases o <;> simp [outcomeJson, Json.Value.depth, Json.depthMembers]

/-- An outcome survives being recorded: written as text, stored as bytes, read back and
parsed. -/
theorem recorded_outcome {C : Crates} (hC : C.RoundTrips) (o : Except String Response) :
    C.valueFromStr (Text.fromUtf8Lossy (utf8 (C.valueToString (outcomeJson o)))) =
      some (outcomeJson o) := by
  rw [Text.fromUtf8Lossy_utf8]
  exact hC _ (plain_outcomeJson o) (depth_outcomeJson o)

/-! ## One tenant -/

def sampleMandateJson : String :=
  "\x7b\"max_amount_cents\":5000,\"allowed_assets\":[\"USDC\"],\"allowed_kinds\":[\"trade\"]," ++
    "\"allowed_counterparties\":[\"fund\"],\"allowed_issuers\":[\"did:web:kyc\"]," ++
    "\"counterparty_limits\":\x7b\"fund\":2500\x7d,\"credential_key\":\"broker\"," ++
    "\"require_credential\":true\x7d"

def sampleMandate : Mandate where
  maxAmountCents := 5000
  allowedAssets := ["USDC"]
  allowedKinds := ["trade"]
  allowedCounterparties := ["fund"]
  allowedIssuers := ["did:web:kyc"]
  counterpartyLimits := [("fund", 2500)]
  expiresAtSecs := 0
  validAfterSecs := 0
  credentialKey := "broker"
  requireCredential := true
  requireIdempotencyKey := false

def sampleCrates : Crates := cratesWith [(utf8 sampleMandateJson, sampleMandate)]

def rstring (s : String) (h : s.utf8ByteSize < 2 ^ 64 := by decide) : RString := ⟨s, h⟩

def sampleAsset : RString := rstring "USDC"

def sampleNonce : RString := rstring "n-1"

def sampleAction : Action where
  kind := rstring "trade"
  asset := sampleAsset
  amountCents := 100
  counterparty := some (rstring "fund")
  issuer := some (rstring "did:web:kyc")

/-- A binding for an action, with the commitment the agent computes. -/
def bindingFor (C : Crates) (nonce : RString) (action : Action) : CredentialBinding :=
  let fields : CredentialBinding := {
    issuer := rstring "did:web:kyc"
    subject := rstring "did:key:alice"
    claimsDigest := rstring "00"
    nonce := nonce
    commitment := rstring "" }
  { fields with
    commitment := ⟨expectedCommitment C fields action, by
      rw [expectedCommitment, sha256Hex, utf8ByteSize_hexEncode, C.length_sha256]
      decide⟩ }

/-- The binding vouches for its action. -/
theorem binds_bindingFor {C : Crates} {nonce : RString} {action : Action}
    (hnonce : nonce.val ≠ "") (hissuer : action.issuer = some (rstring "did:web:kyc")) :
    Binds C (bindingFor C nonce action) action where
  nonce := hnonce
  commitment := rfl
  issuer := by
    intro i hi
    rw [hissuer] at hi
    cases hi
    rfl

def sampleTid : Bytes := [0xab]

def sampleReq : ExecuteReq where
  action := sampleAction
  url := "https://broker.example/orders"
  method := "post"
  body := "buy 1"
  credential := some (bindingFor sampleCrates sampleNonce sampleAction)
  idempotencyKey := some " k-1 "

/-- The sample request with another order in its body. -/
def sampleReqOtherBody : ExecuteReq := { sampleReq with body := "buy 900000" }

/-- The tenant's maps: its mandate, its credential, and no dispatch record. -/
def sampleKv : Kv := fun mapName _ =>
  if mapName = mandateMap "ab" then some (utf8 sampleMandateJson)
  else if mapName = secretsMap "ab" then some (utf8 "s3cret")
  else none

theorem sampleKv_mandate (key : Bytes) :
    sampleKv (mandateMap "ab") key = some (utf8 sampleMandateJson) := if_pos rfl

theorem sampleKv_secrets (key : Bytes) : sampleKv (secretsMap "ab") key = some (utf8 "s3cret") := by
  rw [sampleKv, if_neg (by decide), if_pos rfl]

theorem sampleKv_dispatched (key : Bytes) : sampleKv (dispatchedMap "ab") key = none := by
  rw [sampleKv, if_neg (by decide), if_neg (by decide)]

theorem mandateOf_sample :
    mandateOf sampleCrates (.ok (some (utf8 sampleMandateJson))) = .ok sampleMandate := by
  simp [mandateOf, sampleCrates, cratesWith]

/-- A host that holds these maps and answers every call. -/
def sampleAnswers : Answers
  | .tenantDid => sampleTid
  | .clusterTimestampSecs => 1_700_000_000
  | .kvGet mapName key => .ok (sampleKv mapName key)
  | .kvPut _ _ _ => .ok ()
  | .httpCall _ => .ok ⟨200, utf8 "done"⟩
  | .hwpCall _ => .ok ⟨200, utf8 "done"⟩
  | .logInfo _ => .ok ()

def sampleHeaders : Option (List (String × String)) := some [("Authorization", "Bearer s3cret")]

theorem sampleAnswers_tidHex : sampleAnswers.tidHex = "ab" := by decide

theorem sampleAnswers_mandate : sampleAnswers.mandate sampleCrates = .ok sampleMandate := by
  rw [Answers.mandate, sampleAnswers_tidHex]
  show mandateOf sampleCrates (.ok (sampleKv (mandateMap "ab") (utf8 "default"))) = _
  rw [sampleKv_mandate, mandateOf_sample]

theorem sampleAnswers_secret : sampleAnswers.secret "broker" = .ok (some (utf8 "s3cret")) := by
  rw [Answers.secret, sampleAnswers_tidHex]
  exact congrArg Except.ok (sampleKv_secrets _)

theorem sampleAnswers_record (k : String) : sampleAnswers.record k = none := by
  rw [Answers.record, sampleAnswers_tidHex]
  show recordOf (.ok (sampleKv (dispatchedMap "ab") (utf8 k))) = none
  rw [sampleKv_dispatched]
  rfl

theorem sampleAction_permitted (nowSecs : UInt64) :
    Permits sampleAction sampleMandate nowSecs where
  active := .inl rfl
  unexpired := .inl rfl
  kind := .inr (by decide)
  asset := .inr (by decide)
  counterparty := fun _ => ⟨_, rfl, .inr (by decide)⟩
  issuer := fun _ => ⟨_, rfl, .inr (by decide)⟩
  amount := by decide
  subLimit := by
    intro cp limit hcp hlimit
    cases hcp
    cases hlimit
    decide

/-- The sample action passes with its own binding and any acceptable key. -/
theorem sampleAction_passes {C : Crates} {req : ExecuteReq} {nonce : RString}
    (nowSecs : UInt64) (haction : req.action = sampleAction)
    (hcredential : req.credential = some (bindingFor C nonce sampleAction))
    (hnonce : nonce.val ≠ "") (hkey : ∃ k, checkIdempotency req.idempotencyKey false = .ok k) :
    Passes C req sampleMandate nowSecs where
  permitted := by
    rw [haction]
    exact sampleAction_permitted nowSecs
  binding := by
    rw [haction, hcredential]
    exact checkBinding_some.mpr (binds_bindingFor hnonce rfl)
  key := hkey

/-- So the sample host sends it. -/
theorem sampleAction_dispatched {req : ExecuteReq} {nonce : RString}
    (haction : req.action = sampleAction)
    (hcredential : req.credential = some (bindingFor sampleCrates nonce sampleAction))
    (hnonce : nonce.val ≠ "") (hkey : ∃ k, checkIdempotency req.idempotencyKey false = .ok k) :
    Dispatched sampleCrates req (run sampleAnswers (executeActionWasm sampleCrates req)).1
      (run sampleAnswers (executeActionWasm sampleCrates req)).2 := by
  have hadmits : Admits sampleCrates sampleAnswers req sampleMandate := by
    exact ⟨sampleAnswers_mandate, sampleAction_passes _ haction hcredential hnonce hkey,
      fun k _ => sampleAnswers_record k, fun _ => ⟨"s3cret", sampleAnswers_secret, by decide⟩⟩
  exact (execution_of_emits (emits_run _ _)).dispatched_of_admits (agrees_run _ _) hadmits

/-- With the tenant's credential on it. -/
theorem sampleAction_sent {req : ExecuteReq} {nonce : RString}
    (haction : req.action = sampleAction)
    (hcredential : req.credential = some (bindingFor sampleCrates nonce sampleAction))
    (hnonce : nonce.val ≠ "") (hkey : ∃ k, checkIdempotency req.idempotencyKey false = .ok k) :
    outboundRequest req sampleHeaders ∈
      outboundCalls (run sampleAnswers (executeActionWasm sampleCrates req)).1 := by
  have hsent := sampleAction_dispatched haction hcredential hnonce hkey
  obtain ⟨headers, hcalls, -, hbearer⟩ := hsent.sends (agrees_run _ _) sampleAnswers_mandate
  obtain ⟨v, hv, rfl⟩ := hbearer (by decide)
  rw [show sampleMandate.credentialKey = "broker" from rfl, sampleAnswers_secret] at hv
  obtain rfl : "s3cret" = v := utf8_injective (Option.some.inj (Except.ok.inj hv))
  rw [hcalls]
  exact List.mem_singleton_self _

/-- A host over the tenant's maps that fails no call. -/
def sampleHost : (op : HostOp) → Kv → op.Res × Kv
  | .tenantDid, s => (sampleTid, s)
  | .clusterTimestampSecs, s => (1_700_000_000, s)
  | .kvGet mapName key, s => (.ok (s mapName key), s)
  | .kvPut mapName key value, s => (.ok (), s.put mapName key value)
  | .httpCall _, s => (.ok ⟨200, utf8 "done"⟩, s)
  | .hwpCall _, s => (.ok ⟨200, utf8 "done"⟩, s)
  | .logInfo _, s => (.ok (), s)

theorem kvHost_sampleHost (op : HostOp) (s : Kv) :
    kvHost sampleTid op s (sampleHost op s).1 (sampleHost op s).2 := by
  cases op with
  | tenantDid => exact ⟨rfl, rfl⟩
  | kvGet mapName key => exact ⟨rfl, fun v hv => (Except.ok.inj hv).symm⟩
  | kvPut mapName key value => exact .inl rfl
  | clusterTimestampSecs => rfl
  | httpCall request => rfl
  | hwpCall request => rfl
  | logInfo message => rfl

end Gatekeeper.Gate
