import Mathlib.Data.List.Sort
import Gatekeeper.Lib.JsValueTheorems
import Gatekeeper.Gate.SampleTenant
import Gatekeeper.Agent.GateInput

/-!
# Credential bindings

The functions of `credential-binding.mjs`, and that they agree with `gate.rs`: on an action and
a binding the gate can read, both sides hash the same bytes.
-/

namespace Gatekeeper.Agent

open Js Encoding
open Gate (Crates RString)

/-! ## The functions -/

def bindingDomain : String := "t3-gatekeeper/cred-binding/v1"

/-- The bytes the hash is fed with: each part as text, behind its length. -/
def preimage (parts : List Value) : Except Error Bytes := do
  let texts ← parts.mapM Value.text
  return frames (texts.map utf8)

def sha256Hex (sha256 : Bytes → Bytes) (parts : List Value) : Except Error String := do
  let bytes ← preimage parts
  return hexEncode (sha256 bytes)

def actionDigest (sha256 : Bytes → Bytes) (action : Value) : Except Error String := do
  let kind ← action.get "kind"
  let amountText ← ((action.get? "amount_cents").orElse (.number (Number.ofNat 0))).text
  sha256Hex sha256
    [kind.orElse (.string ""), (action.get? "asset").orElse (.string ""), .string amountText,
      (action.get? "counterparty").orElse (.string "")]

def expectedCommitment (sha256 : Bytes → Bytes) (binding action : Value) :
    Except Error String := do
  let issuer ← binding.get "issuer"
  let digest ← actionDigest sha256 action
  sha256Hex sha256
    [.string bindingDomain, issuer.orElse (.string ""),
      (binding.get? "subject").orElse (.string ""),
      (binding.get? "claims_digest").orElse (.string ""), .string digest,
      (binding.get? "nonce").orElse (.string "")]

/-- The key and the text of each claim, in the order of the keys. -/
def claimsParts (claims : Value) : List String :=
  (claims.entries.insertionSort fun e f => textLe e.1 f.1).flatMap fun (k, text) => [k, text]

def claimsDigest (sha256 : Bytes → Bytes) (claims : Value) : Except Error String :=
  sha256Hex sha256 ((claimsParts claims).map Value.string)

/-- The binding before its commitment is known. -/
def bindingFields (issuer subject : Value) (claimsDigest nonce : String) : List (String × Value) :=
  [("issuer", issuer), ("subject", subject), ("claims_digest", .string claimsDigest),
   ("nonce", .string nonce)]

/-- `bindCredential`, with the bytes that `randomBytes(16)` returns. -/
def bindCredential (sha256 : Bytes → Bytes) (random : Bytes) (credential action : Value) :
    Except Error Value := do
  let issuer ← credential.get "issuer"
  match credential.get? "verified" with
  | .bool true =>
    if issuer.truthy && (credential.get? "subject").truthy then
      let digest ← claimsDigest sha256 ((credential.get? "claims").orElse (.object []))
      let binding := bindingFields issuer (credential.get? "subject") digest (hexEncode random)
      let commitment ← expectedCommitment sha256 (.object binding) action
      return .object (binding ++ [("commitment", .string commitment)])
    else
      throw (.error "bindCredential: issuer and subject are required")
  | _ =>
    throw (.error ("bindCredential: refusing to bind a credential that was not verified — " ++
      "pass verified:true only after the BBS+ proof checks out"))

/-! ## The two sides agree -/

theorem get_of_get? {v : Value} {name s : String} (h : v.get? name = .string s) :
    v.get name = .ok (.string s) := by
  cases v with
  | object ms => exact congrArg Except.ok h
  | _ => cases h

theorem mapM_text (texts : List String) : (texts.map Value.string).mapM Value.text = .ok texts := by
  induction texts with
  | nil => rfl
  | cons t texts ih =>
    rw [List.map_cons, List.mapM_cons, ih, Value.text]
    rfl

/-- On texts the hash is over their frames, as the gate's is. -/
theorem sha256Hex_texts (sha256 : Bytes → Bytes) (parts : List String) :
    sha256Hex sha256 (parts.map Value.string) =
      .ok (hexEncode (sha256 (Gate.preimage parts))) := by
  rw [sha256Hex, preimage, mapM_text]
  rfl

/-- An optional text hashes as the text the gate hashes in its place. -/
theorem orElse_optString {v : Value} {o : Option RString} (h : jsonOptString v = some o) :
    v.orElse (.string "") = .string ((o.map (·.val)).getD "") := by
  rcases jsonOptString_cases h with ⟨hv, rfl⟩ | ⟨r, rfl, rfl⟩
  · cases v with
    | undefined => rfl
    | null => rfl
    | _ => cases hv
  · rfl

/-- The digest of an action the gate can read is the gate's. -/
theorem actionDigest_eq (C : Crates) {action : Value} {a : Gate.Action}
    (ha : jsonAction action = some a) :
    actionDigest C.sha256 action = .ok (Gate.actionDigest C a) := by
  obtain ⟨hkind, hasset, hamount, hcounterparty, _⟩ := jsonAction_spec ha
  obtain ⟨x, hx, hu⟩ := jsonAmount_eq_some hamount
  have htext : (action.get? "amount_cents").text = .ok (toString a.amountCents) := by
    rw [hx, Value.text, text_of_jsonU64 hu]
  rw [hx] at htext
  have hparts := sha256Hex_texts C.sha256 (Gate.actionParts a)
  rw [Gate.actionDigest, Gate.sha256Hex, ← hparts]
  unfold actionDigest
  rw [get_of_get? hkind, hasset, hx, orElse_optString hcounterparty]
  simp only [Value.orElse, htext]
  rfl

/-- The commitment over a binding and an action the gate can read is the gate's. -/
theorem expectedCommitment_eq (C : Crates) {action binding : Value} {a : Gate.Action}
    {b : Gate.CredentialBinding} (ha : jsonAction action = some a)
    (hb : jsonBinding binding = some b) :
    expectedCommitment C.sha256 binding action = .ok (Gate.expectedCommitment C b a) := by
  obtain ⟨hissuer, hsubject, hclaims, hnonce, _⟩ := jsonBinding_eq_some.mp hb
  have hparts := sha256Hex_texts C.sha256 (Gate.commitmentParts C b a)
  rw [Gate.expectedCommitment, Gate.sha256Hex, ← hparts]
  unfold expectedCommitment
  rw [get_of_get? hissuer, hsubject, hclaims, hnonce, actionDigest_eq C ha]
  rfl

/-! ## What `bindCredential` builds -/

/-- The commitment is not among the members it is computed from. -/
theorem expectedCommitment_append (sha256 : Bytes → Bytes) (issuer subject action : Value)
    (digest nonce : String) (commitment : Value) :
    expectedCommitment sha256
        (.object (bindingFields issuer subject digest nonce ++ [("commitment", commitment)]))
        action =
      expectedCommitment sha256 (.object (bindingFields issuer subject digest nonce)) action := rfl

theorem size_of_sha256Hex {C : Crates} {parts : List Value} {s : String}
    (h : sha256Hex C.sha256 parts = .ok s) : s.utf8ByteSize = 64 := by
  obtain ⟨bytes, _, h⟩ := bind_eq_ok.mp h
  obtain rfl := Except.ok.inj h
  rw [utf8ByteSize_hexEncode, C.length_sha256]

theorem size_of_expectedCommitment {C : Crates} {binding action : Value} {s : String}
    (h : expectedCommitment C.sha256 binding action = .ok s) : s.utf8ByteSize = 64 := by
  obtain ⟨_, _, h⟩ := bind_eq_ok.mp h
  obtain ⟨_, _, h⟩ := bind_eq_ok.mp h
  exact size_of_sha256Hex h

/-- What `bindCredential` returns: the commitment is over the members that stand before it. -/
theorem bindCredential_spec {sha256 : Bytes → Bytes} {random : Bytes}
    {credential action binding : Value}
    (h : bindCredential sha256 random credential action = .ok binding) :
    ∃ digest commitment,
      claimsDigest sha256 ((credential.get? "claims").orElse (.object [])) = .ok digest ∧
      expectedCommitment sha256 binding action = .ok commitment ∧
      binding = .object (bindingFields (credential.get? "issuer") (credential.get? "subject")
        digest (hexEncode random) ++ [("commitment", .string commitment)]) := by
  unfold bindCredential at h
  obtain ⟨issuer, hissuer, h⟩ := bind_eq_ok.mp h
  have hget : issuer = credential.get? "issuer" := by
    unfold Value.get at hissuer
    split at hissuer
    · cases hissuer
    · cases hissuer
    · exact (Except.ok.inj hissuer).symm
  -- only a verified credential with an issuer and a subject gets past the checks
  split at h
  · split_ifs at h
    · obtain ⟨digest, hdigest, h⟩ := bind_eq_ok.mp h
      obtain ⟨commitment, hcommitment, h⟩ := bind_eq_ok.mp h
      obtain rfl := Except.ok.inj h
      refine ⟨digest, commitment, hdigest, ?_, by rw [hget]⟩
      rw [expectedCommitment_append]
      exact hcommitment
  · cases h

/-- A binding that was built and is read holds its nonce and the commitment over itself. -/
theorem committed_of_bindCredential {C : Crates} {random : Bytes}
    {credential action binding : Value} {a : Gate.Action} {b : Gate.CredentialBinding}
    (h : bindCredential C.sha256 random credential action = .ok binding)
    (ha : jsonAction action = some a) (hb : jsonBinding binding = some b) :
    b.nonce.val = hexEncode random ∧ b.commitment.val = Gate.expectedCommitment C b a := by
  obtain ⟨digest, commitment, _, hcommitment, hbinding⟩ := bindCredential_spec h
  obtain ⟨_, _, _, hnonce, hread⟩ := jsonBinding_eq_some.mp hb
  rw [expectedCommitment_eq C ha hb] at hcommitment
  rw [hbinding] at hnonce hread
  have hnonce' : Value.string (hexEncode random) = .string b.nonce.val := hnonce
  have hread' : Value.string commitment = .string b.commitment.val := hread
  rw [Value.string.injEq] at hnonce' hread'
  exact ⟨hnonce'.symm, hread'.symm.trans (Except.ok.inj hcommitment).symm⟩

/-- With texts as issuer and subject the binding that was built is read. -/
theorem jsonBinding_of_bindCredential {C : Crates} {random : Bytes}
    {credential action binding : Value} {issuer subject : RString}
    (h : bindCredential C.sha256 random credential action = .ok binding)
    (hissuer : credential.get? "issuer" = .string issuer.val)
    (hsubject : credential.get? "subject" = .string subject.val) (hrandom : random.length = 16) :
    ∃ b, jsonBinding binding = some b ∧ b.issuer = issuer ∧ b.subject = subject := by
  obtain ⟨digest, commitment, hdigest, hcommitment, hbinding⟩ := bindCredential_spec h
  have hdigest' : digest.utf8ByteSize < 2 ^ 64 := by
    rw [size_of_sha256Hex hdigest]
    decide
  have hnonce : (hexEncode random).utf8ByteSize < 2 ^ 64 := by
    rw [utf8ByteSize_hexEncode, hrandom]
    decide
  have hcommitment' : commitment.utf8ByteSize < 2 ^ 64 := by
    rw [size_of_expectedCommitment hcommitment]
    decide
  refine ⟨⟨issuer, subject, ⟨digest, hdigest'⟩, ⟨_, hnonce⟩, ⟨commitment, hcommitment'⟩⟩, ?_, rfl,
    rfl⟩
  rw [jsonBinding_eq_some, hbinding]
  exact ⟨hissuer, hsubject, rfl, rfl, rfl⟩

/-- A verified credential with an issuer and a subject gets a binding for any action that the
gate can read. -/
theorem exists_binding (C : Crates) {random : Bytes} {credential action : Value}
    {a : Gate.Action} {issuer subject : String} (ha : jsonAction action = some a)
    (hverified : credential.get? "verified" = .bool true)
    (hissuer : credential.get? "issuer" = .string issuer) (hissuer' : issuer ≠ "")
    (hsubject : credential.get? "subject" = .string subject) (hsubject' : subject ≠ "") :
    ∃ binding, bindCredential C.sha256 random credential action = .ok binding := by
  have htruthy : ((Value.string issuer).truthy && (Value.string subject).truthy) = true := by
    simp [Value.truthy, hissuer', hsubject']
  obtain ⟨digest, hdigest⟩ : ∃ digest,
      claimsDigest C.sha256 ((credential.get? "claims").orElse (.object [])) = .ok digest :=
    ⟨_, sha256Hex_texts _ _⟩
  obtain ⟨commitment, hcommitment⟩ : ∃ commitment, expectedCommitment C.sha256
      (.object (bindingFields (.string issuer) (.string subject) digest (hexEncode random)))
      action = .ok commitment := by
    unfold expectedCommitment
    rw [actionDigest_eq C ha]
    exact ⟨_, sha256Hex_texts _ [bindingDomain, issuer, subject, digest, Gate.actionDigest C a,
      hexEncode random]⟩
  have hbuilt : bindCredential C.sha256 random credential action =
      (expectedCommitment C.sha256 (.object
        (bindingFields (.string issuer) (.string subject) digest (hexEncode random))) action >>=
      fun commitment => .ok (.object
        (bindingFields (.string issuer) (.string subject) digest (hexEncode random) ++
          [("commitment", .string commitment)]))) := by
    unfold bindCredential
    rw [get_of_get? hissuer, hverified, hsubject, hdigest]
    exact if_pos htruthy
  rw [hbuilt, hcommitment]
  exact ⟨_, rfl⟩

/-- The digests and the commitments of both sides are the same texts. A binding built for an
action is read when its issuer and subject are texts, and the gate accepts it for the action
unless the action names another issuer. -/
theorem commitments_agree (C : Crates) {action : Value} {a : Gate.Action}
    (ha : jsonAction action = some a) :
    actionDigest C.sha256 action = .ok (Gate.actionDigest C a) ∧
      (∀ binding b, jsonBinding binding = some b →
        expectedCommitment C.sha256 binding action = .ok (Gate.expectedCommitment C b a)) ∧
      ∀ random credential binding, random.length = 16 →
        bindCredential C.sha256 random credential action = .ok binding →
        (∀ issuer subject : RString, credential.get? "issuer" = .string issuer.val →
          credential.get? "subject" = .string subject.val →
          ∃ b, jsonBinding binding = some b ∧ b.issuer = issuer ∧ b.subject = subject) ∧
        ∀ b require, jsonBinding binding = some b →
          (a.issuer = none ∨ a.issuer = some b.issuer) →
          Gate.checkBinding C (some b) a require = .ok () := by
  refine ⟨actionDigest_eq C ha, fun binding b hb => expectedCommitment_eq C ha hb, ?_⟩
  intro random credential binding hrandom h
  refine ⟨fun issuer subject hi hs => jsonBinding_of_bindCredential h hi hs hrandom, ?_⟩
  intro b require hb hissuer
  obtain ⟨hnonce, hcommitment⟩ := committed_of_bindCredential h ha hb
  refine Gate.checkBinding_some.mpr ⟨?_, hcommitment, fun i hi => ?_⟩
  -- sixteen bytes have thirty-two digits
  · intro hempty
    have hsize := utf8ByteSize_hexEncode random
    rw [← hnonce, hempty, hrandom] at hsize
    cases hsize
  · rcases hissuer with hnone | hsome
    · rw [hnone] at hi
      cases hi
    · exact Option.some.inj (hi.symm.trans hsome)

def sampleTrade : Value :=
  .object
    [("kind", .string "trade"), ("asset", .string "USDC"),
     ("amount_cents", .number (Number.ofNat 100)), ("counterparty", .string "fund"),
     ("issuer", .string "did:web:kyc")]

def sampleCredential : Value :=
  .object
    [("issuer", .string "did:web:kyc"), ("subject", .string "did:key:alice"),
     ("claims", .object [("accredited", .bool true)]), ("verified", .bool true)]

theorem jsonAction_sampleTrade : jsonAction sampleTrade = some Gate.sampleAction := by
  decide +kernel

theorem commitments_agree_sample :
    ∃ binding b,
      bindCredential Gate.sampleCrates.sha256 (List.replicate 16 7) sampleCredential sampleTrade =
        .ok binding ∧
      jsonBinding binding = some b ∧
      Gate.checkBinding Gate.sampleCrates (some b) Gate.sampleAction true = .ok () := by
  obtain ⟨_, _, hbuilt⟩ := commitments_agree Gate.sampleCrates jsonAction_sampleTrade
  obtain ⟨binding, h⟩ := @exists_binding Gate.sampleCrates (List.replicate 16 7) sampleCredential _
    _ "did:web:kyc" "did:key:alice" jsonAction_sampleTrade rfl rfl (by decide) rfl (by decide)
  obtain ⟨hread, haccepted⟩ := hbuilt _ _ _ (by decide) h
  obtain ⟨b, hb, hissuer, _⟩ :=
    hread (Gate.rstring "did:web:kyc") (Gate.rstring "did:key:alice") rfl rfl
  refine ⟨binding, b, h, hb, haccepted b true hb (.inr ?_)⟩
  rw [hissuer]
  rfl

end Gatekeeper.Agent
