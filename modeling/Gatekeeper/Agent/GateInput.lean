import Gatekeeper.Agent.Mandated

/-!
# What the gate reads of JSON

The records that `serde_json` reads from the objects a script hands to `gate_cli` and to the
contract: the action, the binding and the mandate. A member of another name is passed over, and
a member that is left out takes its default where the source names one.
-/

namespace Gatekeeper.Agent

open Interaction Js Gate

/-! ## Members -/

/-- `#[serde(default)]`: the member may be left out, but it is not `null`. -/
def orDefault {α : Type} (default : α) (read : Value → Option α) : Value → Option α
  | .undefined => some default
  | v => read v

def jsonAmount : Value → Option UInt64
  | .number x => jsonU64 x
  | _ => none

def jsonBool : Value → Option Bool
  | .bool b => some b
  | _ => none

def jsonText : Value → Option String
  | .string s => some s
  | _ => none

def jsonTexts : Value → Option (List String)
  | .array xs => xs.mapM jsonText
  | _ => none

/-- An entry of a `BTreeMap<String, u64>`. -/
def jsonLimit : String × Value → Option (String × UInt64)
  | (k, x) => (jsonAmount x).map (k, ·)

def jsonLimits : Value → Option (List (String × UInt64))
  | .object ms => ms.mapM jsonLimit
  | _ => none

/-! ## Records -/

/-- The `Action` an object stands for. -/
def jsonAction (v : Value) : Option Gate.Action := do
  let kind ← jsonString (v.get? "kind")
  let asset ← jsonString (v.get? "asset")
  let amountCents ← jsonAmount (v.get? "amount_cents")
  let counterparty ← jsonOptString (v.get? "counterparty")
  let issuer ← jsonOptString (v.get? "issuer")
  return { kind, asset, amountCents, counterparty, issuer }

/-- The `CredentialBinding` an object stands for. -/
def jsonBinding (v : Value) : Option CredentialBinding := do
  let issuer ← jsonString (v.get? "issuer")
  let subject ← jsonString (v.get? "subject")
  let claimsDigest ← jsonString (v.get? "claims_digest")
  let nonce ← jsonString (v.get? "nonce")
  let commitment ← jsonString (v.get? "commitment")
  return { issuer, subject, claimsDigest, nonce, commitment }

/-- The `Mandate` an object stands for. -/
def jsonMandate (v : Value) : Option Mandate := do
  let maxAmountCents ← jsonAmount (v.get? "max_amount_cents")
  let allowedAssets ← orDefault [] jsonTexts (v.get? "allowed_assets")
  let allowedKinds ← orDefault [] jsonTexts (v.get? "allowed_kinds")
  let allowedCounterparties ← orDefault [] jsonTexts (v.get? "allowed_counterparties")
  let allowedIssuers ← orDefault [] jsonTexts (v.get? "allowed_issuers")
  let counterpartyLimits ← orDefault [] jsonLimits (v.get? "counterparty_limits")
  let expiresAtSecs ← orDefault 0 jsonAmount (v.get? "expires_at_secs")
  let validAfterSecs ← orDefault 0 jsonAmount (v.get? "valid_after_secs")
  let credentialKey ← orDefault "" jsonText (v.get? "credential_key")
  let requireCredential ← orDefault false jsonBool (v.get? "require_credential")
  let requireIdempotencyKey ← orDefault false jsonBool (v.get? "require_idempotency_key")
  return { maxAmountCents, allowedAssets, allowedKinds, allowedCounterparties, allowedIssuers,
           counterpartyLimits, expiresAtSecs, validAfterSecs, credentialKey, requireCredential,
           requireIdempotencyKey }

/-! ## What a member was -/

theorem jsonOptString_cases {v : Value} {o : Option RString} (h : jsonOptString v = some o) :
    (v.orElse .undefined = .undefined ∧ o = none) ∨
      ∃ r : RString, v = .string r.val ∧ o = some r := by
  unfold jsonOptString at h
  split at h
  · cases h
    exact .inl ⟨rfl, rfl⟩
  · cases h
    exact .inl ⟨rfl, rfl⟩
  · rw [Option.map_eq_some_iff] at h
    obtain ⟨r, hr, rfl⟩ := h
    exact .inr ⟨r, jsonString_eq_some hr, rfl⟩

/-- A number that is read as a `u64` is written with the digits of that `u64`. -/
theorem text_of_jsonU64 {x : Number} {u : UInt64} (h : jsonU64 x = some u) :
    x.text = toString u := by
  cases x with
  | other text => cases h
  | whole n =>
    rw [jsonU64] at h
    split_ifs at h with hfits
    obtain ⟨hpos, hlt, hu⟩ := hfits
    obtain rfl := Option.some.inj h
    -- below `10 ^ 21` a number is written out, and its digits fit
    have hwhole : wholeText n.val.natAbs = toString (Double.shortest n.val.natAbs) := by
      rw [wholeText, if_pos (by omega)]
    have hnat : (UInt64.ofNat (Double.shortest n.val.natAbs)).toNat =
        Double.shortest n.val.natAbs := UInt64.toNat_ofNat_of_lt' hu
    rw [Number.text, if_neg (by omega), hwhole]
    show toString _ = toString (UInt64.ofNat _).toNat
    rw [hnat]

theorem jsonAmount_eq_some {v : Value} {u : UInt64} (h : jsonAmount v = some u) :
    ∃ x, v = .number x ∧ jsonU64 x = some u := by
  unfold jsonAmount at h
  split at h
  · exact ⟨_, rfl, h⟩
  · cases h

/-- The members of an object that is read as an action. -/
theorem jsonAction_spec {v : Value} {a : Gate.Action} (h : jsonAction v = some a) :
    v.get? "kind" = .string a.kind.val ∧ v.get? "asset" = .string a.asset.val ∧
      jsonAmount (v.get? "amount_cents") = some a.amountCents ∧
      jsonOptString (v.get? "counterparty") = some a.counterparty ∧
      jsonOptString (v.get? "issuer") = some a.issuer := by
  simp only [jsonAction, Option.bind_eq_bind, Option.bind_eq_some_iff] at h
  obtain ⟨kind, hkind, asset, hasset, amountCents, hamount, counterparty, hcp, issuer, hiss, h⟩ := h
  cases h
  exact ⟨jsonString_eq_some hkind, jsonString_eq_some hasset, hamount, hcp, hiss⟩

@[simp] theorem jsonString_val (r : RString) : jsonString (.string r.val) = some r := dif_pos r.fits

/-- A binding is read from exactly the objects that have its texts as members. -/
theorem jsonBinding_eq_some {v : Value} {b : CredentialBinding} :
    jsonBinding v = some b ↔
      v.get? "issuer" = .string b.issuer.val ∧ v.get? "subject" = .string b.subject.val ∧
      v.get? "claims_digest" = .string b.claimsDigest.val ∧
      v.get? "nonce" = .string b.nonce.val ∧ v.get? "commitment" = .string b.commitment.val := by
  constructor
  · intro h
    simp only [jsonBinding, Option.bind_eq_bind, Option.bind_eq_some_iff] at h
    obtain ⟨issuer, h₁, subject, h₂, claimsDigest, h₃, nonce, h₄, commitment, h₅, h⟩ := h
    cases h
    exact ⟨jsonString_eq_some h₁, jsonString_eq_some h₂, jsonString_eq_some h₃,
      jsonString_eq_some h₄, jsonString_eq_some h₅⟩
  · rintro ⟨h₁, h₂, h₃, h₄, h₅⟩
    rw [jsonBinding, h₁, h₂, h₃, h₄, h₅]
    simp only [jsonString_val]
    rfl

end Gatekeeper.Agent
