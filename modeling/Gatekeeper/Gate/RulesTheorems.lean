import Mathlib.Data.List.ReduceOption
import Mathlib.Data.Set.Function
import Gatekeeper.Gate.Rules

/-!
# What the rules decide

`decide` approves exactly the actions a mandate permits (`Permits`), and a binding that
`check_binding` accepts (`Binds`) fixes the action it was made for.
-/

namespace Gatekeeper.Gate

open Encoding Text

/-! ## The mandate as a specification -/

/-- A value is on a list, or the list has the wildcard. -/
def Listed (list : List String) (value : String) : Prop := "*" ∈ list ∨ value ∈ list

/-- What a mandate allows at a time: every rule of it, in its own words. -/
structure Permits (action : Action) (mandate : Mandate) (nowSecs : UInt64) : Prop where
  active : mandate.validAfterSecs = 0 ∨ mandate.validAfterSecs ≤ nowSecs
  unexpired : mandate.expiresAtSecs = 0 ∨ nowSecs ≤ mandate.expiresAtSecs
  kind : Listed mandate.allowedKinds action.kind
  asset : Listed mandate.allowedAssets action.asset
  counterparty : mandate.allowedCounterparties ≠ [] →
    ∃ cp, action.counterparty = some cp ∧ Listed mandate.allowedCounterparties cp
  issuer : mandate.allowedIssuers ≠ [] →
    ∃ iss, action.issuer = some iss ∧ Listed mandate.allowedIssuers iss
  amount : action.amountCents ≤ mandate.maxAmountCents
  subLimit : ∀ cp limit, action.counterparty = some cp →
    mandate.counterpartyLimits.lookup cp.val = some limit → action.amountCents ≤ limit

@[simp] theorem listAllows_iff {list : List String} {value : String} :
    listAllows list value = true ↔ Listed list value := by
  simp only [listAllows, List.any_eq_true, Bool.or_eq_true, beq_iff_eq, Listed]
  constructor
  · rintro ⟨x, hx, rfl | rfl⟩
    · exact .inl hx
    · exact .inr hx
  · rintro (h | h)
    · exact ⟨_, h, .inl rfl⟩
    · exact ⟨_, h, .inr rfl⟩

theorem validAfterReason_eq_none {mandate : Mandate} {nowSecs : UInt64} :
    validAfterReason mandate nowSecs = none ↔
      mandate.validAfterSecs = 0 ∨ mandate.validAfterSecs ≤ nowSecs := by
  rw [validAfterReason, ite_eq_right_iff]
  simp only [reduceCtorEq, imp_false, not_and_or, ne_eq, not_not, UInt64.not_lt]

theorem expiryReason_eq_none {mandate : Mandate} {nowSecs : UInt64} :
    expiryReason mandate nowSecs = none ↔
      mandate.expiresAtSecs = 0 ∨ nowSecs ≤ mandate.expiresAtSecs := by
  rw [expiryReason, ite_eq_right_iff]
  simp only [reduceCtorEq, imp_false, not_and_or, ne_eq, not_not, gt_iff_lt, UInt64.not_lt]

theorem kindReason_eq_none {C : Crates} {action : Action} {mandate : Mandate} :
    kindReason C action mandate = none ↔ Listed mandate.allowedKinds action.kind := by
  simp only [kindReason, ite_eq_left_iff, reduceCtorEq, imp_false, not_not, listAllows_iff]

theorem assetReason_eq_none {C : Crates} {action : Action} {mandate : Mandate} :
    assetReason C action mandate = none ↔ Listed mandate.allowedAssets action.asset := by
  simp only [assetReason, ite_eq_left_iff, reduceCtorEq, imp_false, not_not, listAllows_iff]

theorem optInReason_eq_none {list : List String} {value : Option RString} {missing : String}
    {unlisted : String → String} :
    optInReason list value missing unlisted = none ↔
      (list ≠ [] → ∃ v, value = some v ∧ Listed list v) := by
  cases list with
  | nil => simp [optInReason]
  | cons x list =>
    cases value with
    | none => simp [optInReason]
    | some v => simp [optInReason, ite_eq_left_iff]

theorem amountReason_eq_none {action : Action} {mandate : Mandate} :
    amountReason action mandate = none ↔ action.amountCents ≤ mandate.maxAmountCents := by
  simp only [amountReason, ite_eq_right_iff, reduceCtorEq, imp_false, gt_iff_lt, UInt64.not_lt]

theorem subLimitReason_eq_none {action : Action} {mandate : Mandate} :
    subLimitReason action mandate = none ↔
      ∀ cp limit, action.counterparty = some cp →
        mandate.counterpartyLimits.lookup cp.val = some limit → action.amountCents ≤ limit := by
  cases hcp : action.counterparty with
  | none => simp [subLimitReason, subLimit, hcp]
  | some cp =>
    have hsub : subLimit mandate action = mandate.counterpartyLimits.lookup cp.val := by
      rw [subLimit, hcp, Option.bind_some]
    constructor
    · intro h cp' limit hcp' hl
      cases hcp'
      simpa [subLimitReason, hsub, hl] using h
    · intro h
      rw [subLimitReason, hsub]
      cases hl : mandate.counterpartyLimits.lookup cp.val with
      | none => rfl
      | some limit => exact if_neg (by simpa using h cp limit rfl hl)

theorem decide_fst_iff {C : Crates} {action : Action} {mandate : Mandate} {nowSecs : UInt64} :
    (Gate.decide C action mandate nowSecs).1 = true ↔
      (Gate.decide C action mandate nowSecs).2 = [] := List.isEmpty_iff

/-- `decide` approves exactly what the mandate permits. -/
theorem decide_iff_permits {C : Crates} {action : Action} {mandate : Mandate}
    {nowSecs : UInt64} :
    (Gate.decide C action mandate nowSecs).1 = true ↔ Permits action mandate nowSecs := by
  -- approved means that no check pushed a reason
  have hchecks : (Gate.decide C action mandate nowSecs).1 = true ↔
      ∀ c ∈ checks C action mandate nowSecs, c = none := by
    rw [decide_fst_iff, Gate.decide, List.eq_nil_iff_forall_not_mem]
    simp only [List.reduceOption_mem_iff, Option.eq_none_iff_forall_ne_some]
    constructor
    · rintro h c hc a rfl
      exact h a hc
    · intro h a ha
      exact h _ ha a rfl
  rw [hchecks]
  simp only [checks, List.forall_mem_cons, List.not_mem_nil, false_implies, implies_true,
    and_true, validAfterReason_eq_none, expiryReason_eq_none, kindReason_eq_none,
    assetReason_eq_none, counterpartyReason, issuerReason, optInReason_eq_none,
    amountReason_eq_none, subLimitReason_eq_none]
  constructor
  · rintro ⟨h₁, h₂, h₃, h₄, h₅, h₆, h₇, h₈⟩
    exact ⟨h₁, h₂, h₃, h₄, h₅, h₆, h₇, h₈⟩
  · rintro ⟨h₁, h₂, h₃, h₄, h₅, h₆, h₇, h₈⟩
    exact ⟨h₁, h₂, h₃, h₄, h₅, h₆, h₇, h₈⟩

/-! ## Idempotency keys -/

/-- The key recorded is the trimmed key of the request. -/
theorem checkIdempotency_ok {key : Option String} {require : Bool} {k : Option String}
    (h : checkIdempotency key require = .ok k) : k = trimmedKey key := by
  unfold checkIdempotency at h
  split at h
  · rename_i hk
    split at h
    · cases h
    · cases h
      exact hk.symm
  · rename_i k' hk
    split at h
    · cases h
    split at h
    · cases h
    · cases h
      exact hk.symm

/-- What makes a key that is present acceptable; the mandate has no say in it. -/
theorem checkIdempotency_some {key : Option String} {require : Bool} {k : String}
    (hk : trimmedKey key = some k) :
    (∃ k', checkIdempotency key require = .ok k') ↔
      k.utf8ByteSize ≤ maxIdempotencyKeyLen ∧ k.toList.all isKeyChar = true := by
  unfold checkIdempotency
  rw [hk]
  dsimp only
  split
  · rename_i hlen
    simp only [reduceCtorEq, exists_false, false_iff, not_and]
    omega
  · rename_i hlen
    split
    · simp_all
    · rename_i hall
      rw [not_not] at hall
      exact ⟨fun _ => ⟨Nat.le_of_not_lt hlen, hall⟩, fun _ => ⟨_, rfl⟩⟩

/-! ## Hashing fields -/

theorem toString_amount_inj {a b : UInt64} (h : toString a = toString b) : a = b :=
  UInt64.toNat_inj.mp (repr_injective h)

theorem fits_toString (n : UInt64) : (toString n).utf8ByteSize < 2 ^ 64 := by
  have hsize : n.toNat.repr.utf8ByteSize ≤ 20 :=
    utf8ByteSize_repr_le (by decide) (lt_of_lt_of_le n.toNat_lt (by decide))
  show n.toNat.repr.utf8ByteSize < 2 ^ 64
  omega

/-- Every field of an action's digest is as long as a Rust `String` can be. -/
theorem fits_actionParts {action : Action} {p : String} (h : p ∈ actionParts action) :
    p.utf8ByteSize < 2 ^ 64 := by
  simp only [actionParts, List.mem_cons, List.not_mem_nil, or_false] at h
  rcases h with rfl | rfl | rfl | rfl
  · exact action.kind.fits
  · exact action.asset.fits
  · exact fits_toString _
  · cases action.counterparty with
    | none => decide
    | some cp => exact cp.fits

/-- So is every field of a commitment. -/
theorem fits_commitmentParts {C : Crates} {binding : CredentialBinding} {action : Action}
    {p : String} (h : p ∈ commitmentParts C binding action) : p.utf8ByteSize < 2 ^ 64 := by
  simp only [commitmentParts, List.mem_cons, List.not_mem_nil, or_false] at h
  rcases h with rfl | rfl | rfl | rfl | rfl | rfl
  · decide
  · exact binding.issuer.fits
  · exact binding.subject.fits
  · exact binding.claimsDigest.fits
  · rw [actionDigest, sha256Hex, utf8ByteSize_hexEncode, C.length_sha256]
    decide
  · exact binding.nonce.fits

/-- The bytes hashed determine the fields. -/
theorem preimage_inj {ps qs : List String} (hp : ∀ p ∈ ps, p.utf8ByteSize < 2 ^ 64)
    (hq : ∀ q ∈ qs, q.utf8ByteSize < 2 ^ 64) (h : preimage ps = preimage qs) : ps = qs := by
  apply List.map_injective_iff.mpr utf8_injective
  apply frames_inj _ _ h
  · simpa using hp
  · simpa using hq

/-- The two pre-images `check_binding` hashes for a binding and an action. -/
def bindingPreimages (C : Crates) (binding : CredentialBinding) (action : Action) : Set Bytes :=
  {preimage (actionParts action), preimage (commitmentParts C binding action)}

/-- The hash has no collision among the pre-images `check_binding` feeds it when one binding
is checked against two actions. -/
def CollisionFree (C : Crates) (binding : CredentialBinding) (a₁ a₂ : Action) : Prop :=
  Set.InjOn C.sha256 (bindingPreimages C binding a₁ ∪ bindingPreimages C binding a₂)

/-- Equal commitments of one binding are commitments to the same action fields. -/
theorem actionParts_eq_of_commitment {C : Crates} {b : CredentialBinding} {a₁ a₂ : Action}
    (hC : CollisionFree C b a₁ a₂) (h : expectedCommitment C b a₁ = expectedCommitment C b a₂) :
    actionParts a₁ = actionParts a₂ := by
  -- peel off the outer hash, then the digest inside the commitment
  have houter : commitmentParts C b a₁ = commitmentParts C b a₂ := by
    apply preimage_inj (fun p => fits_commitmentParts) (fun p => fits_commitmentParts)
    exact hC (.inl (.inr rfl)) (.inr (.inr rfl)) (hexEncode_injective h)
  have hdigest : actionDigest C a₁ = actionDigest C a₂ := by
    simpa [commitmentParts] using houter
  apply preimage_inj (fun p => fits_actionParts) (fun p => fits_actionParts)
  exact hC (.inl (.inl rfl)) (.inr (.inl rfl)) (hexEncode_injective hdigest)

/-! ## Accepted bindings -/

/-- What it takes for a binding to vouch for an action. -/
structure Binds (C : Crates) (b : CredentialBinding) (action : Action) : Prop where
  nonce : b.nonce.val ≠ ""
  commitment : b.commitment.val = expectedCommitment C b action
  issuer : ∀ i, action.issuer = some i → i = b.issuer

theorem checkBinding_none {C : Crates} {action : Action} {require : Bool} :
    checkBinding C none action require = .ok () ↔ require = false := by
  cases require <;> simp [checkBinding]

/-- A supplied binding is accepted exactly when it vouches for the action, whatever the
mandate requires. -/
theorem checkBinding_some {C : Crates} {b : CredentialBinding} {action : Action}
    {require : Bool} : checkBinding C (some b) action require = .ok () ↔ Binds C b action := by
  constructor
  · intro h
    simp only [checkBinding] at h
    split at h
    · cases h
    rename_i hnonce
    -- a mismatch is an error or, where the commitment cannot be cut at 16 bytes, a panic
    split at h
    · split at h <;> cases h
    rename_i hcommitment
    rw [not_not] at hcommitment
    refine ⟨hnonce, hcommitment.symm, fun i hi => ?_⟩
    simp only [hi] at h
    by_contra hne
    rw [if_pos hne] at h
    cases h
  · rintro ⟨hnonce, hcommitment, hissuer⟩
    simp only [checkBinding, if_neg hnonce, hcommitment, ne_eq, not_true_eq_false, if_false]
    cases hi : action.issuer with
    | none => rfl
    | some i =>
      simp only [hissuer i hi, not_true_eq_false, if_false]

end Gatekeeper.Gate
