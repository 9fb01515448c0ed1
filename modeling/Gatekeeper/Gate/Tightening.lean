import Gatekeeper.Gate.SampleTenant

/-!
# Tighter and looser mandates

`decide` follows the order on mandates: what is approved under one is approved, for no more
money, under every mandate at least as permissive. Leaving out the payee is another matter:
it takes the action out of reach of `counterparty_limits`.
-/

namespace Gatekeeper.Gate

/-! ## The order on mandates -/

/-- An opt-in list that lets through no less: it is not enforced, or it extends one that
is. -/
def OptInWider (list' list : List String) : Prop := list' = [] ∨ list ≠ [] ∧ list ⊆ list'

/-- A mandate that is at least as permissive as another, rule by rule. -/
structure AtLeastAsPermissive (m' m : Mandate) : Prop where
  amount : m.maxAmountCents ≤ m'.maxAmountCents
  kinds : m.allowedKinds ⊆ m'.allowedKinds
  assets : m.allowedAssets ⊆ m'.allowedAssets
  counterparties : OptInWider m'.allowedCounterparties m.allowedCounterparties
  issuers : OptInWider m'.allowedIssuers m.allowedIssuers
  subLimits : ∀ cp limit', m'.counterpartyLimits.lookup cp = some limit' →
    ∃ limit, m.counterpartyLimits.lookup cp = some limit ∧ limit ≤ limit'
  starts : m'.validAfterSecs = 0 ∨
    m.validAfterSecs ≠ 0 ∧ m'.validAfterSecs ≤ m.validAfterSecs
  ends : m'.expiresAtSecs = 0 ∨ m.expiresAtSecs ≠ 0 ∧ m.expiresAtSecs ≤ m'.expiresAtSecs

/-- The same action for no more money. -/
structure NoLarger (a' a : Action) : Prop where
  kind : a'.kind = a.kind
  asset : a'.asset = a.asset
  counterparty : a'.counterparty = a.counterparty
  issuer : a'.issuer = a.issuer
  amount : a'.amountCents ≤ a.amountCents

theorem NoLarger.refl (a : Action) : NoLarger a a := ⟨rfl, rfl, rfl, rfl, UInt64.le_refl _⟩

theorem Listed.mono {list list' : List String} {value : String} (h : Listed list value)
    (hsub : list ⊆ list') : Listed list' value := h.imp (fun hw => hsub hw) fun hv => hsub hv

/-- An opt-in rule met by a value is met when the list gets wider. -/
theorem OptInWider.listed {list list' : List String} {value : Option RString}
    (hw : OptInWider list' list)
    (h : list ≠ [] → ∃ v, value = some v ∧ Listed list v) :
    list' ≠ [] → ∃ v, value = some v ∧ Listed list' v := by
  intro hne'
  rcases hw with hnil | ⟨hne, hsub⟩
  · exact absurd hnil hne'
  · obtain ⟨v, hv, hl⟩ := h hne
    exact ⟨v, hv, hl.mono hsub⟩

/-- A lower bound that is not in force, or is lowered, still holds. -/
theorem bound_mono {b b' x : UInt64} (hb : b' = 0 ∨ b ≠ 0 ∧ b' ≤ b) (h : b = 0 ∨ b ≤ x) :
    b' = 0 ∨ b' ≤ x := by
  rcases hb with hb | ⟨hne, hle⟩
  · exact .inl hb
  · exact .inr (UInt64.le_trans hle (h.resolve_left hne))

/-- Likewise an upper bound that is raised. -/
theorem bound_anti {b b' x : UInt64} (hb : b' = 0 ∨ b ≠ 0 ∧ b ≤ b') (h : b = 0 ∨ x ≤ b) :
    b' = 0 ∨ x ≤ b' := by
  rcases hb with hb | ⟨hne, hle⟩
  · exact .inl hb
  · exact .inr (UInt64.le_trans (h.resolve_left hne) hle)

/-- What one mandate permits, a more permissive one permits for no more money. -/
theorem Permits.mono {a a' : Action} {m m' : Mandate} {nowSecs : UInt64}
    (h : Permits a m nowSecs) (ha : NoLarger a' a) (hm : AtLeastAsPermissive m' m) :
    Permits a' m' nowSecs where
  active := bound_mono hm.starts h.active
  unexpired := bound_anti hm.ends h.unexpired
  kind := by
    rw [ha.kind]
    exact h.kind.mono hm.kinds
  asset := by
    rw [ha.asset]
    exact h.asset.mono hm.assets
  counterparty := by
    rw [ha.counterparty]
    exact hm.counterparties.listed h.counterparty
  issuer := by
    rw [ha.issuer]
    exact hm.issuers.listed h.issuer
  amount := UInt64.le_trans ha.amount (UInt64.le_trans h.amount hm.amount)
  subLimit := by
    intro cp limit' hcp hlimit'
    obtain ⟨limit, hlimit, hle⟩ := hm.subLimits cp.val limit' hlimit'
    rw [ha.counterparty] at hcp
    exact UInt64.le_trans ha.amount (UInt64.le_trans (h.subLimit cp limit hcp hlimit) hle)

/-! ## Sub-limits -/

/-- `counterparty_limits.insert(cp, limit)`. -/
def Mandate.insertLimit (m : Mandate) (cp : String) (limit : UInt64) : Mandate :=
  { m with counterpartyLimits := (cp, limit) :: m.counterpartyLimits.filter fun e => e.1 != cp }

theorem lookup_insertLimit_self (m : Mandate) (cp : String) (limit : UInt64) :
    (m.insertLimit cp limit).counterpartyLimits.lookup cp = some limit :=
  List.lookup_cons_self

theorem lookup_filter_ne {l : List (String × UInt64)} {cp other : String} (h : other ≠ cp) :
    (l.filter fun e => e.1 != cp).lookup other = l.lookup other := by
  induction l with
  | nil => rfl
  | cons e l ih =>
    obtain ⟨key, limit⟩ := e
    by_cases hkey : key = cp
    · subst hkey
      rw [List.filter_cons_of_neg (by simp), ih, List.lookup_cons, beq_false_of_ne h]
    · rw [List.filter_cons_of_pos (by simpa using hkey), List.lookup_cons, List.lookup_cons, ih]

theorem lookup_insertLimit_other (m : Mandate) {cp other : String} (limit : UInt64)
    (h : other ≠ cp) :
    (m.insertLimit cp limit).counterpartyLimits.lookup other =
      m.counterpartyLimits.lookup other := by
  rw [Mandate.insertLimit, List.lookup_cons, beq_false_of_ne h]
  exact lookup_filter_ne h

theorem OptInWider.refl (list : List String) : OptInWider list list := by
  by_cases h : list = []
  · exact .inl h
  · exact .inr ⟨h, List.Subset.refl _⟩

/-- A mandate is at least as permissive as itself with a limit added or lowered. -/
theorem permissive_insertLimit (m : Mandate) (cp : String) (limit : UInt64)
    (hlower : ∀ old, m.counterpartyLimits.lookup cp = some old → limit ≤ old) :
    AtLeastAsPermissive m (m.insertLimit cp limit) where
  amount := UInt64.le_refl _
  kinds := List.Subset.refl _
  assets := List.Subset.refl _
  counterparties := OptInWider.refl _
  issuers := OptInWider.refl _
  subLimits := by
    intro other old hold
    by_cases h : other = cp
    · subst h
      exact ⟨limit, lookup_insertLimit_self m other limit, hlower old hold⟩
    · exact ⟨old, by rw [lookup_insertLimit_other m limit h, hold], UInt64.le_refl _⟩
  starts := by
    by_cases h : m.validAfterSecs = 0
    · exact .inl h
    · exact .inr ⟨h, UInt64.le_refl _⟩
  ends := by
    by_cases h : m.expiresAtSecs = 0
    · exact .inl h
    · exact .inr ⟨h, UInt64.le_refl _⟩

/-- `decide` is monotone; a limit that is added or lowered approves nothing new, and no
sub-limit lets an amount above the maximum through. -/
theorem decide_monotone (C : Crates) (nowSecs : UInt64) :
    (∀ {a a' : Action} {m m' : Mandate}, NoLarger a' a → AtLeastAsPermissive m' m →
      (Gate.decide C a m nowSecs).1 = true → (Gate.decide C a' m' nowSecs).1 = true) ∧
    (∀ {a : Action} {m : Mandate} {cp : String} {limit : UInt64},
      (∀ old, m.counterpartyLimits.lookup cp = some old → limit ≤ old) →
      (Gate.decide C a (m.insertLimit cp limit) nowSecs).1 = true →
        (Gate.decide C a m nowSecs).1 = true) ∧
    ∀ {a : Action} {m : Mandate}, m.maxAmountCents < a.amountCents →
      (Gate.decide C a m nowSecs).1 = false := by
  refine ⟨?_, ?_, ?_⟩
  · intro a a' m m' ha hm h
    exact decide_iff_permits.mpr ((decide_iff_permits.mp h).mono ha hm)
  · intro a m cp limit hlower h
    have hwider : AtLeastAsPermissive m (m.insertLimit cp limit) :=
      permissive_insertLimit m cp limit hlower
    exact decide_iff_permits.mpr ((decide_iff_permits.mp h).mono (NoLarger.refl a) hwider)
  · intro a m hmax
    rw [Bool.eq_false_iff]
    intro h
    exact UInt64.not_lt.mpr (decide_iff_permits.mp h).amount hmax

/-- The sample mandate with more room: a higher maximum, more kinds, any payee. -/
def roomierMandate : Mandate :=
  { sampleMandate with
    maxAmountCents := 9000
    allowedKinds := ["trade", "swap"]
    allowedCounterparties := []
    counterpartyLimits := [] }

theorem permissive_roomierMandate : AtLeastAsPermissive roomierMandate sampleMandate where
  amount := by decide
  kinds := by decide
  assets := List.Subset.refl _
  counterparties := .inl rfl
  issuers := OptInWider.refl _
  subLimits := by
    intro cp limit' h
    cases h
  starts := .inl rfl
  ends := .inl rfl

theorem decide_monotone_sample :
    (Gate.decide sampleCrates { sampleAction with amountCents := 40 } roomierMandate 7).1 =
      true ∧
    (Gate.decide sampleCrates { sampleAction with amountCents := 9001 } roomierMandate 7).1 =
      false := by
  have hmonotone := decide_monotone sampleCrates 7
  have hless : NoLarger { sampleAction with amountCents := 40 } sampleAction :=
    ⟨rfl, rfl, rfl, rfl, by decide⟩
  have happroved : (Gate.decide sampleCrates sampleAction sampleMandate 7).1 = true :=
    decide_iff_permits.mpr (sampleAction_permitted 7)
  exact ⟨hmonotone.1 hless permissive_roomierMandate happroved, hmonotone.2.2 (by decide)⟩

/-! ## Leaving out the payee -/

def Action.towards (action : Action) (cp : Option RString) : Action :=
  { action with counterparty := cp }

/-- The rules that do not look at the payee. -/
structure PermitsUnaddressed (action : Action) (mandate : Mandate) (nowSecs : UInt64) :
    Prop where
  active : mandate.validAfterSecs = 0 ∨ mandate.validAfterSecs ≤ nowSecs
  unexpired : mandate.expiresAtSecs = 0 ∨ nowSecs ≤ mandate.expiresAtSecs
  kind : Listed mandate.allowedKinds action.kind
  asset : Listed mandate.allowedAssets action.asset
  issuer : mandate.allowedIssuers ≠ [] →
    ∃ iss, action.issuer = some iss ∧ Listed mandate.allowedIssuers iss
  amount : action.amountCents ≤ mandate.maxAmountCents

/-- Without a payee the sub-limits say nothing, and a list of payees is not satisfied. -/
theorem permits_towards_none {action : Action} {mandate : Mandate} {nowSecs : UInt64} :
    Permits (action.towards none) mandate nowSecs ↔
      mandate.allowedCounterparties = [] ∧ PermitsUnaddressed action mandate nowSecs := by
  constructor
  · intro h
    refine ⟨?_, ⟨h.active, h.unexpired, h.kind, h.asset, h.issuer, h.amount⟩⟩
    by_contra hne
    obtain ⟨cp, hcp, -⟩ := h.counterparty hne
    cases hcp
  · rintro ⟨hnil, h⟩
    exact {
      active := h.active
      unexpired := h.unexpired
      kind := h.kind
      asset := h.asset
      counterparty := fun hne => absurd hnil hne
      issuer := h.issuer
      amount := h.amount
      subLimit := by
        intro cp limit hcp
        cases hcp }

/-- With a payee, and no list of payees, only the sub-limit is added. -/
theorem permits_towards_some {action : Action} {mandate : Mandate} {nowSecs : UInt64}
    {cp : RString} (hnil : mandate.allowedCounterparties = []) :
    Permits (action.towards (some cp)) mandate nowSecs ↔
      PermitsUnaddressed action mandate nowSecs ∧
        ∀ limit, mandate.counterpartyLimits.lookup cp.val = some limit →
          action.amountCents ≤ limit := by
  constructor
  · intro h
    exact ⟨⟨h.active, h.unexpired, h.kind, h.asset, h.issuer, h.amount⟩,
      fun limit hlimit => h.subLimit cp limit rfl hlimit⟩
  · rintro ⟨h, hlimit⟩
    exact {
      active := h.active
      unexpired := h.unexpired
      kind := h.kind
      asset := h.asset
      counterparty := fun hne => absurd hnil hne
      issuer := h.issuer
      amount := h.amount
      subLimit := by
        intro cp' limit hcp hlookup
        cases hcp
        exact hlimit limit hlookup }

/-- When naming no payee gains nothing over naming this one: the mandate lists its payees,
or the payee has no limit below the amount, or another rule refuses the action. -/
def OmissionCovered (action : Action) (mandate : Mandate) (nowSecs : UInt64) (cp : RString) :
    Prop :=
  mandate.allowedCounterparties ≠ [] ∨
    (∀ limit, mandate.counterpartyLimits.lookup cp.val = some limit →
      action.amountCents ≤ limit) ∨
    ¬ PermitsUnaddressed action mandate nowSecs

/-- A sub-limit under an empty list of payees is the only refusal that leaving the payee out
gets around. -/
theorem rejected_without_counterparty_iff (C : Crates) (action : Action) (mandate : Mandate)
    (nowSecs : UInt64) (cp : RString) :
    ((Gate.decide C (action.towards (some cp)) mandate nowSecs).1 = false →
      (Gate.decide C (action.towards none) mandate nowSecs).1 = false) ↔
    OmissionCovered action mandate nowSecs cp := by
  simp only [Bool.eq_false_iff, ne_eq, decide_iff_permits, permits_towards_none, OmissionCovered]
  by_cases hnil : mandate.allowedCounterparties = []
  · rw [permits_towards_some hnil]
    tauto
  · tauto

/-- A mandate that caps one payee and lists none. -/
def cappedMandate : Mandate :=
  { sampleMandate with
    allowedCounterparties := []
    counterpartyLimits := [("fund", 100)] }

def cappedAction : Action := { sampleAction with amountCents := 200 }

theorem cappedAction_unaddressed (nowSecs : UInt64) :
    PermitsUnaddressed cappedAction cappedMandate nowSecs where
  active := .inl rfl
  unexpired := .inl rfl
  kind := .inr (by decide)
  asset := .inr (by decide)
  issuer := fun _ => ⟨_, rfl, .inr (by decide)⟩
  amount := by decide

/-- 200 cents are refused to the payee capped at 100, and approved to nobody in
particular. -/
theorem omitted_counterparty_approved :
    ¬ ∀ (C : Crates) (action : Action) (mandate : Mandate) (nowSecs : UInt64) (cp : RString),
      (Gate.decide C (action.towards (some cp)) mandate nowSecs).1 = false →
        (Gate.decide C (action.towards none) mandate nowSecs).1 = false := by
  intro h
  have hrejected : (Gate.decide sampleCrates
      (cappedAction.towards (some (rstring "fund"))) cappedMandate 7).1 = false := by
    rw [Bool.eq_false_iff, ne_eq, decide_iff_permits, permits_towards_some rfl]
    rintro ⟨-, hlimit⟩
    exact absurd (hlimit 100 rfl) (by decide)
  have happroved : (Gate.decide sampleCrates (cappedAction.towards none) cappedMandate 7).1 =
      true :=
    decide_iff_permits.mpr (permits_towards_none.mpr ⟨rfl, cappedAction_unaddressed 7⟩)
  have hstill : (Gate.decide sampleCrates (cappedAction.towards none) cappedMandate 7).1 =
      false := h _ _ _ _ _ hrejected
  rw [happroved] at hstill
  cases hstill

end Gatekeeper.Gate
