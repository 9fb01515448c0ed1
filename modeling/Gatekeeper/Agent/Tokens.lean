import Gatekeeper.Agent.Payments

/-!
# Which token an approval signs for

The mandate sees a token by the name the server gives it. Two challenges that come to one
action are signed under one domain name and pay one address; the contract and the chain are
those of each requirement.
-/

namespace Gatekeeper.Agent

open Interaction Js Gate

/-- The requirement that the client picks, and the action it becomes. -/
def MapsTo (P : Platform) (opts : Options) (challenge requirement : Value) (action : PayAction) :
    Prop :=
  selectRequirement challenge opts.scheme opts.network = .ok requirement ∧
    actionForRequirement P requirement opts.decimals = .ok action

/-! ## Picking by network -/

theorem isUsable_of_mem {scheme : String} {network : Option String} {l l' : List Value}
    (h : usable scheme network l = .ok l') : ∀ a ∈ l', isUsable scheme network a = .ok true := by
  induction l generalizing l' with
  | nil =>
    cases h
    intro a ha
    cases ha
  | cons a l ih =>
    obtain ⟨keep, hkeep, h⟩ := bind_eq_ok.mp h
    obtain ⟨rest, hrest, h⟩ := bind_eq_ok.mp h
    cases h
    -- the requirement kept here, or one kept later
    cases keep with
    | false => exact ih hrest
    | true =>
      intro b hb
      rcases List.mem_cons.mp hb with rfl | hb
      · exact hkeep
      · exact ih hrest b hb

theorem isUsable_selected {challenge requirement : Value} {scheme : String}
    {network : Option String} (h : selectRequirement challenge scheme network = .ok requirement) :
    isUsable scheme network requirement = .ok true := by
  rw [selectRequirement] at h
  split at h
  · obtain ⟨l, hl, h⟩ := bind_eq_ok.mp h
    cases l with
    | nil =>
      obtain ⟨_, _, h⟩ := bind_eq_ok.mp h
      cases h
    | cons a l =>
      cases h
      exact isUsable_of_mem hl _ List.mem_cons_self
  · cases h

/-- A caller that names a network gets a requirement of that network. -/
theorem network_selected {challenge requirement : Value} {scheme n : String}
    (h : selectRequirement challenge scheme (some n) = .ok requirement) (hn : n ≠ "") :
    requirement.get "network" = .ok (.string n) := by
  obtain ⟨s, _, h⟩ := bind_eq_ok.mp (isUsable_selected h)
  have hfilter : (some n).filter (· ≠ "") = some n := by simp [hn]
  split_ifs at h
  · rw [hfilter] at h
    obtain ⟨w, hw, h⟩ := bind_eq_ok.mp h
    rw [hw]
    exact congrArg _ (Value.isString_iff.mp (Except.ok.inj h))
  · cases h

/-! ## What an action fixes -/

section Domain

variable {P : Platform} {opts : Options} {challenge requirement : Value} {q : Quote}

/-- Where a domain comes from. -/
theorem eip712Domain_spec {domain : Eip712Domain} (h : eip712Domain P requirement = .ok domain) :
    domain.name = (requirement.get? "extra").get? "name" ∧ domain.name.truthy = true ∧
      (requirement.get "network" >>= chainIdFor) = .ok domain.chainId ∧
      (requirement.get "asset" >>= addressOf P) = .ok domain.verifyingContract := by
  rw [eip712Domain] at h
  split_ifs at h with htruthy
  · obtain ⟨version, _, h⟩ := bind_eq_ok.mp h
    obtain ⟨chainId, hchainId, h⟩ := bind_eq_ok.mp h
    obtain ⟨contract, hcontract, h⟩ := bind_eq_ok.mp h
    cases h
    exact ⟨rfl, htruthy.1, hchainId, hcontract⟩

/-- The domain is signed under the name that the mandate sees as the asset. -/
theorem Quotes.name_eq_asset (hq : Quotes P opts challenge q) :
    q.domain.name = q.action.asset := by
  obtain ⟨hname, htruthy, _⟩ := eip712Domain_spec hq.domain
  obtain ⟨amount, _, h⟩ := bind_eq_ok.mp hq.action
  obtain ⟨cents, _, h⟩ := bind_eq_ok.mp h
  obtain ⟨payTo, _, h⟩ := bind_eq_ok.mp h
  rw [hname] at htruthy ⊢
  rw [← Except.ok.inj h]
  -- a name is required, so the asset is never the address
  show _ = Value.orElse _ _
  cases hn : (q.requirement.get? "extra").get? "name" with
  | undefined =>
    rw [hn] at htruthy
    cases htruthy
  | null =>
    rw [hn] at htruthy
    cases htruthy
  | bool | number | string | array | object => rfl

/-- The address that is paid is the counterparty the mandate sees. -/
theorem Quotes.toAddress_eq (hq : Quotes P opts challenge q) :
    addressOf P q.action.counterparty = .ok q.toAddress := by
  obtain ⟨amount, _, h⟩ := bind_eq_ok.mp hq.action
  obtain ⟨cents, _, h⟩ := bind_eq_ok.mp h
  obtain ⟨payTo, hpayTo, h⟩ := bind_eq_ok.mp h
  obtain ⟨payTo', hpayTo', hto⟩ := bind_eq_ok.mp hq.toAddress
  obtain rfl : payTo = payTo' := Except.ok.inj (hpayTo.symm.trans hpayTo')
  rw [← Except.ok.inj h]
  exact hto

end Domain

/-! ## Two challenges with one action -/

/-- What two signatures for challenges that come to the same action have in common. The
contracts and the chains are those of each requirement. -/
structure SameApproval (P : Platform) (opts : Options) (action : PayAction)
    (requirement₁ requirement₂ : Value) (domain₁ domain₂ : Eip712Domain)
    (authorization₁ authorization₂ : Authorization) : Prop where
  name : domain₁.name = action.asset ∧ domain₂.name = action.asset
  payee : authorization₁.toAddress = authorization₂.toAddress
  contract₁ : (requirement₁.get "asset" >>= addressOf P) = .ok domain₁.verifyingContract
  contract₂ : (requirement₂.get "asset" >>= addressOf P) = .ok domain₂.verifyingContract
  chain₁ : (requirement₁.get "network" >>= chainIdFor) = .ok domain₁.chainId
  chain₂ : (requirement₂.get "network" >>= chainIdFor) = .ok domain₂.chainId
  network : ∀ n, opts.network = some n → n ≠ "" → domain₁.chainId = domain₂.chainId

/-- A signature of a run that was charged with a challenge comes from what it maps to. -/
theorem quotes_of_signs {P : Platform} {url : String} {opts : Options}
    {challenge requirement : Value} {action : PayAction} {t : List ClientEvent}
    {r : Except Error FetchResult} {domain : Eip712Domain} {authorization : Authorization}
    (hmaps : MapsTo P opts challenge requirement action)
    (h : Emits (fetchWithMandate P url opts) t r) (hcharged : Charged challenge t)
    (hsigns : Signs t domain authorization) :
    ∃ q, Quotes P opts challenge q ∧ q.requirement = requirement ∧ q.action = action ∧
      Approves t q.action q.requirement challenge ∧ SignedFor q domain authorization := by
  obtain ⟨challenge', q, hcharged', hq, happroves, hsigned⟩ := signs_spec h hsigns
  obtain rfl := charged_unique hcharged hcharged'
  have hrequirement : q.requirement = requirement :=
    Except.ok.inj (hq.requirement.symm.trans hmaps.1)
  have haction := hq.action
  rw [hrequirement, hmaps.2] at haction
  exact ⟨q, hq, hrequirement, (Except.ok.inj haction).symm, happroves, hsigned⟩

/-- A mandate that lists one asset approves only actions in it. -/
theorem asset_of_approves {C : Crates} {mandate : Mandate} {t : List ClientEvent}
    {action : PayAction} {requirement challenge : Value} {name : String}
    (hgated : Gated C mandate t) (h : Approves t action requirement challenge)
    (hassets : mandate.allowedAssets = [name]) (hname : name ≠ "*") :
    action.asset = .string name := by
  obtain ⟨v, hv, happroval⟩ := h
  obtain ⟨a, _, ha, hpermits⟩ := GateAnswer.permits (hgated _ hv) happroval
  have hlisted := hpermits.permits.asset
  rw [hassets] at hlisted
  rcases hlisted with hstar | hasset
  · exact absurd (List.mem_singleton.mp hstar).symm hname
  · rw [(gateAction_spec ha).1, List.mem_singleton.mp hasset]

/-- Two challenges that come to the same action are signed under the name that the mandate
saw, for the payee that it saw; a mandate that lists one asset has only that name signed. -/
theorem same_action_same_approval (P : Platform) (url₁ url₂ : String) (opts : Options)
    {challenge₁ challenge₂ requirement₁ requirement₂ : Value} {action : PayAction}
    {t₁ t₂ : List ClientEvent} {r₁ r₂ : Except Error FetchResult}
    {domain₁ domain₂ : Eip712Domain} {authorization₁ authorization₂ : Authorization}
    (hmaps₁ : MapsTo P opts challenge₁ requirement₁ action)
    (hmaps₂ : MapsTo P opts challenge₂ requirement₂ action)
    (h₁ : Emits (fetchWithMandate P url₁ opts) t₁ r₁) (hcharged₁ : Charged challenge₁ t₁)
    (hsigns₁ : Signs t₁ domain₁ authorization₁)
    (h₂ : Emits (fetchWithMandate P url₂ opts) t₂ r₂) (hcharged₂ : Charged challenge₂ t₂)
    (hsigns₂ : Signs t₂ domain₂ authorization₂) :
    SameApproval P opts action requirement₁ requirement₂ domain₁ domain₂ authorization₁
        authorization₂ ∧
      ∀ (C : Crates) (mandate : Mandate) (name : String), Gated C mandate t₁ →
        mandate.allowedAssets = [name] → name ≠ "*" → domain₁.name = .string name := by
  obtain ⟨q₁, hq₁, rfl, rfl, happroves, hs₁⟩ := quotes_of_signs hmaps₁ h₁ hcharged₁ hsigns₁
  obtain ⟨q₂, hq₂, rfl, haction, _, hs₂⟩ := quotes_of_signs hmaps₂ h₂ hcharged₂ hsigns₂
  obtain ⟨_, _, hchain₁, hcontract₁⟩ := eip712Domain_spec hq₁.domain
  obtain ⟨_, _, hchain₂, hcontract₂⟩ := eip712Domain_spec hq₂.domain
  have hname : domain₁.name = q₁.action.asset := by rw [hs₁.domain, hq₁.name_eq_asset]
  refine ⟨⟨⟨hname, ?_⟩, ?_, ?_, ?_, ?_, ?_, ?_⟩, ?_⟩
  · rw [hs₂.domain, hq₂.name_eq_asset, haction]
  · have hto := hq₂.toAddress_eq
    rw [haction, hq₁.toAddress_eq] at hto
    rw [hs₁.toAddress, hs₂.toAddress]
    exact Except.ok.inj hto
  · rw [hs₁.domain, hcontract₁]
  · rw [hs₂.domain, hcontract₂]
  · rw [hs₁.domain, hchain₁]
  · rw [hs₂.domain, hchain₂]
  · intro n hn hne
    -- both requirements name the network that the caller asked for
    have hselected₁ := hq₁.requirement
    have hselected₂ := hq₂.requirement
    rw [hn] at hselected₁ hselected₂
    rw [network_selected hselected₁ hne] at hchain₁
    rw [network_selected hselected₂ hne] at hchain₂
    rw [hs₁.domain, hs₂.domain]
    exact Except.ok.inj (hchain₁.symm.trans hchain₂)
  · intro C mandate name hgated hassets hstar
    rw [hname, asset_of_approves hgated happroves hassets hstar]

/-- One cent of USDC on another network, in another contract. -/
def baseCharge : Charge := { honestCharge with asset := baseUsdc, network := "eip155:8453" }

theorem baseCharge_quotes :
    Quotes samplePlatform {} baseCharge.challenge (baseCharge.quote 1 8453) :=
  Charge.quotes (by decide +kernel) (by decide) (by decide)

/-- A run that pays a charge of one cent. -/
theorem exists_run_of_charge {c : Charge} {chain : ℕ}
    (hq : Quotes samplePlatform {} c.challenge (c.quote 1 chain)) (hchain : chain < 2 ^ 53)
    (hamount : c.amount = "10000") :
    ∃ t r authorization,
      Emits (fetchWithMandate samplePlatform "https://api.example/quote" {}) t r ∧
      Charged c.challenge t ∧ Gated sampleCrates paymentMandate t ∧
      Signs t (c.quote 1 chain).domain authorization := by
  have hvalue : stringToBigInt c.amount = some ((10000 : ℕ) : ℤ) := by
    rw [hamount]
    decide
  obtain ⟨t, r, authorization, hemits, hcharged, hgated, hsigns, _⟩ :=
    exists_signing_run "https://api.example/quote" hq (Charge.encodable hchain hvalue (by decide))
      gateAction_oneCent paymentMandate_permits
  exact ⟨t, r, authorization, hemits, hcharged, hgated, hsigns⟩

theorem same_action_same_approval_sample :
    ∃ t₁ t₂ domain₁ domain₂ authorization₁ authorization₂,
      Signs t₁ domain₁ authorization₁ ∧ Signs t₂ domain₂ authorization₂ ∧
      SameApproval samplePlatform {} (payAction 1) honestCharge.requirement
        baseCharge.requirement domain₁ domain₂ authorization₁ authorization₂ ∧
      ∀ (C : Crates) (mandate : Mandate) (name : String), Gated C mandate t₁ →
        mandate.allowedAssets = [name] → name ≠ "*" → domain₁.name = .string name := by
  obtain ⟨t₁, r₁, a₁, h₁, hcharged₁, _, hsigns₁⟩ :=
    exists_run_of_charge honestCharge_quotes (by omega) rfl
  obtain ⟨t₂, r₂, a₂, h₂, hcharged₂, _, hsigns₂⟩ :=
    exists_run_of_charge baseCharge_quotes (by omega) rfl
  exact ⟨t₁, t₂, _, _, a₁, a₂, hsigns₁, hsigns₂,
    same_action_same_approval samplePlatform _ _ {}
      ⟨honestCharge_quotes.requirement, honestCharge_quotes.action⟩
      ⟨baseCharge_quotes.requirement, baseCharge_quotes.action⟩ h₁ hcharged₁ hsigns₁ h₂ hcharged₂
      hsigns₂⟩

/-- One action, approved under one mandate for one asset, is signed for two contracts on two
chains. -/
theorem same_action_two_tokens :
    MapsTo samplePlatform {} honestCharge.challenge honestCharge.requirement (payAction 1) ∧
      MapsTo samplePlatform {} baseCharge.challenge baseCharge.requirement (payAction 1) ∧
      paymentMandate.allowedAssets = ["USDC"] ∧
      ∃ t₁ t₂ r₁ r₂ domain₁ domain₂ authorization₁ authorization₂,
        Emits (fetchWithMandate samplePlatform "https://api.example/quote" {}) t₁ r₁ ∧
        Charged honestCharge.challenge t₁ ∧ Gated sampleCrates paymentMandate t₁ ∧
        Signs t₁ domain₁ authorization₁ ∧
        Emits (fetchWithMandate samplePlatform "https://api.example/quote" {}) t₂ r₂ ∧
        Charged baseCharge.challenge t₂ ∧ Gated sampleCrates paymentMandate t₂ ∧
        Signs t₂ domain₂ authorization₂ ∧
        domain₁.verifyingContract ≠ domain₂.verifyingContract ∧
        domain₁.chainId ≠ domain₂.chainId := by
  obtain ⟨t₁, r₁, a₁, h₁, hcharged₁, hgated₁, hsigns₁⟩ :=
    exists_run_of_charge honestCharge_quotes (by omega) rfl
  obtain ⟨t₂, r₂, a₂, h₂, hcharged₂, hgated₂, hsigns₂⟩ :=
    exists_run_of_charge baseCharge_quotes (by omega) rfl
  refine ⟨⟨honestCharge_quotes.requirement, honestCharge_quotes.action⟩,
    ⟨baseCharge_quotes.requirement, baseCharge_quotes.action⟩, rfl, t₁, t₂, r₁, r₂, _, _, a₁, a₂,
    h₁, hcharged₁, hgated₁, hsigns₁, h₂, hcharged₂, hgated₂, hsigns₂, ?_, ?_⟩
  · exact (by decide : sepoliaUsdc ≠ baseUsdc)
  · exact (by decide +kernel : Number.ofNat 84532 ≠ Number.ofNat 8453)

end Gatekeeper.Agent
