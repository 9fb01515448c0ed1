import Gatekeeper.Agent.Mandated
import Gatekeeper.Agent.X402Theorems
import Gatekeeper.Gate.SampleTenant
import Gatekeeper.Lib.JsValueTheorems

/-!
# A sample paywall

A resource server on Base Sepolia that charges USDC, with the network, the token contract, the
amount and the decimals left open, and a mandate that permits such payments.
-/

namespace Gatekeeper.Agent

open Interaction Js Gate

def sepoliaUsdc : String := "0x036CbD53842c5426634e7929541eC2318f3dCF7e"

def baseUsdc : String := "0x833589fCD6eDb6E08f4c7C32D4f71b54bdA02913"

def samplePayee : String := "0x209693Bc6afc0C5328bA36FaF03C514EF312287C"

/-- The three addresses, spelled with their checksums. -/
def samplePlatform : Platform where
  getAddress := fun s => if s ∈ [sepoliaUsdc, baseUsdc, samplePayee] then some s else none
  maxPow := 1000
  maxPow_lt := by omega

/-- Every token here has six decimals. -/
def sampleDecimals : String → ℕ := fun _ => 6

def smallNumber (n : ℕ) (h : n < 2 ^ 53) : Value :=
  .number (.whole ⟨n, Double.isDouble_of_lt h⟩)

/-! ## The server -/

/-- One way to pay: which token on which network, how much of it, at which decimals. -/
structure Charge where
  asset : String
  network : String
  amount : String
  decimals : Value

def Charge.requirement (c : Charge) : Value :=
  .object [("scheme", .string "exact"), ("network", .string c.network),
    ("amount", .string c.amount), ("asset", .string c.asset), ("payTo", .string samplePayee),
    ("extra", .object [("name", .string "USDC"), ("version", .string "2"),
      ("decimals", c.decimals)])]

def Charge.challenge (c : Charge) : Value :=
  .object [("x402Version", smallNumber 2 (by omega)), ("accepts", .array [c.requirement])]

def payAction (cents : ℕ) : PayAction where
  kind := paymentKind
  asset := .string "USDC"
  amountCents := Number.ofNat cents
  counterparty := .string samplePayee

def Charge.quote (c : Charge) (cents chain : ℕ) : Quote where
  requirement := c.requirement
  action := payAction cents
  domain := ⟨.string "USDC", "2", Number.ofNat chain, c.asset⟩
  toAddress := samplePayee
  value := c.amount

theorem Charge.selected (c : Charge) :
    selectRequirement c.challenge "exact" none = .ok c.requirement := rfl

theorem Charge.quotes {c : Charge} {cents chain : ℕ}
    (hcents : amountToCents samplePlatform (.string c.amount) c.decimals = .ok (Number.ofNat cents))
    (hchain : caipChain c.network = some chain)
    (hasset : samplePlatform.getAddress c.asset = some c.asset) :
    Quotes samplePlatform {} c.challenge (c.quote cents chain) where
  present := rfl
  wallet := rfl
  requirement := c.selected
  action := by
    show (amountToCents samplePlatform (.string c.amount) c.decimals >>= fun cents =>
      .ok { payAction 0 with amountCents := cents }) = _
    rw [hcents]
    rfl
  domain := by
    have hchainId : chainIdFor (.string c.network) = .ok (Number.ofNat chain) :=
      bind_eq_ok.mpr ⟨c.network, rfl, by simp only [hchain]; rfl⟩
    have hcontract : addressOf samplePlatform (.string c.asset) = .ok c.asset := by
      rw [addressOf, hasset]
    show (chainIdFor (.string c.network) >>= fun chainId =>
      addressOf samplePlatform (.string c.asset) >>= fun verifyingContract =>
        .ok (⟨.string "USDC", "2", chainId, verifyingContract⟩ : Eip712Domain)) = _
    rw [hchainId, hcontract]
    rfl
  toAddress := rfl
  value := rfl

theorem Charge.encodable {c : Charge} {cents chain value : ℕ} (hchain : chain < 2 ^ 53)
    (hvalue : stringToBigInt c.amount = some (value : ℤ)) (hfits : value < 2 ^ 256) :
    Encodable (c.quote cents chain).domain (c.quote cents chain).value where
  name := ⟨"USDC", rfl⟩
  chainId := by
    have hround : Double.round chain = chain := Double.round_of_lt hchain
    have hlog : Nat.log2 (Double.round chain) < 1024 := by
      rw [hround]
      exact (Double.isDouble_of_lt hchain).2
    refine ⟨⟨Double.round chain, Double.isDouble_round hlog⟩, ?_, ?_⟩
    · exact dif_pos hlog
    · show Double.round chain < 2 ^ 53
      omega
  value := ⟨value, hvalue, hfits⟩

/-- One cent of USDC, at its six decimals. -/
def honestCharge : Charge where
  asset := sepoliaUsdc
  network := "eip155:84532"
  amount := "10000"
  decimals := smallNumber 6 (by omega)

theorem honestCharge_quotes :
    Quotes samplePlatform {} honestCharge.challenge (honestCharge.quote 1 84532) :=
  Charge.quotes (by decide +kernel) (by decide) (by decide)

/-! ## The tenant -/

/-- Up to five cents of USDC for an API call, to one payee. -/
def paymentMandate : Mandate where
  maxAmountCents := 5
  allowedAssets := ["USDC"]
  allowedKinds := [paymentKind]
  allowedCounterparties := [samplePayee]
  allowedIssuers := []
  counterpartyLimits := [(samplePayee, 5)]
  expiresAtSecs := 0
  validAfterSecs := 0
  credentialKey := ""
  requireCredential := false
  requireIdempotencyKey := false

/-- The payment of one cent, as the gate reads it. -/
def oneCent : Gate.Action where
  kind := rstring paymentKind
  asset := sampleAsset
  amountCents := 1
  counterparty := some (rstring samplePayee)
  issuer := none

theorem gateAction_oneCent : gateAction (payAction 1) = some oneCent := by decide +kernel

theorem paymentMandate_permits : PermitsBare oneCent paymentMandate 0 where
  permits := {
    active := .inl rfl
    unexpired := .inl rfl
    kind := .inr (by decide)
    asset := .inr (by decide)
    counterparty := fun _ => ⟨_, rfl, .inr (by decide)⟩
    issuer := fun h => absurd rfl h
    amount := by decide
    subLimit := by
      intro cp limit hcp hlimit
      cases hcp
      cases hlimit
      decide }
  noCredential := rfl
  noKey := rfl

end Gatekeeper.Agent
