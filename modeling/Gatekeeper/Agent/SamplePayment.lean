import Gatekeeper.Agent.ExchangeTheorems
import Gatekeeper.Agent.SamplePaywall

/-!
# A sample payment

`ethers` for the addresses of the sample paywall and for two transfers that one key signed under
the domain of USDC on Base Sepolia.
-/

namespace Gatekeeper.Agent.Exchange

open Ecma Encoding
open Js (Error Numeric LooseMinus stringToBigInt)

def sampleSigner : String := "0x70997970C51812dc3A010C7d01b50e0d17dc79C8"

def sampleNonce : String := "0x000102030405060708090a0b0c0d0e0f101112131415161718191a1b1c1d1e1f"

/-- One cent, for ten minutes and a minute before. -/
def sampleTransfer : Transfer where
  fromAddress := sampleSigner
  toAddress := samplePayee
  value := 10000
  validAfter := 1699999940
  validBefore := 1700000600
  nonce := (List.range 32).map Nat.toUInt8

/-- One cent that is never valid. -/
def endedTransfer : Transfer := { sampleTransfer with validBefore := 0 }

def sampleSignature : String :=
  "0x368ef94923c05453a05767ae69acf070e61703645a19a98fb3ce3ced4c8d24f4" ++
    "5a76869656df605152df79ee367932fc647a2423d509946c3b954567bb888b821b"

def endedSignature : String :=
  "0x3288e2fa46c0ef6a0c01f53135760b3eb23026d91f9f9d207c9b86a4fafaf0ea" ++
    "2122bbb768d5305fda7918c6f9b26e8a32d5224dde5350bec1f05277c6cc211f1b"

def sampleDomain : Eip712Domain where
  name := textOf "USDC"
  version := ofString "2"
  chainId := .ofRat 84532
  verifyingContract := sepoliaUsdc

def isSampleDomain (domain : Eip712Domain) : Bool :=
  isText (some domain.name) "USDC" && domain.version == ofString "2" &&
    domain.chainId == .ofRat 84532 && domain.verifyingContract == sepoliaUsdc

def signatureOf (domain : Eip712Domain) (m : Transfer) : Option String :=
  if isSampleDomain domain then
    if m = sampleTransfer then some sampleSignature
    else if m = endedTransfer then some endedSignature
    else none
  else none

/-- `getBigInt(s)`: a minus sign that no second one follows is taken off before `BigInt(..)`. -/
def getBigInt (s : String) : Option ℤ :=
  match s.toList with
  | [] => none
  | '-' :: cs =>
    if cs.head? = some '-' then none else (stringToBigInt (String.ofList cs)).map fun n => -n
  | cs => stringToBigInt (String.ofList cs)

def inUint256 : Option ℤ → Except Error ℕ
  | some n => if 0 ≤ n ∧ n < 2 ^ 256 then .ok n.toNat else .error (.error "value out-of-bounds")
  | none => .error (.error "invalid BigNumberish string")

def knownAddress : Option Value → Except Error String
  | some (.string s) =>
    if plain s ∈ [sepoliaUsdc, samplePayee, sampleSigner] then .ok (plain s)
    else .error (.error "invalid address")
  | _ => .error (.error "invalid address")

def readUint256 : Option Value → Except Error ℕ
  | some (.string s) => inUint256 (getBigInt (plain s))
  | some (.number (.finite x)) =>
    if x.val.den = 1 ∧ |x.val| < 2 ^ 53 then inUint256 (some x.val.num)
    else .error (.error "invalid BigNumberish value")
  | _ => .error (.error "invalid BigNumberish value")

def signKnown (domain : Eip712Domain) (m : Transfer) : Except Error String :=
  match signatureOf domain m with
  | some signature => .ok signature
  | none => .error (.error "unknown transfer")

def recoverKnown (domain : Eip712Domain) (m : Transfer) : Value → Except Error String
  | .string s =>
    if signatureOf domain m = some (plain s) then .ok sampleSigner
    else .error (.error "invalid signature")
  | _ => .error (.error "invalid signature")

def sampleEthers : Ethers where
  Wallet := Unit
  address := fun _ => sampleSigner
  getAddress := knownAddress
  uint256 := readUint256
  bytes32 := fun v =>
    if isText v sampleNonce then .ok sampleTransfer.nonce else .error (.error "invalid BytesLike")
  sign := fun _ => signKnown
  recover := recoverKnown
  message := fun _ => []
  fromBase64 := base64Decode

def sampleWallet : sampleEthers.Wallet := ()

/-! ## What it is relied on for -/

@[simp] theorem sampleEthers_getAddress : sampleEthers.getAddress = knownAddress := rfl

@[simp] theorem sampleEthers_address (w : sampleEthers.Wallet) :
    sampleEthers.address w = sampleSigner := rfl

@[simp] theorem sampleEthers_sign (w : sampleEthers.Wallet) :
    sampleEthers.sign w = signKnown := rfl

@[simp] theorem sampleEthers_recover : sampleEthers.recover = recoverKnown := rfl

theorem isSampleDomain_iff {domain : Eip712Domain} :
    isSampleDomain domain = true ↔ domain = sampleDomain := by
  rw [isSampleDomain, Bool.and_eq_true, Bool.and_eq_true, Bool.and_eq_true, isText_iff, beq_iff_eq,
    beq_iff_eq, beq_iff_eq]
  constructor
  · rintro ⟨⟨⟨hname, hversion⟩, hchain⟩, hcontract⟩
    cases domain
    obtain rfl := Option.some.inj hname
    subst hversion hchain hcontract
    rfl
  · rintro rfl
    exact ⟨⟨⟨rfl, rfl⟩, rfl⟩, rfl⟩

theorem signatureOf_eq_some {domain : Eip712Domain} {m : Transfer} {s : String}
    (h : signatureOf domain m = some s) : domain = sampleDomain ∧
      (m = sampleTransfer ∧ s = sampleSignature ∨ m = endedTransfer ∧ s = endedSignature) := by
  unfold signatureOf at h
  split_ifs at h with hdomain hm hm'
  · exact ⟨isSampleDomain_iff.mp hdomain, .inl ⟨hm, (Option.some.inj h).symm⟩⟩
  · exact ⟨isSampleDomain_iff.mp hdomain, .inr ⟨hm', (Option.some.inj h).symm⟩⟩

theorem signatureOf_inj {domain domain' : Eip712Domain} {m m' : Transfer} {s : String}
    (h : signatureOf domain m = some s) (h' : signatureOf domain' m' = some s) :
    domain' = domain ∧ m' = m := by
  have hne : sampleSignature ≠ endedSignature := by decide
  obtain ⟨rfl, hm⟩ := signatureOf_eq_some h
  obtain ⟨rfl, hm'⟩ := signatureOf_eq_some h'
  refine ⟨rfl, ?_⟩
  rcases hm with ⟨rfl, rfl⟩ | ⟨rfl, rfl⟩ <;> rcases hm' with ⟨rfl, hs⟩ | ⟨rfl, hs⟩
  · rfl
  · exact absurd hs hne
  · exact absurd hs.symm hne
  · rfl

theorem inUint256_eq_ok {z : Option ℤ} {n : ℕ} (h : inUint256 z = .ok n) : z = some (n : ℤ) := by
  unfold inUint256 at h
  split at h
  case h_1 k =>
    split_ifs at h with hbound
    rw [← Except.ok.inj h, Int.toNat_of_nonneg hbound.1]
  case h_2 => cases h

/-- What `getBigInt` reads is read by the language, but for the minus sign. -/
theorem getBigInt_cases {s : String} {n : ℕ} (h : getBigInt s = some (n : ℤ)) :
    stringToBigInt s = some (n : ℤ) ∨ LooseMinus s := by
  unfold getBigInt at h
  split at h
  case h_1 => cases h
  case h_2 cs hs =>
    have hself : s = String.ofList ('-' :: cs) := by rw [← hs, String.ofList_toList]
    split_ifs at h
    obtain ⟨k, hk, hneg⟩ := Option.map_eq_some_iff.mp h
    cases hwhole : stringToBigInt s with
    | none => exact .inr ⟨cs, k, hself, hk, hwhole⟩
    | some j =>
      rw [hself] at hwhole
      rw [Js.stringToBigInt_negated hwhole hk, hneg]
      exact .inl rfl
  case h_3 =>
    rw [String.ofList_toList] at h
    exact .inl h

theorem knownAddress_eq_ok {v : Option Value} {a : String} (h : knownAddress v = .ok a) :
    ∃ s, v = some (.string s) ∧ plain s = a ∧ a ∈ [sepoliaUsdc, samplePayee, sampleSigner] := by
  unfold knownAddress at h
  split at h
  case h_1 s =>
    split_ifs at h with hmem
    obtain rfl := Except.ok.inj h
    exact ⟨s, rfl, rfl, hmem⟩
  case h_2 => cases h

theorem knownAddress_textOf {a : String} (h : a ∈ [sepoliaUsdc, samplePayee, sampleSigner]) :
    knownAddress (some (textOf a)) = .ok a := by
  have hplain := plain_ofString a
  rw [textOf, knownAddress, hplain, if_pos h]

theorem signKnown_eq_ok {domain : Eip712Domain} {m : Transfer} {s : String}
    (h : signKnown domain m = .ok s) : signatureOf domain m = some s := by
  unfold signKnown at h
  split at h
  case h_1 heq => rw [heq, Except.ok.inj h]
  case h_2 => cases h

theorem recoverKnown_eq_ok {domain : Eip712Domain} {m : Transfer} {signature : Value} {a : String}
    (h : recoverKnown domain m signature = .ok a) :
    a = sampleSigner ∧ ∃ s, signature = .string s ∧ signatureOf domain m = some (plain s) := by
  unfold recoverKnown at h
  split at h
  case h_1 s =>
    split_ifs at h with hknown
    exact ⟨(Except.ok.inj h).symm, s, rfl, hknown⟩
  case h_2 => cases h

theorem mem_sampleSigner : sampleSigner ∈ [sepoliaUsdc, samplePayee, sampleSigner] :=
  List.mem_of_getLast? rfl

theorem readUint256_cases {v : Option Value} {n : ℕ} (h : readUint256 v = .ok n) :
    SpelledWhole v n ∨ Misspelled v := by
  unfold readUint256 at h
  split at h
  case h_1 s =>
    rcases getBigInt_cases (inUint256_eq_ok h) with hwhole | hminus
    · exact .inl (.inr ⟨s, rfl, hwhole⟩)
    · exact .inr ⟨s, rfl, hminus⟩
  case h_2 x =>
    split_ifs at h with hwhole
    have hnum := Option.some.inj (inUint256_eq_ok h)
    refine .inl (.inl ⟨x, rfl, ?_⟩)
    rw [← (Rat.den_eq_one_iff x.val).mp hwhole.1, hnum, Int.cast_natCast]
  case h_3 => cases h

theorem sampleEthers_lawful : sampleEthers.Lawful where
  getAddress_text := by
    intro v a h
    rw [sampleEthers_getAddress] at h
    obtain ⟨s, hs, -⟩ := knownAddress_eq_ok h
    exact ⟨s, hs⟩
  getAddress_self := by
    intro v a h
    rw [sampleEthers_getAddress] at h ⊢
    obtain ⟨-, -, -, hmem⟩ := knownAddress_eq_ok h
    exact knownAddress_textOf hmem
  getAddress_wallet := by
    intro w
    rw [sampleEthers_getAddress, sampleEthers_address]
    exact knownAddress_textOf mem_sampleSigner
  getAddress_recover := by
    intro d m s a h
    rw [sampleEthers_recover] at h
    rw [sampleEthers_getAddress]
    obtain ⟨rfl, -⟩ := recoverKnown_eq_ok h
    exact knownAddress_textOf mem_sampleSigner
  uint256_reads := readUint256_cases
  recover_truthy := by
    intro d m s a h
    rw [sampleEthers_recover] at h
    obtain ⟨-, t, rfl, hknown⟩ := recoverKnown_eq_ok h
    have hne : plain t ≠ "" := by
      rcases (signatureOf_eq_some hknown).2 with ⟨-, hs⟩ | ⟨-, hs⟩ <;> rw [hs] <;> decide
    rw [truthy, decide_eq_true_eq]
    rintro rfl
    exact hne rfl
  fromBase64_encode := base64Decode_encode

theorem sampleEthers_ideal : sampleEthers.Ideal where
  recover_sign := by
    intro w d m s h d' m'
    rw [sampleEthers_sign] at h
    have hsigned := signKnown_eq_ok h
    have hplain := plain_ofString s
    rw [sampleEthers_recover, sampleEthers_address, textOf]
    constructor
    · intro hrecover
      obtain ⟨-, t, ht, hknown⟩ := recoverKnown_eq_ok hrecover
      obtain rfl := Value.string.inj ht
      rw [hplain] at hknown
      exact signatureOf_inj hsigned hknown
    · rintro ⟨rfl, rfl⟩
      rw [recoverKnown, hplain, if_pos hsigned]
  sign_of_recover := by
    intro d m v a h
    rw [sampleEthers_recover] at h
    obtain ⟨rfl, s, -, hknown⟩ := recoverKnown_eq_ok h
    exact ⟨sampleWallet, plain s, rfl, by rw [sampleEthers_sign, signKnown, hknown]⟩

/-! ## The payment -/

def sampleRequirement : Value :=
  .object [(ofString "scheme", textOf "exact"), (ofString "network", textOf "eip155:84532"),
    (ofString "amount", textOf "10000"), (ofString "asset", textOf sepoliaUsdc),
    (ofString "payTo", textOf samplePayee), (ofString "maxTimeoutSeconds", .number (.ofRat 60)),
    (ofString "extra", .object [(ofString "assetTransferMethod", textOf "eip3009"),
      (ofString "name", textOf "USDC"), (ofString "version", textOf "2"),
      (ofString "decimals", .number (.ofRat 6))])]

def sampleTime : Binary64.Finite :=
  Js.Whole.toFinite ⟨1700000000, Double.isDouble_of_lt (by decide)⟩

theorem sampleRequirement_name : extra sampleRequirement "name" = some (textOf "USDC") := rfl

theorem sampleRequirement_version : extra sampleRequirement "version" = some (textOf "2") := rfl

theorem sampleRequirement_payTo : sampleRequirement.get? "payTo" = some (textOf samplePayee) := rfl

theorem sampleRequirement_amount : sampleRequirement.get? "amount" = some (textOf "10000") := rfl

theorem sampleRequirement_domain :
    eip712Domain sampleEthers sampleRequirement = .ok sampleDomain := by
  have hcomplete : (truthy (some (textOf "USDC")) && truthy (some (textOf "2"))) = true := by
    decide
  have hchain : chainIdFor (sampleRequirement.get? "network") = .ok (.ofRat 84532) := by
    decide +kernel
  have hasset : sampleRequirement.get? "asset" = some (textOf sepoliaUsdc) := rfl
  have hcontract := knownAddress_textOf (List.mem_cons_self (a := sepoliaUsdc))
  rw [eip712Domain, sampleRequirement_name, sampleRequirement_version, hcomplete, hchain,
    sampleEthers_getAddress, hasset, hcontract]
  rfl

theorem sampleRequirement_served :
    ServerRequirement sampleEthers sampleRequirement samplePayee 10000 where
  name := by
    rw [sampleRequirement_name]
    decide
  version := by
    rw [sampleRequirement_version]
    decide
  payTo := by
    rw [sampleEthers_getAddress, sampleRequirement_payTo]
    exact knownAddress_textOf (by simp)
  amount := by
    rw [sampleRequirement_amount, textOf, toBigInt_text, plain_ofString]
    decide

def samplePayment : Value :=
  paymentOf sampleRequirement none sampleSignature
    (authorizationAt (.finite sampleTime) (.ofRat 600) sampleSigner samplePayee (ofString "10000")
      sampleNonce)

theorem transferOf_sample : transferOf sampleEthers (authorizationOf (some (authorizationAt
    (.finite sampleTime) (.ofRat 600) sampleSigner samplePayee (ofString "10000")
    sampleNonce))) = .ok sampleTransfer := by
  decide +kernel

theorem signPayment_sample : signPayment sampleEthers sampleRequirement none sampleWallet sampleNonce
    (.finite sampleTime) (.ofRat 600) = .ok samplePayment := by
  have hpayTo : sampleEthers.getAddress (sampleRequirement.get? "payTo") = .ok samplePayee :=
    sampleRequirement_served.payTo
  have hamount : template (sampleRequirement.get? "amount") = .ok (ofString "10000") := by
    rw [sampleRequirement_amount]
    rfl
  have hsign : signKnown sampleDomain sampleTransfer = .ok sampleSignature := by decide +kernel
  have hsigned : signTypedData sampleEthers sampleWallet sampleDomain (authorizationOf (some
      (authorizationAt (.finite sampleTime) (.ofRat 600) sampleSigner samplePayee
        (ofString "10000") sampleNonce))) = .ok sampleSignature := by
    unfold signTypedData
    rw [transferOf_sample, sampleEthers_sign]
    exact hsign
  unfold signPayment
  rw [sampleRequirement_domain, hpayTo, hamount, sampleEthers_address]
  simp only [bind, Except.bind, hsigned]
  rfl

end Gatekeeper.Agent.Exchange
