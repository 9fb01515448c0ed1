import Gatekeeper.Agent.Exchange
import Gatekeeper.Lib.NumberReading

/-!
# Which payments the server accepts

What `ethers` and `Buffer` are relied on for, and the check of the server on every payload: it
accepts an authentic payment of the requirement, where it reads the amount and the times as the
integers that were signed.
-/

namespace Gatekeeper.Agent.Exchange

open Ecma Encoding
open Js (Error Numeric LooseMinus stringToBigInt stringToNumber)

/-! ## What the platform is relied on for -/

/-- The value is a text that `BigInt(..)` refuses, for the minus sign in front of it. -/
def Misspelled (v : Option Value) : Prop :=
  ∃ s, v = some (.string s) ∧ LooseMinus (plain s)

/-- The value is read as this integer by the language. -/
def SpelledWhole (v : Option Value) (n : ℕ) : Prop :=
  (∃ x : Binary64.Finite, v = some (.number (.finite x)) ∧ x.val = n) ∨
    ∃ s, v = some (.string s) ∧ stringToBigInt (plain s) = some (n : ℤ)

/-- The behaviour of `ethers` and of `Buffer` that is documented. -/
structure Ethers.Lawful (E : Ethers) : Prop where
  /-- An address is a text, and the checksummed address is one. -/
  getAddress_text : ∀ {v a}, E.getAddress v = .ok a → ∃ s, v = some (.string s)
  getAddress_self : ∀ {v a}, E.getAddress v = .ok a → E.getAddress (some (textOf a)) = .ok a
  getAddress_wallet : ∀ w, E.getAddress (some (textOf (E.address w))) = .ok (E.address w)
  getAddress_recover : ∀ {d m s a}, E.recover d m s = .ok a →
    E.getAddress (some (textOf a)) = .ok a
  /-- A `BigNumberish` is a number or a text, which `BigInt(..)` reads, if need be without its
  minus sign. -/
  uint256_reads : ∀ {v n}, E.uint256 v = .ok n → SpelledWhole v n ∨ Misspelled v
  recover_truthy : ∀ {d m s a}, E.recover d m s = .ok a → truthy (some s) = true
  fromBase64_encode : ∀ b, E.fromBase64 (base64Encode b) = b

/-- A signature recovers to its signer for what was signed, and for nothing else, and nobody
else makes one that does. -/
structure Ethers.Ideal (E : Ethers) : Prop where
  recover_sign : ∀ {w d m s}, E.sign w d m = .ok s → ∀ d' m',
    E.recover d' m' (textOf s) = .ok (E.address w) ↔ d' = d ∧ m' = m
  sign_of_recover : ∀ {d m v a}, E.recover d m v = .ok a →
    ∃ w s, E.address w = a ∧ E.sign w d m = .ok s

/-! ## How the language reads the fields -/

theorem toNumber_text (s : Str) :
    toNumber (some (.string s)) = .ok (stringToNumber (plain s)) := rfl

theorem toBigInt_text (s : Str) : toBigInt (some (.string s)) = Js.bigIntOfText (plain s) := rfl

theorem toBigInt_of_whole {v : Option Value} {n : ℕ} (h : SpelledWhole v n) :
    toBigInt v = .ok (n : ℤ) := by
  rcases h with ⟨x, rfl, hx⟩ | ⟨s, rfl, hs⟩
  · have hden : x.val.den = 1 := by rw [hx, Rat.den_natCast]
    have hnum : x.val.num = n := by rw [hx, Rat.num_natCast]
    rw [toBigInt, Numeric.toWhole, dif_pos hden]
    exact congrArg _ hnum
  · rw [toBigInt_text, Js.bigIntOfText, hs]

theorem toNumber_of_whole {v : Option Value} {n : ℕ} (h : SpelledWhole v n) :
    toNumber v = .ok (.ofRat n) := by
  rcases h with ⟨x, rfl, hx⟩ | ⟨s, rfl, hs⟩
  · rw [toNumber, ← hx, Js.ofRat_of_rounded]
  · rw [toNumber_text, Js.stringToNumber_of_bigInt hs, Int.cast_natCast]

theorem toBigInt_of_misspelled {v : Option Value} (h : Misspelled v) :
    toBigInt v = .error .syntaxError := by
  obtain ⟨s, rfl, cs, n, -, -, hnone⟩ := h
  rw [toBigInt_text, Js.bigIntOfText, hnone]

theorem toNumber_of_misspelled {v : Option Value} (h : Misspelled v) :
    toNumber v = .ok .nan := by
  obtain ⟨s, rfl, hs⟩ := h
  rw [toNumber_text, Js.stringToNumber_of_looseMinus hs]

theorem not_misspelled_of_whole {v : Option Value} {n : ℕ} (h : SpelledWhole v n) :
    ¬ Misspelled v := by
  intro hminus
  cases (toBigInt_of_whole h).symm.trans (toBigInt_of_misspelled hminus)

/-! ## Authentic payments -/

variable {E : Ethers} {payload requirement : Value}

/-- What the client sends to be checked. -/
def sent (payload : Value) : Authorization :=
  authorizationOf (payloadField payload "authorization")

/-- The owner of the address signed the message under the domain, as this signature shows. -/
def SignedBy (E : Ethers) (address : String) (domain : Eip712Domain) (m : Transfer)
    (signature : Value) : Prop :=
  (∃ w s, E.address w = address ∧ E.sign w domain m = .ok s) ∧
    E.recover domain m signature = .ok address

theorem signedBy_iff (hI : E.Ideal) {address : String} {domain : Eip712Domain} {m : Transfer}
    {signature : Value} : SignedBy E address domain m signature ↔
      E.recover domain m signature = .ok address :=
  and_iff_right_of_imp hI.sign_of_recover

/-- `authorization.from` signed these fields under the domain of the requirement. -/
structure Authentic (E : Ethers) (payload requirement : Value) (m : Transfer) : Prop where
  version : isNumber (payload.get? "x402Version") (.ofRat 2) = true
  fields : transferOf E (sent payload) = .ok m
  signed : ∃ domain signature, eip712Domain E requirement = .ok domain ∧
    payloadField payload "signature" = some signature ∧
    SignedBy E m.fromAddress domain m signature

/-- A requirement of a server: its `extra` is complete, it pays an address, and its amount is a
whole number that is not negative. -/
structure ServerRequirement (E : Ethers) (requirement : Value) (payTo : String) (amount : ℕ) :
    Prop where
  name : truthy (extra requirement "name") = true
  version : truthy (extra requirement "version") = true
  payTo : E.getAddress (requirement.get? "payTo") = .ok payTo
  amount : toBigInt (requirement.get? "amount") = .ok (amount : ℤ)

/-- The window of an authorization, which does not include its end. -/
def InWindow (m : Transfer) (t : Binary64.Finite) : Prop :=
  (m.validAfter : ℚ) ≤ t.val ∧ t.val < m.validBefore

/-- The payment pays the requirement at this time. -/
def Pays (E : Ethers) (payload requirement : Value) (payTo : String) (amount : ℕ)
    (t : Binary64.Finite) : Prop :=
  ∃ m, Authentic E payload requirement m ∧ m.toAddress = payTo ∧ amount ≤ m.value ∧ InWindow m t

/-- What the fields of a message are read from. -/
theorem fields_of_transferOf {a : Authorization} {m : Transfer} (h : transferOf E a = .ok m) :
    E.getAddress a.fromAddress = .ok m.fromAddress ∧ E.getAddress a.toAddress = .ok m.toAddress ∧
      E.uint256 a.value = .ok m.value ∧ E.uint256 a.validAfter = .ok m.validAfter ∧
      E.uint256 a.validBefore = .ok m.validBefore := by
  obtain ⟨fromAddress, hfrom, h⟩ := Js.bind_eq_ok.mp h
  obtain ⟨toAddress, hto, h⟩ := Js.bind_eq_ok.mp h
  obtain ⟨value, hvalue, h⟩ := Js.bind_eq_ok.mp h
  obtain ⟨validAfter, hafter, h⟩ := Js.bind_eq_ok.mp h
  obtain ⟨validBefore, hbefore, h⟩ := Js.bind_eq_ok.mp h
  obtain ⟨nonce, -, h⟩ := Js.bind_eq_ok.mp h
  obtain rfl := Except.ok.inj h
  exact ⟨hfrom, hto, hvalue, hafter, hbefore⟩

theorem Authentic.truthy_fields (hE : E.Lawful) {m : Transfer}
    (h : Authentic E payload requirement m) :
    truthy (payloadField payload "authorization") = true ∧
      truthy (payloadField payload "signature") = true := by
  obtain ⟨domain, signature, -, hsignature, -, hrecover⟩ := h.signed
  refine ⟨?_, by rw [hsignature]; exact hE.recover_truthy hrecover⟩
  obtain ⟨s, hs⟩ := hE.getAddress_text (fields_of_transferOf h.fields).1
  rw [sent, authorizationOf] at hs
  -- what is falsy has no fields
  cases hauth : payloadField payload "authorization" with
  | none =>
    rw [hauth] at hs
    cases hs
  | some auth =>
    rw [hauth] at hs
    cases auth with
    | object ms => rfl
    | array xs => rfl
    | _ => cases hs

theorem template_of_getAddress (hE : E.Lawful) {v : Option Value} {a : String}
    (h : E.getAddress v = .ok a) : ∃ t, template v = .ok t := by
  obtain ⟨s, rfl⟩ := hE.getAddress_text h
  exact ⟨s, rfl⟩

/-- A signature recovers to an address for the fields under the domain, or it does not. -/
theorem verifyTypedData_cases (E : Ethers) (requirement : Value) (a : Authorization)
    (signature : Value) :
    (∃ e, (do
        let domain ← eip712Domain E requirement
        verifyTypedData E domain a signature) = .error e ∧
      ∀ domain m payer, eip712Domain E requirement = .ok domain → transferOf E a = .ok m →
        E.recover domain m signature ≠ .ok payer) ∨
    ∃ domain m payer, (do
        let domain ← eip712Domain E requirement
        verifyTypedData E domain a signature) = .ok payer ∧
      eip712Domain E requirement = .ok domain ∧ transferOf E a = .ok m ∧
      E.recover domain m signature = .ok payer := by
  cases hdomain : eip712Domain E requirement with
  | error e => exact .inl ⟨e, rfl, by rintro _ _ _ ⟨⟩⟩
  | ok domain =>
    cases hm : transferOf E a with
    | error e =>
      refine .inl ⟨e, ?_, by rintro _ _ _ _ ⟨⟩⟩
      show (transferOf E a).bind _ = _
      rw [hm]
      rfl
    | ok m =>
      have heq : verifyTypedData E domain a signature = E.recover domain m signature := by
        rw [verifyTypedData, hm]
        rfl
      show (∃ e, verifyTypedData E domain a signature = .error e ∧ _) ∨
        ∃ d m' payer, verifyTypedData E domain a signature = .ok payer ∧ _
      rw [heq]
      cases hrecover : E.recover domain m signature with
      | error e =>
        refine .inl ⟨e, rfl, ?_⟩
        rintro _ _ payer ⟨⟩ ⟨⟩ hok
        cases hrecover.symm.trans hok
      | ok payer => exact .inr ⟨domain, m, payer, rfl, rfl, rfl, hrecover⟩

/-- The signer and the payee are compared as addresses. -/
theorem checkRequest_cases (hE : E.Lawful) {payTo : String}
    (hpayTo : E.getAddress (requirement.get? "payTo") = .ok payTo) {a : Authorization}
    {m : Transfer} (hm : transferOf E a = .ok m) {domain : Eip712Domain} {signature : Value}
    {payer : String} (hrecover : E.recover domain m signature = .ok payer) (now : Numeric) :
    (∃ reason, checkRequest E a requirement payer now = .ok (fail reason (some payer)) ∧
      (payer ≠ m.fromAddress ∨ m.toAddress ≠ payTo)) ∨
    (payer = m.fromAddress ∧ m.toAddress = payTo ∧
      checkRequest E a requirement payer now = checkAmount a requirement payer now) := by
  obtain ⟨hfrom, hto, -⟩ := fields_of_transferOf hm
  obtain ⟨paid, hpaid⟩ := template_of_getAddress hE hto
  obtain ⟨expected, hexpected⟩ := template_of_getAddress hE hpayTo
  unfold checkRequest
  rw [hE.getAddress_recover hrecover, hfrom, hto, hpayTo, hpaid, hexpected]
  simp only [bind, Except.bind, pure, Except.pure]
  by_cases hsigner : payer = m.fromAddress
  · rw [if_neg (not_not.mpr hsigner)]
    by_cases hpayee : m.toAddress = payTo
    · rw [if_neg (not_not.mpr hpayee)]
      exact .inr ⟨hsigner, hpayee, rfl⟩
    · rw [if_pos hpayee]
      exact .inl ⟨_, rfl, .inr hpayee⟩
  · rw [if_pos hsigner]
    exact .inl ⟨_, rfl, .inl hsigner⟩

/-- The check fails with a report, or it throws for the version, or an authentic payment to the
payee is left to the checks of its amount and its times. -/
theorem verifyPayment_cases (hE : E.Lawful) (hI : E.Ideal) {payTo : String} {amount : ℕ}
    (hR : ServerRequirement E requirement payTo amount) (payload : Value) (now : Numeric) :
    (isNumber (payload.get? "x402Version") (.ofRat 2) = false ∧
      shown (payload.get? "x402Version") = none ∧
      verifyPayment E payload requirement now = .error .typeError) ∨
    ((∃ reason payer, verifyPayment E payload requirement now = .ok (fail reason payer)) ∧
      (isNumber (payload.get? "x402Version") (.ofRat 2) = true ∨
        (shown (payload.get? "x402Version")).isSome = true) ∧
      ¬ ∃ m, Authentic E payload requirement m ∧ m.toAddress = payTo) ∨
    ∃ m, Authentic E payload requirement m ∧ m.toAddress = payTo ∧
      verifyPayment E payload requirement now =
        checkAmount (sent payload) requirement m.fromAddress now := by
  unfold verifyPayment
  dsimp only
  by_cases hversion : isNumber (payload.get? "x402Version") (.ofRat 2) = true
  swap
  · rw [Bool.not_eq_true] at hversion
    have hnone : ¬ ∃ m, Authentic E payload requirement m ∧ m.toAddress = payTo := by
      rintro ⟨m, hm, -⟩
      cases hversion.symm.trans hm.version
    rw [hversion]
    cases hshown : shown (payload.get? "x402Version") with
    | none =>
      refine .inl ⟨rfl, rfl, ?_⟩
      rw [template_of_none hshown]
      rfl
    | some t =>
      refine .inr (.inl ⟨⟨ofString "unsupported x402Version " ++ t, none, ?_⟩, .inr rfl, hnone⟩)
      rw [template_of_some hshown]
      rfl
  rw [hversion, hR.name, hR.version]
  simp only [Bool.not_true, Bool.false_eq_true, if_false, Bool.and_true]
  by_cases hfields : (truthy (payloadField payload "authorization") &&
      truthy (payloadField payload "signature")) = true
  swap
  · refine .inr (.inl ⟨⟨ofString "payload is missing signature or authorization", none, ?_⟩,
      .inl trivial, ?_⟩)
    · rw [Bool.not_eq_true] at hfields
      rw [hfields]
      rfl
    · rintro ⟨m, hm, -⟩
      obtain ⟨hauth, hsignature⟩ := hm.truthy_fields hE
      rw [hauth, hsignature] at hfields
      exact hfields rfl
  rw [hfields]
  simp only [Bool.not_true, Bool.false_eq_true, if_false]
  obtain ⟨signature, hsignature⟩ :=
    exists_of_truthy (((Bool.and_eq_true _ _).mp hfields).2)
  rw [hsignature, Option.getD_some, ← sent]
  rcases verifyTypedData_cases E requirement (sent payload) signature with
    ⟨e, he, hbad⟩ | ⟨domain, m, payer, hok, hdomain, hm, hrecover⟩
  · refine .inr (.inl ⟨⟨_, none, by rw [he]⟩, .inl trivial, ?_⟩)
    rintro ⟨m, hm, -⟩
    obtain ⟨domain, signature', hdomain, hsig, -, hrecover⟩ := hm.signed
    obtain rfl := Option.some.inj (hsignature.symm.trans hsig)
    exact hbad domain m _ hdomain hm.fields hrecover
  rw [hok]
  rcases checkRequest_cases hE hR.payTo hm hrecover now with
    ⟨reason, hcheck, hother⟩ | ⟨rfl, hto, hcheck⟩
  · refine .inr (.inl ⟨⟨reason, some payer, hcheck⟩, .inl trivial, ?_⟩)
    rintro ⟨m', hm', hto⟩
    obtain rfl := Except.ok.inj (hm.symm.trans hm'.fields)
    obtain ⟨domain', signature', hdomain', hsig, -, hsigner⟩ := hm'.signed
    obtain rfl := Option.some.inj (hsignature.symm.trans hsig)
    obtain rfl := Except.ok.inj (hdomain.symm.trans hdomain')
    obtain rfl := Except.ok.inj (hrecover.symm.trans hsigner)
    exact hother.elim (fun h => h rfl) fun h => h hto
  · exact .inr (.inr ⟨m, ⟨hversion, hm, domain, signature, hdomain, hsignature,
      (signedBy_iff hI).mpr hrecover⟩, hto, hcheck⟩)

/-! ## The amount and the times -/

theorem not_valid_fail (reason : Str) (payer : Option String) :
    ¬ (fail reason payer).isValid = true := Bool.false_ne_true

theorem checkWindow_eq {a : Authorization} {validAfter validBefore : Numeric}
    (hafter : toNumber a.validAfter = .ok validAfter)
    (hbefore : toNumber a.validBefore = .ok validBefore) (payer : String) (now : Numeric) :
    ∃ report, checkWindow a payer now = .ok report ∧
      (report.isValid = true ↔ now.lt validAfter = false ∧ validBefore.le now = false) := by
  unfold checkWindow
  rw [hafter, hbefore]
  simp only [bind, Except.bind, pure, Except.pure]
  cases now.lt validAfter with
  | true => exact ⟨_, rfl, iff_of_false (not_valid_fail _ _) (by rintro ⟨⟨⟩, -⟩)⟩
  | false =>
    cases validBefore.le now with
    | true => exact ⟨_, rfl, iff_of_false (not_valid_fail _ _) (by rintro ⟨-, ⟨⟩⟩)⟩
    | false => exact ⟨_, rfl, iff_of_true rfl ⟨rfl, rfl⟩⟩

/-- The number nearest to `n` is the time `t`, although `n` lies after it. -/
def Blurred (t : Binary64.Finite) (n : ℕ) : Prop := t.val < n ∧ Numeric.ofRat n = .finite t

/-- The server reads the amount and the times of an authentic payment as what was signed. -/
structure Readable (a : Authorization) (m : Transfer) (amount : ℕ) (t : Binary64.Finite) :
    Prop where
  value : ¬ Misspelled a.value
  /-- Once the payment is valid, an end that is not read has not come, and one that is read is
  read for what it is. -/
  deadline : amount ≤ m.value → (m.validAfter : ℚ) ≤ t.val →
    (Misspelled a.validBefore → t.val < m.validBefore) ∧
      (Blurred t m.validBefore → Misspelled a.validBefore)
  /-- Where it counts as valid too early, it counts as expired. -/
  start : amount ≤ m.value → t.val < m.validAfter →
    Misspelled a.validAfter ∨ Blurred t m.validAfter →
    ¬ Misspelled a.validBefore ∧ ((m.validBefore : ℚ) ≤ t.val ∨ Blurred t m.validBefore)

/-- How a time field is read: as the number nearest to it, or not at all. -/
theorem time_cases (hE : E.Lawful) {v : Option Value} {n : ℕ} (h : E.uint256 v = .ok n) :
    (¬ Misspelled v ∧ toNumber v = .ok (.ofRat n)) ∨ (Misspelled v ∧ toNumber v = .ok .nan) := by
  rcases hE.uint256_reads h with hwhole | hminus
  · exact .inl ⟨not_misspelled_of_whole hwhole, toNumber_of_whole hwhole⟩
  · exact .inr ⟨hminus, toNumber_of_misspelled hminus⟩

theorem not_lt_ofRat_iff {t : Binary64.Finite} {n : ℕ} :
    (Numeric.finite t).lt (.ofRat n) = false ↔ (n : ℚ) ≤ t.val ∨ Blurred t n := by
  rw [← Bool.not_eq_true, Js.lt_ofRat_iff, not_and_or, not_lt, not_not, Blurred]
  by_cases h : (n : ℚ) ≤ t.val
  · simp [h]
  · simp [h, lt_of_not_ge h]

theorem not_ofRat_le_iff {t : Binary64.Finite} {n : ℕ} :
    (Numeric.ofRat n).le (.finite t) = false ↔ ¬ ((n : ℚ) ≤ t.val ∨ Blurred t n) := by
  rw [← Bool.not_eq_true, Js.ofRat_le_iff, Blurred]
  by_cases h : (n : ℚ) ≤ t.val
  · simp [h]
  · simp [h, lt_of_not_ge h]

/-- The window is checked for what it is, if and only if the times are read so. -/
theorem window_read_iff (hE : E.Lawful) {a : Authorization} {m : Transfer}
    (hm : transferOf E a = .ok m) (t : Binary64.Finite) :
    ∃ validAfter validBefore, toNumber a.validAfter = .ok validAfter ∧
      toNumber a.validBefore = .ok validBefore ∧
      (((Numeric.finite t).lt validAfter = false ∧ validBefore.le (.finite t) = false ↔
        InWindow m t) ↔
        ((m.validAfter : ℚ) ≤ t.val →
          (Misspelled a.validBefore → t.val < m.validBefore) ∧
            (Blurred t m.validBefore → Misspelled a.validBefore)) ∧
        (t.val < m.validAfter → Misspelled a.validAfter ∨ Blurred t m.validAfter →
          ¬ Misspelled a.validBefore ∧
            ((m.validBefore : ℚ) ≤ t.val ∨ Blurred t m.validBefore))) := by
  obtain ⟨-, -, -, hafter, hbefore⟩ := fields_of_transferOf hm
  have hstart : ∃ x, toNumber a.validAfter = .ok x ∧ ((Numeric.finite t).lt x = false ↔
      (m.validAfter : ℚ) ≤ t.val ∨ Misspelled a.validAfter ∨ Blurred t m.validAfter) := by
    rcases time_cases hE hafter with ⟨hplain, hx⟩ | ⟨hminus, hx⟩
    · exact ⟨_, hx, by simp only [not_lt_ofRat_iff, hplain, false_or]⟩
    · exact ⟨_, hx, iff_of_true rfl (.inr (.inl hminus))⟩
  have hend : ∃ x, toNumber a.validBefore = .ok x ∧ (x.le (.finite t) = false ↔
      Misspelled a.validBefore ∨ ¬ ((m.validBefore : ℚ) ≤ t.val ∨ Blurred t m.validBefore)) := by
    rcases time_cases hE hbefore with ⟨hplain, hx⟩ | ⟨hminus, hx⟩
    · exact ⟨_, hx, by simp only [not_ofRat_le_iff, hplain, false_or]⟩
    · exact ⟨_, hx, iff_of_true rfl (.inl hminus)⟩
  obtain ⟨x, hx, hxlt⟩ := hstart
  obtain ⟨y, hy, hyle⟩ := hend
  refine ⟨x, y, hx, hy, ?_⟩
  rw [hxlt, hyle, InWindow]
  by_cases hle : (m.validAfter : ℚ) ≤ t.val
  · have hnlt : ¬ t.val < m.validAfter := not_lt.mpr hle
    by_cases hlt : t.val < m.validBefore
    · by_cases hminus : Misspelled a.validBefore
      · simp [hle, hnlt, hminus, hlt]
      · simp [hle, hnlt, hminus, hlt, not_le.mpr hlt]
    · have hsharp : ¬ Blurred t m.validBefore := fun h => hlt h.1
      simp [hle, hnlt, hlt, not_lt.mp hlt, hsharp]
  · have hnlt : t.val < m.validAfter := not_le.mp hle
    simp only [hle, hnlt, false_or, false_and, iff_false, not_and, false_imp_iff, true_imp_iff,
      true_and]
    exact imp_congr_right fun _ => by rw [not_or, not_not]

/-- The amount and the times are compared as they are read. -/
theorem checkAmount_eq {a : Authorization} {value amount : ℕ}
    (hvalue : toBigInt a.value = .ok (value : ℤ))
    (hamount : toBigInt (requirement.get? "amount") = .ok (amount : ℤ))
    {validAfter validBefore : Numeric} (hafter : toNumber a.validAfter = .ok validAfter)
    (hbefore : toNumber a.validBefore = .ok validBefore) (payer : String) (now : Numeric) :
    ∃ report, checkAmount a requirement payer now = .ok report ∧
      (report.isValid = true ↔
        amount ≤ value ∧ now.lt validAfter = false ∧ validBefore.le now = false) := by
  obtain ⟨authorised, hauthorised, -⟩ := template_of_toBigInt hvalue
  obtain ⟨required, hrequired, -⟩ := template_of_toBigInt hamount
  unfold checkAmount
  rw [hvalue, hamount, hauthorised, hrequired]
  simp only [bind, Except.bind, pure, Except.pure, Nat.cast_lt]
  by_cases hless : value < amount
  · rw [if_pos hless]
    exact ⟨_, rfl, iff_of_false (not_valid_fail _ _) fun h => absurd h.1 (not_le.mpr hless)⟩
  · rw [if_neg hless]
    obtain ⟨report, hreport, hvalid⟩ := checkWindow_eq hafter hbefore payer now
    exact ⟨report, hreport, by rw [hvalid, and_iff_right (not_lt.mp hless)]⟩

/-- The amount and the window are checked for what they are, if and only if they are readable. -/
theorem checkAmount_iff (hE : E.Lawful) {amount : ℕ}
    (hamount : toBigInt (requirement.get? "amount") = .ok (amount : ℤ)) {a : Authorization}
    {m : Transfer} (hm : transferOf E a = .ok m) (payer : String) (t : Binary64.Finite) :
    (∃ report, checkAmount a requirement payer (.finite t) = .ok report ∧
      (report.isValid = true ↔ amount ≤ m.value ∧ InWindow m t)) ↔ Readable a m amount t := by
  obtain ⟨-, -, hvalue, -, -⟩ := fields_of_transferOf hm
  rcases hE.uint256_reads hvalue with hwhole | hminus
  swap
  · unfold checkAmount
    rw [toBigInt_of_misspelled hminus]
    exact iff_of_false (by rintro ⟨_, ⟨⟩, _⟩) fun h => h.value hminus
  have hspelled := not_misspelled_of_whole hwhole
  obtain ⟨validAfter, validBefore, hafter, hbefore, hiff⟩ := window_read_iff hE hm t
  obtain ⟨report, hreport, hvalid⟩ :=
    checkAmount_eq (toBigInt_of_whole hwhole) hamount hafter hbefore payer (.finite t)
  simp only [hreport, Except.ok.injEq, exists_eq_left', hvalid, and_congr_right_iff]
  constructor
  · intro h
    exact ⟨hspelled, fun hle => (hiff.mp (h hle)).1, fun hle => (hiff.mp (h hle)).2⟩
  · exact fun h hle => hiff.mpr ⟨h.deadline hle, h.start hle⟩

/-! ## Every payload -/

/-- The version can be shown where it is wrong, and an authentic payment to the payee is
readable. -/
structure Verifiable (E : Ethers) (payload requirement : Value) (payTo : String) (amount : ℕ)
    (t : Binary64.Finite) : Prop where
  version : isNumber (payload.get? "x402Version") (.ofRat 2) = true ∨
    (shown (payload.get? "x402Version")).isSome = true
  readable : ∀ m, Authentic E payload requirement m → m.toAddress = payTo →
    Readable (sent payload) m amount t

theorem verifyPayment_iff (hE : E.Lawful) (hI : E.Ideal) {payTo : String} {amount : ℕ}
    (hR : ServerRequirement E requirement payTo amount) (payload : Value) (t : Binary64.Finite) :
    (∃ report, verifyPayment E payload requirement (.finite t) = .ok report ∧
      (report.isValid = true ↔ Pays E payload requirement payTo amount t)) ↔
      Verifiable E payload requirement payTo amount t := by
  rcases verifyPayment_cases hE hI hR payload (.finite t) with
    ⟨hversion, hshown, hthrows⟩ | ⟨⟨reason, payer, hfail⟩, hversion, hnone⟩ |
    ⟨m, hm, hto, hcheck⟩
  · rw [hthrows]
    refine iff_of_false (by rintro ⟨_, ⟨⟩, _⟩) fun h => ?_
    rcases h.version with h | h
    · cases hversion.symm.trans h
    · rw [hshown] at h
      cases h
  · rw [hfail]
    refine iff_of_true ⟨_, rfl, iff_of_false (not_valid_fail _ _) ?_⟩
      ⟨hversion, fun m hm hto => absurd ⟨m, hm, hto⟩ hnone⟩
    rintro ⟨m, hm, hto, -⟩
    exact hnone ⟨m, hm, hto⟩
  · have huniq : ∀ m', Authentic E payload requirement m' → m' = m := fun m' hm' =>
      Except.ok.inj (hm'.fields.symm.trans hm.fields)
    have hpays : Pays E payload requirement payTo amount t ↔ amount ≤ m.value ∧ InWindow m t := by
      constructor
      · rintro ⟨m', hm', -, hrest⟩
        obtain rfl := huniq m' hm'
        exact hrest
      · exact fun h => ⟨m, hm, hto, h⟩
    rw [hcheck, hpays, checkAmount_iff hE hR.amount hm.fields]
    constructor
    · refine fun h => ⟨.inl hm.version, fun m' hm' _ => ?_⟩
      obtain rfl := huniq m' hm'
      exact h
    · exact fun h => h.readable m hm hto

end Gatekeeper.Agent.Exchange
