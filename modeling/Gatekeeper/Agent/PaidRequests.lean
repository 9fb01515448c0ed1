import Gatekeeper.Agent.SamplePayment

/-!
# Which requests a payment opens

A payment that `signPayment` made, carried through a header to a server: what the server reads
is what was signed, and it opens the requests of the same payee in the same domain that cost no
more, from a minute before the time of signing on.
-/

namespace Gatekeeper.Agent.Exchange

open Ecma Encoding
open Js (Error Numeric LooseMinus stringToBigInt stringToNumber)

variable {E : Ethers}

/-! ## The payload does not depend on what was accepted -/

theorem verifyPayment_congr {payload payload' : Value}
    (hversion : payload.get? "x402Version" = payload'.get? "x402Version")
    (hpayload : payload.get? "payload" = payload'.get? "payload") (requirement : Value)
    (now : Numeric) :
    verifyPayment E payload requirement now = verifyPayment E payload' requirement now := by
  have hfield : payloadField payload = payloadField payload' := by
    funext name
    rw [payloadField, payloadField, hpayload]
  rw [verifyPayment, verifyPayment, hversion, hfield]

theorem verifyPayment_accepted (ms : List (Str × Value)) (x requirement : Value) (now : Numeric) :
    verifyPayment E (.object (setMember ms (ofString "accepted") x)) requirement now =
      verifyPayment E (.object ms) requirement now := by
  have hversion : ofString "x402Version" ≠ ofString "accepted" := ofString_ne (by decide)
  have hpayload : ofString "payload" ≠ ofString "accepted" := ofString_ne (by decide)
  refine verifyPayment_congr ?_ ?_ requirement now
  · exact lookup_setMember_of_ne hversion x
  · exact lookup_setMember_of_ne hpayload x

/-! ## Through a header -/

/-- A request carries the payment under one of the two names of the header. -/
def Carries (E : Ethers) (headers : String → Option String) (payment : Value) : Prop :=
  headers headerSignature = some (encodeHeader payment) ∨
    truthy (some (decodeHeader E (headers headerSignature))) = false ∧
      headers "x-payment" = some (encodeHeader payment)

theorem decodeHeader_encodeHeader (hE : E.Lawful) (v : Value) (h : v.write ≠ []) :
    decodeHeader E (some (encodeHeader v)) = v.nulled.assembled := by
  have hne : encodeHeader v ≠ "" := by
    intro hempty
    have hbytes := congrArg base64Decode hempty
    rw [encodeHeader, base64Decode_encode] at hbytes
    have htext : utf8 (String.ofList v.write) = utf8 "" := hbytes
    rw [utf8_inj] at htext
    have hlist := congrArg String.toList htext
    rw [String.toList_ofList] at hlist
    exact h hlist
  rw [decodeHeader, if_neg hne, encodeHeader, hE.fromBase64_encode, Text.fromUtf8Lossy_utf8,
    jsonParse_write, Option.getD_some]

theorem readPaymentHeader_of_carries (hE : E.Lawful) {headers : String → Option String}
    {ms : List (Str × Value)} (h : Carries E headers (.object ms)) :
    readPaymentHeader E headers = (Value.object ms).nulled.assembled := by
  have hne : (Value.object ms).write ≠ [] := by
    rw [Value.write, bracket]
    exact List.cons_ne_nil _ _
  have hdecode := decodeHeader_encodeHeader hE (.object ms) hne
  have hfind : ∀ rest, List.find? (fun decoded => truthy (some decoded))
      ((Value.object ms).nulled.assembled :: rest) = some (Value.object ms).nulled.assembled :=
    fun _ => rfl
  rw [readPaymentHeader, legacySignatureHeaders, List.map_cons, List.map_cons, List.map_nil]
  rcases h with h | ⟨hfirst, h⟩
  · rw [h, hdecode, hfind, Option.getD_some]
  · rw [List.find?_cons_of_neg (by rw [hfirst]; decide), h, hdecode, hfind, Option.getD_some]

/-! ## What is read of a payment -/

theorem keys_paymentOf (requirement : Value) (resource : Option Value) (signature : String)
    (authorization : Value) : ∃ ms, paymentOf requirement resource signature authorization =
      .object ms ∧ (ms.map Prod.fst).Nodup := by
  refine ⟨_, rfl, ?_⟩
  have hwith : (["x402Version", "resource", "accepted", "payload"].map ofString).Nodup :=
    nodup_ofString (by decide)
  have hwithout : (["x402Version", "accepted", "payload"].map ofString).Nodup :=
    nodup_ofString (by decide)
  rw [resourceMember]
  split_ifs
  · exact hwith
  · exact hwithout

theorem get?_paymentOf (requirement : Value) (resource : Option Value) (signature : String)
    (authorization : Value) :
    (paymentOf requirement resource signature authorization).get? "x402Version" =
        some (.number (.ofRat 2)) ∧
      (paymentOf requirement resource signature authorization).get? "payload" =
        some (.object [(ofString "signature", textOf signature),
          (ofString "authorization", authorization)]) := by
  have hversion : (ofString "payload" == ofString "x402Version") = false := ofString_beq (by decide)
  have hresource : (ofString "payload" == ofString "resource") = false := ofString_beq (by decide)
  have haccepted : (ofString "payload" == ofString "accepted") = false := ofString_beq (by decide)
  refine ⟨by rw [paymentOf, Value.get?, List.cons_append, List.lookup_cons_self], ?_⟩
  rw [paymentOf, Value.get?, List.cons_append, List.lookup_cons, hversion, resourceMember]
  split_ifs
  · rw [List.cons_append, List.nil_append, List.lookup_cons, hresource, List.lookup_cons,
      haccepted, List.lookup_cons_self]
  · rw [List.nil_append, List.lookup_cons, haccepted, List.lookup_cons_self]

/-- The six fields of the message that is signed. -/
def signedFields (now validForSecs : Numeric) (fromAddress toAddress : String) (value : Str)
    (nonce : String) : Authorization where
  fromAddress := some (textOf fromAddress)
  toAddress := some (textOf toAddress)
  value := some (.string value)
  validAfter := some (textOf (numberText (now.sub (.ofRat 60))))
  validBefore := some (textOf (numberText (now.add validForSecs)))
  nonce := some (textOf nonce)

theorem authorizationOf_authorizationAt (now validForSecs : Numeric)
    (fromAddress toAddress : String) (value : Str) (nonce : String) :
    authorizationOf (some (authorizationAt now validForSecs fromAddress toAddress value nonce)) =
      signedFields now validForSecs fromAddress toAddress value nonce := rfl

/-- They are not changed by `JSON`. -/
theorem authorizationOf_parsed (now validForSecs : Numeric) (fromAddress toAddress : String)
    (value : Str) (nonce : String) :
    authorizationOf (some
      (authorizationAt now validForSecs fromAddress toAddress value nonce).nulled.assembled) =
      signedFields now validForSecs fromAddress toAddress value nonce := by
  have hkeys :
      (["from", "to", "value", "validAfter", "validBefore", "nonce"].map ofString).Nodup :=
    nodup_ofString (by decide)
  have hget : ∀ name,
      (authorizationAt now validForSecs fromAddress toAddress value nonce).nulled.assembled.get?
        name = ((authorizationAt now validForSecs fromAddress toAddress value nonce).get?
          name).map fun v => v.nulled.assembled := by
    intro name
    rw [authorizationAt]
    refine get?_parsed ?_ name
    exact hkeys
  rw [authorizationOf]
  simp only [Option.bind_some, hget]
  rfl

theorem payloadField_parsed (requirement : Value) (resource : Option Value) (signature : String)
    (authorization : Value) :
    payloadField (paymentOf requirement resource signature authorization).nulled.assembled
        "signature" = some (textOf signature) ∧
      payloadField (paymentOf requirement resource signature authorization).nulled.assembled
        "authorization" = some authorization.nulled.assembled := by
  obtain ⟨ms, hms, hkeys⟩ := keys_paymentOf requirement resource signature authorization
  have hpayload := (get?_paymentOf requirement resource signature authorization).2
  have hparts : (["signature", "authorization"].map ofString).Nodup := nodup_ofString (by decide)
  have hne : (ofString "authorization" == ofString "signature") = false := ofString_beq (by decide)
  rw [hms] at hpayload ⊢
  have hget : ∀ name, payloadField (Value.object ms).nulled.assembled name =
      ([(ofString "signature", textOf signature),
        (ofString "authorization", authorization)].lookup (ofString name)).map
          fun v => v.nulled.assembled := by
    intro name
    rw [payloadField, get?_parsed hkeys, hpayload, Option.map_some, Option.bind_some]
    refine get?_parsed ?_ name
    exact hparts
  rw [hget, hget, List.lookup_cons_self, List.lookup_cons, hne, List.lookup_cons_self]
  exact ⟨rfl, rfl⟩

theorem version_parsed (requirement : Value) (resource : Option Value) (signature : String)
    (authorization : Value) :
    isNumber ((paymentOf requirement resource signature authorization).nulled.assembled.get?
      "x402Version") (.ofRat 2) = true := by
  obtain ⟨ms, hms, hkeys⟩ := keys_paymentOf requirement resource signature authorization
  have hversion := (get?_paymentOf requirement resource signature authorization).1
  have hfinite : (Numeric.ofRat 2).isFinite = true :=
    Js.isFinite_ofRat (n := 2) (Double.isDouble_of_lt (by decide))
  rw [hms] at hversion ⊢
  rw [get?_parsed hkeys, hversion, Option.map_some, Value.nulled, if_pos hfinite,
    Value.assembled, isNumber, beq_self_eq_true]
  all_goals
    intros
    contradiction

/-! ## What was signed -/

/-- What `signPayment` did when it returned this payment. -/
structure Signed (E : Ethers) (requirement : Value) (resource : Option Value) (wallet : E.Wallet)
    (nonce : String) (now validForSecs : Numeric) (payTo : String) (payment : Value)
    (domain : Eip712Domain) (value : Str) (m : Transfer) (signature : String) : Prop where
  domain_eq : eip712Domain E requirement = .ok domain
  value_eq : template (requirement.get? "amount") = .ok value
  fields : transferOf E (signedFields now validForSecs (E.address wallet) payTo value nonce) =
    .ok m
  sign : E.sign wallet domain m = .ok signature
  payment_eq : payment = paymentOf requirement resource signature
    (authorizationAt now validForSecs (E.address wallet) payTo value nonce)

theorem signed_of_signPayment {requirement : Value} {resource : Option Value} {wallet : E.Wallet}
    {nonce : String} {now validForSecs : Numeric} {payTo : String}
    (hpayTo : E.getAddress (requirement.get? "payTo") = .ok payTo) {payment : Value}
    (h : signPayment E requirement resource wallet nonce now validForSecs = .ok payment) :
    ∃ domain value m signature, Signed E requirement resource wallet nonce now validForSecs payTo
      payment domain value m signature := by
  obtain ⟨domain, hdomain, h⟩ := Js.bind_eq_ok.mp h
  obtain ⟨toAddress, hto, h⟩ := Js.bind_eq_ok.mp h
  obtain ⟨value, hvalue, h⟩ := Js.bind_eq_ok.mp h
  obtain ⟨signature, hsign, h⟩ := Js.bind_eq_ok.mp h
  obtain rfl := Except.ok.inj (hto.symm.trans hpayTo)
  obtain ⟨m, hm, hsignature⟩ := Js.bind_eq_ok.mp hsign
  rw [authorizationOf_authorizationAt] at hm
  exact ⟨domain, value, m, signature, hdomain, hvalue, hm, hsignature, (Except.ok.inj h).symm⟩

theorem fields_of_signed (hE : E.Lawful) {payTo : String}
    {requirement : Value} (hpayTo : E.getAddress (requirement.get? "payTo") = .ok payTo)
    {wallet : E.Wallet} {nonce : String} {now validForSecs : Numeric} {value : Str} {m : Transfer}
    (hm : transferOf E (signedFields now validForSecs (E.address wallet) payTo value nonce) =
      .ok m) : m.fromAddress = E.address wallet ∧ m.toAddress = payTo := by
  obtain ⟨hfrom, hto, -⟩ := fields_of_transferOf hm
  exact ⟨Except.ok.inj (hfrom.symm.trans (hE.getAddress_wallet wallet)),
    Except.ok.inj (hto.symm.trans (hE.getAddress_self hpayTo))⟩

/-- A number that is signed as its text is read back by the server. -/
theorem toNumber_numberText (x : Numeric) : toNumber (some (textOf (numberText x))) = .ok x := by
  rw [textOf, toNumber_text, plain_ofString, numberText, Js.stringToNumber_text]

theorem not_misspelled_numberText (x : Numeric) : ¬ Misspelled (some (textOf (numberText x))) := by
  rintro ⟨s, hs, hloose⟩
  obtain rfl := Value.string.inj (Option.some.inj hs)
  rw [plain_ofString] at hloose
  exact Js.not_looseMinus_text x hloose

/-- A time that can be signed is a number. -/
theorem ne_nan_of_uint256 (hE : E.Lawful) {x : Numeric} {n : ℕ}
    (h : E.uint256 (some (textOf (numberText x))) = .ok n) : x ≠ .nan := by
  rcases hE.uint256_reads h with hwhole | hminus
  · have hread := toNumber_of_whole hwhole
    rw [toNumber_numberText] at hread
    rw [Except.ok.inj hread]
    exact Numeric.ofRat_ne_nan _
  · exact absurd hminus (not_misspelled_numberText x)

/-- The text of an amount that `BigInt(..)` reads has no minus sign that it refuses. -/
theorem not_looseMinus_amount {v : Option Value} {amount : ℤ} (hamount : toBigInt v = .ok amount)
    {t : Str} (ht : template v = .ok t) : ¬ LooseMinus (plain t) := by
  obtain ⟨t', ht', hcases⟩ := template_of_toBigInt hamount
  obtain rfl := Except.ok.inj (ht.symm.trans ht')
  rcases hcases with hread | ⟨b, rfl⟩ | ⟨x, rfl⟩
  · rintro ⟨cs, n, -, -, hnone⟩
    rw [Js.bigIntOfText, hnone] at hread
    cases hread
  · -- neither `true` nor `false` starts with a minus sign
    have hplain : plain t = "true" ∨ plain t = "false" := by
      cases b
      · obtain rfl := Except.ok.inj ht
        exact .inr (plain_ofString "false")
      · obtain rfl := Except.ok.inj ht
        exact .inl (plain_ofString "true")
    rintro ⟨cs, n, hs, -, -⟩
    have hlist := congrArg String.toList hs
    rw [String.toList_ofList] at hlist
    rcases hplain with h | h <;> rw [h] at hlist <;> cases hlist
  · obtain rfl := Except.ok.inj ht
    rw [plain_ofString]
    exact Js.not_looseMinus_text x

/-- What is signed of an amount is read from its text. -/
theorem whole_of_signed_amount (hE : E.Lawful) {v : Option Value} {amount : ℤ}
    (hamount : toBigInt v = .ok amount) {t : Str} (ht : template v = .ok t) {n : ℕ}
    (hn : E.uint256 (some (.string t)) = .ok n) :
    SpelledWhole (some (.string t)) n ∧ stringToBigInt (plain t) = some (n : ℤ) := by
  rcases hE.uint256_reads hn with hwhole | ⟨s, hs, hloose⟩
  · refine ⟨hwhole, ?_⟩
    rcases hwhole with ⟨x, hx, -⟩ | ⟨s, hs, hread⟩
    · cases hx
    · obtain rfl := Value.string.inj (Option.some.inj hs)
      exact hread
  · obtain rfl := Value.string.inj (Option.some.inj hs)
    exact absurd hloose (not_looseMinus_amount hamount ht)

/-! ## Which requests it opens -/

/-- The two requirements are signed under one domain. -/
def SameDomain (E : Ethers) (requirement requirement' : Value) : Prop :=
  ∃ domain, eip712Domain E requirement = .ok domain ∧ eip712Domain E requirement' = .ok domain

/-- The server answers, and it opens exactly the requests of the same payee in the same domain
that cost no more, in the window of the signature. -/
def OpensExactly (E : Ethers) (headers : String → Option String) (paid asked : Value)
    (payTo payTo' : String) (amount amount' : ℕ) (now validForSecs : Numeric)
    (t : Binary64.Finite) : Prop :=
  ∃ report, verifyPayment E (readPaymentHeader E headers) asked (.finite t) = .ok report ∧
    (report.isValid = true ↔ SameDomain E paid asked ∧ payTo = payTo' ∧ amount' ≤ amount ∧
      (now.sub (.ofRat 60)).le (.finite t) = true ∧
      (Numeric.finite t).lt (now.add validForSecs) = true)

/-- The text of the amount that is paid stands to the amount that is asked as the amount does. -/
def AmountShown (paid : Value) (amount amount' : ℕ) : Prop :=
  ∀ (text : Str) (n : ℕ), template (paid.get? "amount") = .ok text →
    stringToBigInt (plain text) = some (n : ℤ) → (amount' ≤ n ↔ amount' ≤ amount)

/-- The times of a payment are compared as they were signed. -/
theorem window_iff {t x y : Numeric} (hx : x ≠ .nan) (hy : y ≠ .nan) (ht : t ≠ .nan) :
    t.lt x = false ∧ y.le t = false ↔ x.le t = true ∧ t.lt y = true := by
  rw [Numeric.lt_eq_false_iff, or_iff_left (by simp [hx, ht])]
  refine and_congr_right fun _ => ?_
  have hlt := @Numeric.lt_eq_false_iff y t
  rw [or_iff_left (by simp [hy, ht])] at hlt
  rw [← Bool.not_eq_true, ← hlt, Bool.not_eq_false]

theorem sent_paymentOf (requirement : Value) (resource : Option Value) (signature : String)
    (now validForSecs : Numeric) (fromAddress toAddress : String) (value : Str) (nonce : String) :
    sent (paymentOf requirement resource signature (authorizationAt now validForSecs fromAddress
      toAddress value nonce)).nulled.assembled =
      signedFields now validForSecs fromAddress toAddress value nonce := by
  rw [sent, (payloadField_parsed _ _ _ _).2, authorizationOf_parsed]

/-- A payment is authentic for the requirements of the domain it was signed under. -/
theorem authentic_iff (hE : E.Lawful) (hI : E.Ideal) {paid : Value} {payTo : String}
    (hpayTo : E.getAddress (paid.get? "payTo") = .ok payTo) {resource : Option Value}
    {wallet : E.Wallet} {nonce : String} {now validForSecs : Numeric} {payment : Value}
    {domain : Eip712Domain} {value : Str} {m : Transfer} {signature : String}
    (hs : Signed E paid resource wallet nonce now validForSecs payTo payment domain value m
      signature) (asked : Value) (m' : Transfer) :
    Authentic E (paymentOf paid resource signature (authorizationAt now validForSecs
      (E.address wallet) payTo value nonce)).nulled.assembled asked m' ↔
      m' = m ∧ SameDomain E paid asked := by
  obtain ⟨hfrom, -⟩ := fields_of_signed hE hpayTo hs.fields
  have hsignature := (payloadField_parsed paid resource signature
    (authorizationAt now validForSecs (E.address wallet) payTo value nonce)).1
  constructor
  · rintro ⟨-, hfields, domain', signature', hdomain', hsig, -, hrecover⟩
    rw [sent_paymentOf] at hfields
    obtain rfl := Except.ok.inj (hfields.symm.trans hs.fields)
    obtain rfl := Option.some.inj (hsignature.symm.trans hsig)
    rw [hfrom] at hrecover
    obtain ⟨rfl, -⟩ := (hI.recover_sign hs.sign _ _).mp hrecover
    exact ⟨rfl, _, hs.domain_eq, hdomain'⟩
  · rintro ⟨rfl, domain', hdomain, hdomain'⟩
    obtain rfl := Except.ok.inj (hdomain.symm.trans hs.domain_eq)
    refine ⟨version_parsed _ _ _ _, ?_, _, _, hdomain', hsignature, ?_⟩
    · rw [sent_paymentOf]
      exact hs.fields
    · rw [signedBy_iff hI, hfrom]
      exact (hI.recover_sign hs.sign _ _).mpr ⟨rfl, rfl⟩

theorem opensExactly_iff (hE : E.Lawful) (hI : E.Ideal) {paid asked : Value}
    {payTo payTo' : String} {amount amount' : ℕ} (hpaid : ServerRequirement E paid payTo amount)
    (hasked : ServerRequirement E asked payTo' amount') {resource : Option Value}
    {wallet : E.Wallet} {nonce : String} {now validForSecs : Numeric} {payment : Value}
    (hsign : signPayment E paid resource wallet nonce now validForSecs = .ok payment)
    {headers : String → Option String} (hcarries : Carries E headers payment)
    (t : Binary64.Finite) :
    OpensExactly E headers paid asked payTo payTo' amount amount' now validForSecs t ↔
      (SameDomain E paid asked → payTo = payTo' →
        (now.sub (.ofRat 60)).le (.finite t) = true →
        (Numeric.finite t).lt (now.add validForSecs) = true → AmountShown paid amount amount') := by
  obtain ⟨domain, value, m, signature, hs⟩ := signed_of_signPayment hpaid.payTo hsign
  obtain ⟨hfrom, hto⟩ := fields_of_signed hE hpaid.payTo hs.fields
  obtain ⟨ms, hms, -⟩ := keys_paymentOf paid resource signature
    (authorizationAt now validForSecs (E.address wallet) payTo value nonce)
  have hread : readPaymentHeader E headers =
      (paymentOf paid resource signature (authorizationAt now validForSecs (E.address wallet)
        payTo value nonce)).nulled.assembled := by
    rw [hs.payment_eq, hms] at hcarries
    rw [readPaymentHeader_of_carries hE hcarries, hms]
  rw [OpensExactly, hread]
  have hauthentic := authentic_iff hE hI hpaid.payTo hs asked
  obtain ⟨-, -, huint, hafter, hbefore⟩ := fields_of_transferOf hs.fields
  obtain ⟨hwhole, hshown⟩ := whole_of_signed_amount hE hpaid.amount hs.value_eq huint
  rcases verifyPayment_cases hE hI hasked _ (.finite t) with
    ⟨hversion, -, -⟩ | ⟨⟨reason, payer, hfail⟩, -, hnone⟩ | ⟨m', hm', hpayee, hcheck⟩
  · cases hversion.symm.trans (version_parsed _ _ _ _)
  · rw [hfail]
    have hnot : ¬ (SameDomain E paid asked ∧ payTo = payTo') := by
      rintro ⟨hsame, rfl⟩
      exact hnone ⟨m, (hauthentic m).mpr ⟨rfl, hsame⟩, hto⟩
    refine iff_of_true ⟨_, rfl, iff_of_false (not_valid_fail _ _) ?_⟩ ?_
    · rintro ⟨hsame, heq, -⟩
      exact hnot ⟨hsame, heq⟩
    · exact fun hsame heq => absurd ⟨hsame, heq⟩ hnot
  · obtain ⟨rfl, hsame⟩ := (hauthentic m').mp hm'
    obtain rfl : payTo = payTo' := hto.symm.trans hpayee
    have hsent := hm'.fields
    rw [hcheck, sent_paymentOf]
    obtain ⟨report, hreport, hvalid⟩ := checkAmount_eq
      (a := signedFields now validForSecs (E.address wallet) payTo value nonce)
      (toBigInt_of_whole hwhole) hasked.amount (toNumber_numberText _) (toNumber_numberText _)
      m'.fromAddress (.finite t)
    rw [window_iff (ne_nan_of_uint256 hE hafter) (ne_nan_of_uint256 hE hbefore)
      (by simp)] at hvalid
    have hamounts : AmountShown paid amount amount' ↔ (amount' ≤ m'.value ↔ amount' ≤ amount) := by
      constructor
      · exact fun h => h value m'.value hs.value_eq hshown
      · intro h text n htext hn
        obtain rfl := Except.ok.inj (htext.symm.trans hs.value_eq)
        obtain rfl : n = m'.value := Int.ofNat.inj (Option.some.inj (hn.symm.trans hshown))
        exact h
    rw [hreport, hamounts]
    simp only [Except.ok.injEq, exists_eq_left', hvalid, hsame, true_and, true_imp_iff,
      and_congr_left_iff, and_imp]

/-- The server accepts exactly the payments of its requirement, whatever they say was accepted,
and a signed payment opens exactly the requests that it pays for. -/
theorem payments_exact_iff (hE : E.Lawful) (hI : E.Ideal) :
    (∀ (requirement : Value) (payTo : String) (amount : ℕ),
      ServerRequirement E requirement payTo amount → ∀ (payload : Value) (t : Binary64.Finite),
        (∃ report, verifyPayment E payload requirement (.finite t) = .ok report ∧
          (report.isValid = true ↔ Pays E payload requirement payTo amount t)) ↔
          Verifiable E payload requirement payTo amount t) ∧
    (∀ (ms : List (Str × Value)) (accepted requirement : Value) (now : Numeric),
      verifyPayment E (.object (setMember ms (ofString "accepted") accepted)) requirement now =
        verifyPayment E (.object ms) requirement now) ∧
    ∀ (paid asked : Value) (payTo payTo' : String) (amount amount' : ℕ),
      ServerRequirement E paid payTo amount → ServerRequirement E asked payTo' amount' →
      ∀ (resource : Option Value) (wallet : E.Wallet) (nonce : String) (now validForSecs : Numeric)
        (payment : Value),
        signPayment E paid resource wallet nonce now validForSecs = .ok payment →
      ∀ headers, Carries E headers payment → ∀ t : Binary64.Finite,
        OpensExactly E headers paid asked payTo payTo' amount amount' now validForSecs t ↔
          (SameDomain E paid asked → payTo = payTo' →
            (now.sub (.ofRat 60)).le (.finite t) = true →
            (Numeric.finite t).lt (now.add validForSecs) = true →
            AmountShown paid amount amount') :=
  ⟨fun _ _ _ hR payload t => verifyPayment_iff hE hI hR payload t, verifyPayment_accepted,
    fun _ _ _ _ _ _ hpaid hasked _ _ _ _ _ _ hsign _ hcarries t =>
      opensExactly_iff hE hI hpaid hasked hsign hcarries t⟩

/-! ## On the sample payment -/

/-- A client that knows the older name of the header only. -/
def sampleHeaders : String → Option String := fun name =>
  if name = "x-payment" then some (encodeHeader samplePayment) else none

theorem sampleHeaders_carry : Carries sampleEthers sampleHeaders samplePayment := by
  refine .inr ⟨?_, if_pos rfl⟩
  rw [sampleHeaders, if_neg (by decide), decodeHeader]
  rfl

theorem verifiable_samplePayment :
    Verifiable sampleEthers samplePayment sampleRequirement samplePayee 10000 sampleTime where
  version := .inl (by decide +kernel)
  readable := by
    intro m hm _
    have hfields : transferOf sampleEthers (sent samplePayment) = .ok sampleTransfer :=
      transferOf_sample
    obtain rfl := Except.ok.inj (hfields.symm.trans hm.fields)
    have hafter : ¬ sampleTime.val < sampleTransfer.validAfter := by decide +kernel
    have hblurred : ¬ Blurred sampleTime sampleTransfer.validBefore := by
      rintro ⟨-, h⟩
      revert h
      decide +kernel
    have hvalue : ¬ Misspelled (sent samplePayment).value :=
      not_misspelled_of_whole (n := 10000) (.inr ⟨ofString "10000", rfl, by decide +kernel⟩)
    have hbefore : ¬ Misspelled (sent samplePayment).validBefore := not_misspelled_numberText _
    exact ⟨hvalue, fun _ _ => ⟨fun h => absurd h hbefore, fun h => absurd h hblurred⟩,
      fun _ h => absurd h hafter⟩

/-- It opens the request that it was signed for. -/
theorem sample_payment_exact :
    (∃ report, verifyPayment sampleEthers samplePayment sampleRequirement (.finite sampleTime) =
        .ok report ∧
      (report.isValid = true ↔
        Pays sampleEthers samplePayment sampleRequirement samplePayee 10000 sampleTime)) ∧
    OpensExactly sampleEthers sampleHeaders sampleRequirement sampleRequirement samplePayee
      samplePayee 10000 10000 (.finite sampleTime) (.ofRat 600) sampleTime := by
  have hexact := payments_exact_iff sampleEthers_lawful sampleEthers_ideal
  refine ⟨(hexact.1 _ _ _ sampleRequirement_served _ _).mpr verifiable_samplePayment,
    (hexact.2.2 _ _ _ _ _ _ sampleRequirement_served sampleRequirement_served _ _ _ _ _ _
      signPayment_sample _ sampleHeaders_carry _).mpr fun _ _ _ _ => ?_⟩
  intro text n htext hn
  rw [sampleRequirement_amount] at htext
  obtain rfl := Except.ok.inj htext
  have hread : stringToBigInt (plain (ofString "10000")) = some 10000 := by
    rw [plain_ofString]
    decide
  obtain rfl : n = 10000 := Int.ofNat.inj (Option.some.inj (hn.symm.trans hread))
  rfl

/-- The version is an object with a `toString` of its own. -/
def unshownVersion : Value :=
  .object [(ofString "x402Version", .object [(ofString "toString", .number (.ofRat 1))])]

/-- The end of the transfer that is never valid is spelled as a minus sign. -/
def endlessPayment : Value :=
  .object [(ofString "x402Version", .number (.ofRat 2)),
    (ofString "payload", .object [(ofString "signature", textOf endedSignature),
      (ofString "authorization", .object [(ofString "from", textOf sampleSigner),
        (ofString "to", textOf samplePayee), (ofString "value", textOf "10000"),
        (ofString "validAfter", textOf "1699999940"), (ofString "validBefore", textOf "-"),
        (ofString "nonce", textOf sampleNonce)])])]

/-- The check throws for the one payload, and it accepts the other, which pays nothing. -/
theorem verifyPayment_not_exact :
    sampleEthers.Lawful ∧ sampleEthers.Ideal ∧
      ServerRequirement sampleEthers sampleRequirement samplePayee 10000 ∧
      verifyPayment sampleEthers unshownVersion sampleRequirement (.finite sampleTime) =
        .error .typeError ∧
      verifyPayment sampleEthers endlessPayment sampleRequirement (.finite sampleTime) =
        .ok ⟨true, none, some sampleSigner⟩ ∧
      ¬ Pays sampleEthers endlessPayment sampleRequirement samplePayee 10000 sampleTime := by
  refine ⟨sampleEthers_lawful, sampleEthers_ideal, sampleRequirement_served, by decide +kernel,
    by decide +kernel, ?_⟩
  rintro ⟨m, hm, -, -, -, hend⟩
  have hfields : transferOf sampleEthers (sent endlessPayment) = .ok endedTransfer := by
    decide +kernel
  obtain rfl := Except.ok.inj (hfields.symm.trans hm.fields)
  revert hend
  decide +kernel

end Gatekeeper.Agent.Exchange
