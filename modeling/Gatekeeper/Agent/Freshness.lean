import Gatekeeper.Agent.SampleCaller
import Gatekeeper.Lib.JsNumber

/-!
# The freshness window

Signing and verifying with any numbers for the times: those of a signature are whole and not
negative, the clock and the bounds of a verifier are any numbers of the language.
-/

namespace Gatekeeper.Agent

open Encoding Js Pattern Text

/-! ## Signing -/

/-- A number of seconds that is whole and not negative. -/
structure Seconds where
  val : ℕ
  isDouble : Double.IsDouble val
deriving DecidableEq

def Seconds.number (s : Seconds) : Number := .whole ⟨s.val, s.isDouble⟩

/-- The options of `signRequest`. -/
structure SigningOptions where
  keyid : String
  created : Seconds
  ttlSeconds : Seconds
  nonce : String

/-- `created + ttlSeconds`. -/
def SigningOptions.expires (o : SigningOptions) : Number :=
  .ofNat (o.created.val + o.ttlSeconds.val)

def sigParamsValue (components : List String) (o : SigningOptions) : String :=
  let inner := " ".intercalate (components.map fun c => s!"\"{c}\"")
  s!"({inner});created={o.created.number.text};expires={o.expires.text}" ++
    s!";keyid=\"{o.keyid}\";alg=\"ed25519\";nonce=\"{o.nonce}\";tag=\"web-bot-auth\""

variable (P : SigPlatform)

/-- `signRequest` with any times, or `none` where the URL cannot be read. -/
def signRequestAt (sk : P.PrivateKey) (req : OutRequest) (o : SigningOptions) :
    Option SignedHeaders := do
  let components := coveredComponents req
  let lines ← componentLines P (signingContext P req) components
  let value := sigParamsValue components o
  let sig := base64Encode (P.sign sk (utf8 (signatureBase lines value)))
  return {
    signatureInput := s!"sig1={value}"
    signature := s!"sig1=:{sig}:"
    contentDigest := (signingContext P req).contentDigestValue }

/-! ## Verifying -/

/-- The options of `verifyRequest`. `null` leaves out the bound on the age or the key's name. -/
structure VerifyBounds where
  maxAgeSeconds : Option Numeric
  skewSeconds : Numeric
  expectedKeyid : Option String
  now : Numeric

/-- `Number(..)` of the digits behind a mark. -/
def createdNumber (params : String) : Numeric :=
  numOfDigits (firstMatch (digitsAfter "created=") params.toList)

def expiresNumber (params : String) : Numeric :=
  numOfDigits (firstMatch (digitsAfter "expires=") params.toList)

/-- The times a signature states, against the clock. -/
def isTimely (b : VerifyBounds) (created expires : Numeric) : Bool :=
  created.isFinite && expires.isFinite && !(b.now.add b.skewSeconds).lt created &&
    !(expires.add b.skewSeconds).lt b.now &&
    !b.maxAgeSeconds.any fun m => m.lt (b.now.sub created)

/-- The checks that need neither the request nor the key. -/
def acceptsPartsAt (b : VerifyBounds) (parts : SignatureParts) : Bool :=
  contains parts.params "tag=\"web-bot-auth\"" &&
    b.expectedKeyid.all (fun k => keyidOf parts.params == some k) &&
    isTimely b (createdNumber parts.params) (expiresNumber parts.params)

def verifyRequestAt (b : VerifyBounds) (key : P.Key) (req : VerifyRequest)
    (signatureInput signature : String) : Bool :=
  match readSignature signatureInput signature with
  | none => false
  | some parts =>
    acceptsPartsAt b parts &&
      match rebuiltBase P req parts with
      | none => false
      | some base => P.verify key (utf8 base) (P.fromBase64 parts.signature)

/-- A request as it was signed, with the headers that `signRequest` wrote. -/
def received (req : OutRequest) (headers : SignedHeaders) : VerifyRequest where
  method := req.method
  url := req.url
  body := utf8 req.body
  signatureAgent := none
  contentDigest := headers.contentDigest.getD ""

variable {P}

/-! ## The verifier with exact times -/

/-- The digits behind a mark are no finite number, or one that both verifiers read. -/
theorem numOfDigits_cases (ds : Option ℕ) :
    (ds.bind finiteNumber = none ∧ (numOfDigits ds).isFinite = false) ∨
      ∃ n, Double.IsDouble n ∧ ds.bind finiteNumber = some n ∧ numOfDigits ds = .ofRat n := by
  cases ds with
  | none => exact .inl ⟨rfl, rfl⟩
  | some d =>
    rw [Option.bind_some, finiteNumber, numOfDigits, Option.map_some, Option.getD_some]
    by_cases h : Nat.log2 (Double.round d) < 1024
    · exact .inr ⟨_, Double.isDouble_round h, if_pos h, (ofRat_round d).symm⟩
    · rw [ofRat_overflow h]
      exact .inl ⟨if_neg h, rfl⟩

/-- The bounds of a verifier whose numbers are whole and not negative. -/
def VerifyOptions.bounds (opts : VerifyOptions) : VerifyBounds where
  maxAgeSeconds := some (.ofRat opts.maxAgeSeconds)
  skewSeconds := .ofRat opts.skewSeconds
  expectedKeyid := some opts.expectedKeyid
  now := .ofRat opts.now

/-- The numbers of a verifier, and the sum of two of them, are exact. -/
structure VerifyOptions.Small (opts : VerifyOptions) : Prop where
  now : opts.now < 2 ^ 52
  skewSeconds : opts.skewSeconds < 2 ^ 52
  maxAgeSeconds : opts.maxAgeSeconds < 2 ^ 52

theorem isTimely_bounds {opts : VerifyOptions} (h : opts.Small) (params : String) :
    isTimely opts.bounds (createdNumber params) (expiresNumber params) = isFresh opts params := by
  obtain ⟨hnow, hskew, hage⟩ := h
  rw [isFresh, createdOf, expiresOf, createdNumber, expiresNumber]
  rcases numOfDigits_cases (firstMatch (digitsAfter "created=") params.toList) with
    ⟨hnone, hinf⟩ | ⟨c, hc, hcreated, hc'⟩
  · rw [hnone, isTimely, hinf]
    rfl
  rcases numOfDigits_cases (firstMatch (digitsAfter "expires=") params.toList) with
    ⟨hnone, hinf⟩ | ⟨e, he, hexpires, he'⟩
  · rw [hcreated, hnone, isTimely, hinf, Bool.and_false]
    rfl
  have hdouble : ∀ {n : ℕ}, n < 2 ^ 52 → Double.IsDouble n := fun hn =>
    Double.isDouble_of_lt (by omega)
  have hfuture : ((opts.bounds.now.add opts.bounds.skewSeconds).lt (.ofRat c)) =
      decide (opts.now + opts.skewSeconds < c) := by
    rw [VerifyOptions.bounds, add_ofRat (hdouble hnow) (hdouble hskew)]
    exact lt_ofRat (Double.isDouble_of_lt (by omega)) hc
  have hpast : (((Numeric.ofRat e).add opts.bounds.skewSeconds).lt opts.bounds.now) =
      decide (e + opts.skewSeconds < opts.now) := by
    rw [VerifyOptions.bounds, add_ofRat he (hdouble hskew)]
    exact lt_ofRat_of_lt (by omega)
  have hold : (opts.bounds.maxAgeSeconds.any fun m => m.lt (opts.bounds.now.sub (.ofRat c))) =
      decide (opts.maxAgeSeconds + c < opts.now) := by
    rw [VerifyOptions.bounds, Option.any_some]
    exact lt_sub_ofRat (by omega) (by omega) hc
  rw [hcreated, hexpires, hc', he', isTimely, isFinite_ofRat hc, isFinite_ofRat he, hfuture, hpast,
    hold]
  simp only [Bool.true_and, ← decide_not, not_lt]
  rw [Nat.add_comm opts.maxAgeSeconds c]

/-- On exact times this is `verifyRequest`. -/
theorem verifyRequestAt_bounds {opts : VerifyOptions} (h : opts.Small) (key : P.Key)
    (req : VerifyRequest) (input signature : String) :
    verifyRequestAt P opts.bounds key req input signature =
      verifyRequest P opts key req input signature := by
  have haccepts : ∀ parts, acceptsPartsAt opts.bounds parts = acceptsParts opts parts := by
    intro parts
    rw [acceptsPartsAt, acceptsParts, isTimely_bounds h]
    rfl
  unfold verifyRequestAt verifyRequest
  cases readSignature input signature with
  | none => rfl
  | some parts =>
    exact congrArg (fun b => b && _) (haccepts parts)

/-! ## The times as text -/

theorem toNum_number (s : Seconds) : s.number.toNum = .ofRat s.val := by
  rw [Seconds.number, toNum_whole, Int.cast_natCast]

/-- The deadline is the sum of the two numbers. -/
theorem toNum_expires (o : SigningOptions) :
    o.expires.toNum = o.created.number.toNum.add o.ttlSeconds.number.toNum := by
  rw [SigningOptions.expires, toNum_ofNat, toNum_number, toNum_number,
    add_ofRat o.created.isDouble o.ttlSeconds.isDouble]

/-- The numbers whose text has no exponent. -/
structure SigningOptions.Plain (o : SigningOptions) : Prop where
  created : o.created.val < 10 ^ 21
  expires : Double.round (o.created.val + o.ttlSeconds.val) < 10 ^ 21

/-- What is printed of such numbers. -/
def SigningOptions.printed (o : SigningOptions) : SigningParams where
  keyid := o.keyid
  created := Double.shortest o.created.val
  expires := Js.printed (o.created.val + o.ttlSeconds.val)
  nonce := o.nonce

theorem text_number {s : Seconds} (h : s.val < 10 ^ 21) :
    s.number.text = toString (Double.shortest s.val) := by
  have hpos : ¬ (s.val : ℤ) < 0 := by omega
  rw [Seconds.number, Number.text, if_neg hpos, Int.natAbs_natCast, wholeText, if_pos h]

theorem text_ofNat {n : ℕ} (h : Double.round n < 10 ^ 21) :
    (Number.ofNat n).text = toString (printed n) := by
  have hlog : Nat.log2 (Double.round n) ≤ 69 := Double.log2_lt_of_lt (by omega)
  have hpos : ¬ (Double.round n : ℤ) < 0 := by omega
  rw [Number.ofNat, dif_pos (by omega), Number.text, if_neg hpos, Int.natAbs_natCast, wholeText,
    if_pos h, printed]

theorem sigParamsValue_plain (cs : List String) {o : SigningOptions} (h : o.Plain) :
    sigParamsValue cs o = sigParamsText cs o.printed := by
  rw [sigParamsValue, text_number h.created, SigningOptions.expires, text_ofNat h.expires]
  rfl

/-- With such numbers this is `signRequest`. -/
theorem signRequestAt_plain (sk : P.PrivateKey) (req : OutRequest) {o : SigningOptions}
    (h : o.Plain) : signRequestAt P sk req o = signRequest P sk req o.printed := by
  unfold signRequestAt signRequest
  simp only [sigParamsValue_plain _ h]

/-! ## Reading the times back -/

/-- A time in scientific notation is read as its first digit. -/
theorem digitsAfter_scientific (mark : String) {n : ℕ} (hn : Double.round n = n)
    (h : 10 ^ 21 ≤ n) (rest : List Char) :
    ∃ k < 10, firstMatch (digitsAfter mark) (mark.toList ++ ((wholeText n).toList ++ rest)) =
      some k := by
  have hne : Double.shortest n ≠ 0 := by
    intro hzero
    have hround := Double.round_shortest hn
    rw [hzero, Double.round_of_lt (by decide)] at hround
    omega
  have hdigits : ∀ c ∈ Nat.toDigits 10 (Double.shortest n), c.isDigit = true := fun c hc =>
    Nat.isDigit_of_mem_toDigits (by decide) (by decide) hc
  obtain ⟨d, c, t, htext, hd, hc⟩ := scientific_cases hdigits (by
    rw [Nat.ofDigitChars_toDigits (by decide) (by decide)]
    exact hne)
  have hmem : ∀ e ∈ [d], e.isDigit = true := fun e he => by
    rw [List.mem_singleton.mp he]
    exact hd
  refine ⟨Nat.ofDigitChars 10 [d] 0, ?_, ?_⟩
  · rw [Nat.ofDigitChars_cons, Nat.ofDigitChars_nil]
    have := (digitValue_of_isDigit hd).2
    omega
  · rw [wholeText, if_neg (by omega), htext]
    exact firstMatch_of_some (digitsAfter_of_digits (List.cons_ne_nil _ _) hmem hc)

theorem toList_sigParamsValue (cs : List String) (o : SigningOptions) :
    (sigParamsValue cs o).toList = '(' :: innerText cs ++ ')' :: ([] ++ ';' ::
      ("created=".toList ++ (o.created.number.text.toList ++ ';' ::
      ("expires=".toList ++ (o.expires.text.toList ++ ';' ::
      ("keyid=\"".toList ++ (o.keyid.toList ++ '"' ::
      (";alg=\"ed25519\"".toList ++ ';' ::
      ("nonce=\"".toList ++ (o.nonce.toList ++ '"' ::
      (";".toList ++ "tag=\"web-bot-auth\"".toList))))))))))) :=
  toList_params _ _ _ _ _

/-- One digit is not the number that has an exponent. -/
theorem ofRat_ne_of_large {k n : ℕ} (hk : k < 10) (hn : Double.IsDouble n) (h : 10 ^ 21 ≤ n) :
    Numeric.ofRat k ≠ .ofRat n := by
  intro heq
  have := ofRat_inj (Double.isDouble_of_lt (by omega)) hn heq
  omega

theorem createdNumber_of_large (req : OutRequest) {o : SigningOptions}
    (h : 10 ^ 21 ≤ o.created.val) :
    createdNumber (sigParamsValue (coveredComponents req) o) ≠ o.created.number.toNum := by
  have hpos : ¬ (o.created.val : ℤ) < 0 := by omega
  have htext : o.created.number.text = wholeText o.created.val := by
    rw [Seconds.number, Number.text, if_neg hpos, Int.natAbs_natCast]
  obtain ⟨k, hk, hread⟩ := digitsAfter_scientific "created=" o.created.isDouble.1 h _
  rw [createdNumber, toList_sigParamsValue, firstMatch_created, htext, hread, toNum_number]
  exact ofRat_ne_of_large hk o.created.isDouble h

/-- A deadline behind a time of ordinary size is finite. -/
theorem log2_expires {c t : ℕ} (hc : c < 10 ^ 21) (ht : Double.IsDouble t) :
    Nat.log2 (Double.round (c + t)) < 1024 := by
  by_cases h : 2 * c < Double.ulp t
  · rw [Double.round_add_of_small ht.1 h]
    exact ht.2
  · have hulp : Double.ulp t < 2 ^ 71 := by omega
    have hlog : Nat.log2 t - 52 < 71 := (Nat.pow_lt_pow_iff_right (by decide)).mp hulp
    have hsmall : t < 2 ^ 123 := (Double.log2_lt_iff (by decide)).mp (by omega)
    have hround : Double.round (c + t) ≤ 2 ^ 124 := Double.round_le_two_pow (by omega)
    have := Double.log2_lt_of_lt (n := Double.round (c + t)) (k := 124) (by omega)
    omega

theorem expiresNumber_of_large (req : OutRequest) {o : SigningOptions}
    (hc : o.created.val < 10 ^ 21)
    (h : 10 ^ 21 ≤ Double.round (o.created.val + o.ttlSeconds.val)) :
    expiresNumber (sigParamsValue (coveredComponents req) o) ≠ o.expires.toNum := by
  have hlog := log2_expires hc o.ttlSeconds.isDouble
  have hpos : ¬ (Double.round (o.created.val + o.ttlSeconds.val) : ℤ) < 0 := by omega
  have htext : o.expires.text =
      wholeText (Double.round (o.created.val + o.ttlSeconds.val)) := by
    rw [SigningOptions.expires, Number.ofNat, dif_pos hlog, Number.text, if_neg hpos,
      Int.natAbs_natCast]
  have hx : 'x' ∉ o.created.number.text.toList := by
    rw [text_number hc]
    exact not_mem_digits (by decide) _
  obtain ⟨k, hk, hread⟩ :=
    digitsAfter_scientific "expires=" (Double.round_round _) h _
  rw [expiresNumber, toList_sigParamsValue, firstMatch_expires req hx, htext, hread,
    SigningOptions.expires, toNum_ofNat, ← ofRat_round]
  exact ofRat_ne_of_large hk (Double.isDouble_round hlog) h

/-! ## The window -/

/-- The three bounds on the times of a signature, as the language computes them. -/
structure TimesInWindow (created ttlSeconds : Numeric) (b : VerifyBounds) : Prop where
  notFuture : created.le (b.now.add b.skewSeconds) = true
  notPast : b.now.le ((created.add ttlSeconds).add b.skewSeconds) = true
  notOld : ∀ m ∈ b.maxAgeSeconds, (b.now.sub created).le m = true

/-- One of the bounds is exceeded. -/
def Exceeded (created expires : Numeric) (b : VerifyBounds) : Prop :=
  (b.now.add b.skewSeconds).lt created = true ∨ (expires.add b.skewSeconds).lt b.now = true ∨
    ∃ m ∈ b.maxAgeSeconds, m.lt (b.now.sub created) = true

/-- No bound of the verifier is `NaN`. -/
structure VerifyBounds.Ordered (b : VerifyBounds) : Prop where
  clock : b.now.add b.skewSeconds ≠ .nan
  age : b.maxAgeSeconds ≠ some .nan

theorem isTimely_iff {b : VerifyBounds} {created expires : Numeric} (hc : created.isFinite = true)
    (he : expires.isFinite = true) :
    isTimely b created expires = true ↔ ¬ Exceeded created expires b := by
  rw [isTimely, hc, he, Exceeded, not_or, not_or]
  simp only [Bool.true_and, Bool.and_eq_true, Bool.not_eq_true', Bool.not_eq_true,
    Option.any_eq_false, Option.mem_def, not_exists, not_and, and_assoc]

theorem not_exceeded_of_inWindow {b : VerifyBounds} {created ttlSeconds : Numeric}
    (h : TimesInWindow created ttlSeconds b) : ¬ Exceeded created (created.add ttlSeconds) b := by
  rintro (hlt | hlt | ⟨m, hm, hlt⟩)
  · rw [Numeric.lt_eq_false_iff.mpr (.inl h.notFuture)] at hlt
    cases hlt
  · rw [Numeric.lt_eq_false_iff.mpr (.inl h.notPast)] at hlt
    cases hlt
  · rw [Numeric.lt_eq_false_iff.mpr (.inl (h.notOld m hm))] at hlt
    cases hlt

/-- Between numbers that are not `NaN`, a bound that is not exceeded holds. -/
theorem inWindow_of_ordered {b : VerifyBounds} {created ttlSeconds : Numeric}
    (hc : created.isFinite = true) (he : (created.add ttlSeconds).isFinite = true)
    (ho : b.Ordered) (h : ¬ Exceeded created (created.add ttlSeconds) b) :
    TimesInWindow created ttlSeconds b := by
  have hfinite : ∀ {a : Numeric}, a.isFinite = true → a ≠ .nan := by
    rintro a ha rfl
    cases ha
  have hnow : b.now ≠ .nan := fun hnan => ho.clock (by rw [hnan, Numeric.nan_add])
  have hskew : b.skewSeconds ≠ .nan := fun hnan => ho.clock (by rw [hnan, Numeric.add_nan])
  simp only [Exceeded, not_or, not_exists, not_and, Bool.not_eq_true] at h
  obtain ⟨hfuture, hpast, hold⟩ := h
  refine ⟨?_, ?_, fun m hm => ?_⟩
  · rcases Numeric.lt_eq_false_iff.mp hfuture with hle | hnan | hnan
    · exact hle
    · exact absurd hnan (hfinite hc)
    · exact absurd hnan ho.clock
  · rcases Numeric.lt_eq_false_iff.mp hpast with hle | hnan | hnan
    · exact hle
    · exact absurd hnan hnow
    · rw [Numeric.add_comm, Numeric.add_eq_nan_iff he] at hnan
      exact absurd hnan hskew
  · rcases Numeric.lt_eq_false_iff.mp (hold m hm) with hle | hnan | hnan
    · exact hle
    · rw [Numeric.sub, Numeric.add_eq_nan_iff (Numeric.isFinite_neg hc)] at hnan
      exact absurd hnan hnow
    · rw [hnan] at hm
      exact absurd hm ho.age

/-- The negated comparisons of the code are the window, unless one of them meets `NaN` and all of
them pass. -/
theorem not_exceeded_iff_inWindow {b : VerifyBounds} (created ttlSeconds : Numeric)
    (hc : created.isFinite = true) (he : (created.add ttlSeconds).isFinite = true) :
    (¬ Exceeded created (created.add ttlSeconds) b ↔ TimesInWindow created ttlSeconds b) ↔
      b.Ordered ∨ Exceeded created (created.add ttlSeconds) b := by
  constructor
  · intro h
    by_cases hex : Exceeded created (created.add ttlSeconds) b
    · exact .inr hex
    obtain ⟨hfuture, _, hold⟩ := h.mp hex
    refine .inl ⟨fun hnan => ?_, fun hnan => ?_⟩
    · rw [hnan, Numeric.le_nan] at hfuture
      cases hfuture
    · have hle := hold .nan hnan
      rw [Numeric.le_nan] at hle
      cases hle
  · rintro (ho | hex)
    · exact ⟨inWindow_of_ordered hc he ho, not_exceeded_of_inWindow⟩
    · exact ⟨fun h => absurd hex h, not_exceeded_of_inWindow⟩

/-! ## Signing, then verifying -/

/-- The parameters that are read back are the ones that were signed. -/
structure ReadsBack (req : OutRequest) (o : SigningOptions) (parts : SignatureParts) : Prop where
  keyid : keyidOf parts.params = some o.keyid
  created : createdNumber parts.params = o.created.number.toNum
  expires : expiresNumber parts.params = o.expires.toNum
  components : parts.components = coveredComponents req

/-- The signed request verifies exactly in the window, and its parameters are read back. -/
structure VerifiesInWindow (P : SigPlatform) (sk : P.PrivateKey) (req : OutRequest)
    (o : SigningOptions) (b : VerifyBounds) (headers : SignedHeaders) : Prop where
  verifies : verifyRequestAt P b (P.publicKey sk) (received req headers) headers.signatureInput
    headers.signature = true ↔ TimesInWindow o.created.number.toNum o.ttlSeconds.number.toNum b
  readsBack : ∃ parts, readSignature headers.signatureInput headers.signature = some parts ∧
    ReadsBack req o parts

/-- The texts of a signature can be told from what stands around them. -/
structure SigningOptions.Quotable (o : SigningOptions) : Prop where
  keyid_ne : o.keyid ≠ ""
  keyid_noQuote : '"' ∉ o.keyid.toList
  keyid_line : o.keyid.toList.any isLineEnd = false
  nonce_line : o.nonce.toList.any isLineEnd = false

/-- The parameters stand on one line. -/
theorem printed_onLine (req : OutRequest) {o : SigningOptions} (h : o.Quotable) :
    (sigParamsText (coveredComponents req) o.printed).toList.any isLineEnd = false := by
  have hinner : (innerText (coveredComponents req)).any isLineEnd = false := by
    rcases covered_cases req with hc | hc <;> rw [hc] <;> decide
  have hdigits : ∀ n : ℕ, (toString n).toList.any isLineEnd = false := by
    intro n
    rw [List.any_eq_false]
    intro c hc hend
    simp only [isLineEnd, Bool.or_eq_true, beq_iff_eq] at hend
    rcases hend with ((rfl | rfl) | rfl) | rfl <;> exact not_mem_digits (by decide) n hc
  have hkeyid : o.printed.keyid.toList.any isLineEnd = false := h.keyid_line
  have hnonce : o.printed.nonce.toList.any isLineEnd = false := h.nonce_line
  rw [toList_sigParamsText]
  simp only [List.any_append, List.any_cons, List.any_nil, hinner, hdigits, hkeyid, hnonce]
  decide

theorem verifyRequestAt_iff {b : VerifyBounds} {key : P.Key} {req : VerifyRequest}
    {input signature : String} {parts : SignatureParts} {base : String}
    (hread : readSignature input signature = some parts)
    (hbase : rebuiltBase P req parts = some base) :
    verifyRequestAt P b key req input signature = true ↔ acceptsPartsAt b parts = true ∧
      P.verify key (utf8 base) (P.fromBase64 parts.signature) = true := by
  unfold verifyRequestAt
  rw [hread]
  dsimp only
  rw [hbase, Bool.and_eq_true]

/-- From digits everything that was signed is read back. -/
theorem readsBack_printed (sk : P.PrivateKey) (req : OutRequest) {o : SigningOptions}
    (hq : o.Quotable) (lines : List String) :
    ReadsBack req o (writtenParts P sk req o.printed lines) where
  keyid := (keyidOf_sigParamsText req hq.keyid_ne).mpr hq.keyid_noQuote
  created := by
    rw [writtenParts, createdNumber, createdDigits_sigParamsText, toNum_number]
    show Numeric.ofRat (Double.shortest o.created.val : ℕ) = _
    rw [← ofRat_round, Double.round_shortest o.created.isDouble.1]
  expires := by
    rw [writtenParts, expiresNumber, expiresDigits_sigParamsText, SigningOptions.expires,
      toNum_ofNat]
    show Numeric.ofRat (printed (o.created.val + o.ttlSeconds.val) : ℕ) = _
    rw [← ofRat_round, printed, Double.round_shortest (Double.round_round _), ofRat_round]
  components := rfl

/-- Every request to a URL that can be read is signed. -/
theorem exists_signRequestAt (sk : P.PrivateKey) {req : OutRequest} (o : SigningOptions) {u : Url}
    (hu : P.parseUrl req.url = some u) : ∃ headers, signRequestAt P sk req o = some headers := by
  have hlines : ∃ lines, componentLines P (signingContext P req) (coveredComponents req) =
      some lines := by
    rcases covered_cases req with hc | hc <;>
      simp [hc, baseComponents, componentLines, componentValue, signingContext, hu]
  obtain ⟨lines, hlines⟩ := hlines
  exact ⟨_, Option.bind_eq_some_iff.mpr ⟨lines, hlines, rfl⟩⟩

/-- Signing with plain times, then verifying, succeeds unless a bound is exceeded. -/
theorem verifies_of_plain (hP : P.Lawful) (hI : P.Ideal) {sk : P.PrivateKey} {req : OutRequest}
    {o : SigningOptions} {b : VerifyBounds} {headers : SignedHeaders} {u : Url}
    (hu : P.parseUrl req.url = some u) (hq : o.Quotable) (h : o.Plain)
    (hb : b.expectedKeyid = some o.keyid) (hsign : signRequestAt P sk req o = some headers) :
    (verifyRequestAt P b (P.publicKey sk) (received req headers) headers.signatureInput
        headers.signature = true ↔
      ¬ Exceeded o.created.number.toNum o.expires.toNum b) ∧
    ∃ parts, readSignature headers.signatureInput headers.signature = some parts ∧
      ReadsBack req o parts := by
  rw [signRequestAt_plain sk req h] at hsign
  obtain ⟨lines, hlines, hread⟩ := readSignature_signRequest hI hsign
  rw [if_pos (printed_onLine req hq)] at hread
  have hback := readsBack_printed sk req hq lines
  refine ⟨?_, _, hread, hback⟩
  have hbase := rebuiltBase_writtenParts hsign (received req headers) rfl
    ⟨u, u, hu, hu, rfl, rfl⟩ rfl (fun _ => rfl) hlines
  have hverify : P.verify (P.publicKey sk)
      (utf8 (signatureBase lines (sigParamsText (coveredComponents req) o.printed)))
      (P.fromBase64 (writtenParts P sk req o.printed lines).signature) = true := by
    rw [writtenParts, hP.fromBase64_encode]
    exact hI.verify_sign.mpr ⟨rfl, rfl⟩
  have htag : contains (writtenParts P sk req o.printed lines).params "tag=\"web-bot-auth\"" =
      true := tag_sigParamsText _ _
  rw [verifyRequestAt_iff hread hbase, acceptsPartsAt, hback.keyid, hback.created, hback.expires,
    hb, Option.all_some, beq_self_eq_true, htag, hverify, Bool.true_and, Bool.true_and,
    isTimely_iff]
  · exact and_iff_left rfl
  · rw [toNum_number]
    exact isFinite_ofRat o.created.isDouble
  · rw [SigningOptions.expires, toNum_ofNat, ← ofRat_round]
    exact isFinite_ofRat
      (Double.isDouble_round (log2_expires h.created o.ttlSeconds.isDouble))

/-- What stands behind the label, read back. -/
theorem params_of_labelledValue {label params value : String} (hne : value ≠ "")
    (h : labelledValue s!"sig1={value}" = some (label, params)) : params = value := by
  have hinput : s!"sig1={value}" = String.ofList ("sig1".toList ++ '=' :: value.toList) := by
    refine String.toList_injective ?_
    simp [toString, String.toList_append]
  have hlist : value.toList ≠ [] := fun hnil => hne (String.toList_injective hnil)
  rw [hinput, labelledValue_append isLabelChar_sig1 (by decide) hlist,
    Option.ite_none_right_eq_some] at h
  have hvalue := congrArg Prod.snd (Option.some.inj h.2)
  simp only [String.ofList_toList] at hvalue
  exact hvalue.symm

/-- The parameters that are read back, whatever the times are. -/
theorem params_of_signRequestAt {sk : P.PrivateKey} {req : OutRequest} {o : SigningOptions}
    {headers : SignedHeaders} {parts : SignatureParts}
    (hsign : signRequestAt P sk req o = some headers)
    (hread : readSignature headers.signatureInput headers.signature = some parts) :
    parts.params = sigParamsValue (coveredComponents req) o := by
  obtain ⟨_, _, heq⟩ := Option.bind_eq_some_iff.mp hsign
  have hinput : headers.signatureInput = s!"sig1={sigParamsValue (coveredComponents req) o}" :=
    (congrArg SignedHeaders.signatureInput (Option.some.inj heq)).symm
  obtain ⟨label, hvalue, _⟩ := readSignature_spec hread
  rw [hinput] at hvalue
  refine params_of_labelledValue (fun hempty => ?_) hvalue
  have hlist := toList_sigParamsValue (coveredComponents req) o
  rw [hempty] at hlist
  cases hlist

/-- Times whose text has an exponent are not read back. -/
theorem plain_of_readsBack {req : OutRequest} {o : SigningOptions} {parts : SignatureParts}
    (hparams : parts.params = sigParamsValue (coveredComponents req) o)
    (h : ReadsBack req o parts) : o.Plain := by
  have hcreated : o.created.val < 10 ^ 21 := by
    by_contra hlarge
    have hback := h.created
    rw [hparams] at hback
    exact createdNumber_of_large req (by omega) hback
  refine ⟨hcreated, ?_⟩
  by_contra hlarge
  have hback := h.expires
  rw [hparams] at hback
  exact expiresNumber_of_large req hcreated (by omega) hback

/-- A signed request verifies exactly in the freshness window, and what was signed is read back,
if and only if its times are printed without an exponent and no bound of the verifier is `NaN`,
unless another bound is exceeded. -/
theorem verifiesInWindow_iff (hP : P.Lawful) (hI : P.Ideal) (sk : P.PrivateKey) {req : OutRequest}
    {u : Url} (hu : P.parseUrl req.url = some u) {o : SigningOptions} (hq : o.Quotable)
    {b : VerifyBounds} (hb : b.expectedKeyid = some o.keyid) :
    ∃ headers, signRequestAt P sk req o = some headers ∧
      (VerifiesInWindow P sk req o b headers ↔
        o.Plain ∧ (b.Ordered ∨ Exceeded o.created.number.toNum o.expires.toNum b)) := by
  obtain ⟨headers, hsign⟩ := exists_signRequestAt sk o hu
  refine ⟨headers, hsign, ?_⟩
  have window (h : o.Plain) := not_exceeded_iff_inWindow (b := b)
    o.created.number.toNum o.ttlSeconds.number.toNum
    (by
      rw [toNum_number]
      exact isFinite_ofRat o.created.isDouble)
    (by
      rw [← toNum_expires, SigningOptions.expires, toNum_ofNat, ← ofRat_round]
      exact isFinite_ofRat
        (Double.isDouble_round (log2_expires h.created o.ttlSeconds.isDouble)))
  rw [← toNum_expires] at window
  constructor
  · rintro ⟨hverifies, parts, hread, hback⟩
    have hplain := plain_of_readsBack (params_of_signRequestAt hsign hread) hback
    have hspec := (verifies_of_plain hP hI hu hq hplain hb hsign).1
    exact ⟨hplain, (window hplain).mp (hspec.symm.trans hverifies)⟩
  · rintro ⟨hplain, hcases⟩
    obtain ⟨hspec, hback⟩ := verifies_of_plain hP hI hu hq hplain hb hsign
    exact ⟨hspec.trans ((window hplain).mpr hcases), hback⟩

/-- A minute's signature. -/
def sampleOptions : SigningOptions where
  keyid := "agent-1"
  created := ⟨1700000000, Double.isDouble_of_lt (by decide)⟩
  ttlSeconds := ⟨60, Double.isDouble_of_lt (by decide)⟩
  nonce := "bm9uY2UtMQ=="

/-- The bounds of the code, at a time. -/
def boundsAt (now : Numeric) : VerifyBounds where
  maxAgeSeconds := some (.ofRat 300)
  skewSeconds := .ofRat 30
  expectedKeyid := some "agent-1"
  now := now

theorem sampleOptions_quotable : sampleOptions.Quotable :=
  ⟨by decide, by decide, by decide, by decide⟩

theorem sampleOptions_plain : sampleOptions.Plain := ⟨by decide, by decide +kernel⟩

theorem parse_sampleRequest :
    samplePlatformOfKeys.parseUrl sampleRequest.url = some gateUrl := parse_gate

theorem verifiesInWindow_sample :
    ∃ headers, signRequestAt samplePlatformOfKeys sampleSigner sampleRequest sampleOptions =
        some headers ∧
      VerifiesInWindow samplePlatformOfKeys sampleSigner sampleRequest sampleOptions
        (boundsAt (.ofRat 1700000090)) headers := by
  obtain ⟨headers, hsign, hiff⟩ := verifiesInWindow_iff sample_lawful sample_ideal sampleSigner
    parse_sampleRequest sampleOptions_quotable
    (b := boundsAt (.ofRat 1700000090)) rfl
  refine ⟨headers, hsign, hiff.mpr ⟨sampleOptions_plain, .inl ⟨?_, ?_⟩⟩⟩
  · decide +kernel
  · exact fun h => Numeric.ofRat_ne_nan _ (Option.some.inj h)

/-- A signature whose time is printed with an exponent. -/
def lateOptions : SigningOptions where
  keyid := "agent-1"
  created := ⟨10 ^ 21, by decide +kernel⟩
  ttlSeconds := ⟨0, Double.isDouble_of_lt (by decide)⟩
  nonce := "bm9uY2UtMQ=="

/-- The time is read as `1`, which is long ago. -/
theorem late_not_accepted {headers : SignedHeaders}
    (hsign : signRequestAt samplePlatformOfKeys sampleSigner sampleRequest lateOptions =
      some headers) :
    verifyRequestAt samplePlatformOfKeys (boundsAt (.ofRat (10 ^ 21 : ℕ))) samplePublicKey
      (received sampleRequest headers) headers.signatureInput headers.signature = false := by
  unfold verifyRequestAt
  cases hread : readSignature headers.signatureInput headers.signature with
  | none => rfl
  | some parts =>
    have hparams := params_of_signRequestAt hsign hread
    have hx : 'x' ∉ lateOptions.created.number.text.toList := by decide +kernel
    have hexpires : expiresNumber parts.params = .ofRat (1 : ℕ) := by
      rw [hparams, expiresNumber, toList_sigParamsValue, firstMatch_expires sampleRequest hx]
      have htext : lateOptions.expires.text = "1e+21" := by decide +kernel
      rw [htext]
      exact congrArg numOfDigits (firstMatch_of_some (@digitsAfter_of_digits _ ['1'] _ _
        (by simp) (by simp) (by decide)))
    have hlt : ((Numeric.ofRat (1 : ℕ)).add (boundsAt (.ofRat (10 ^ 21 : ℕ))).skewSeconds).lt
        (.ofRat (10 ^ 21 : ℕ)) = true := by decide +kernel
    dsimp only
    rw [acceptsPartsAt, hexpires, isTimely]
    have hnow : (boundsAt (.ofRat (10 ^ 21 : ℕ))).now = .ofRat (10 ^ 21 : ℕ) := rfl
    rw [hnow, hlt]
    simp

/-- A signature in its window is refused when its time is printed with an exponent, and one that
has no window is accepted when the clock is `NaN`. -/
theorem window_missed :
    (∃ headers, signRequestAt samplePlatformOfKeys sampleSigner sampleRequest lateOptions =
        some headers ∧
      TimesInWindow lateOptions.created.number.toNum lateOptions.ttlSeconds.number.toNum
        (boundsAt (.ofRat (10 ^ 21 : ℕ))) ∧
      verifyRequestAt samplePlatformOfKeys (boundsAt (.ofRat (10 ^ 21 : ℕ))) samplePublicKey
        (received sampleRequest headers) headers.signatureInput headers.signature = false) ∧
    ∃ headers, signRequestAt samplePlatformOfKeys sampleSigner sampleRequest sampleOptions =
        some headers ∧
      ¬ TimesInWindow sampleOptions.created.number.toNum sampleOptions.ttlSeconds.number.toNum
        (boundsAt .nan) ∧
      verifyRequestAt samplePlatformOfKeys (boundsAt .nan) samplePublicKey
        (received sampleRequest headers) headers.signatureInput headers.signature = true := by
  constructor
  · obtain ⟨headers, hsign⟩ := exists_signRequestAt (P := samplePlatformOfKeys) sampleSigner
      lateOptions parse_sampleRequest
    refine ⟨headers, hsign, ⟨by decide +kernel, by decide +kernel, fun m hm => ?_⟩,
      late_not_accepted hsign⟩
    obtain rfl := Option.some.inj hm
    decide +kernel
  · obtain ⟨headers, hsign⟩ := exists_signRequestAt (P := samplePlatformOfKeys) sampleSigner
      sampleOptions parse_sampleRequest
    refine ⟨headers, hsign, fun h => absurd h.notFuture (by decide +kernel), ?_⟩
    refine (verifies_of_plain sample_lawful sample_ideal parse_gate sampleOptions_quotable
      sampleOptions_plain rfl hsign).1.mpr ?_
    rintro (hlt | hlt | ⟨m, hm, hlt⟩)
    · exact absurd hlt (by decide +kernel)
    · exact absurd hlt (by decide +kernel)
    · obtain rfl := Option.some.inj hm
      exact absurd hlt (by decide +kernel)

end Gatekeeper.Agent
