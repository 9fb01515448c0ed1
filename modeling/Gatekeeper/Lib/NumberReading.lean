import Gatekeeper.Lib.NumberText

/-!
# One text, read as a big integer and as a number

`Number(..)` of a text that `BigInt(..)` reads is the double nearest to that integer, a text
behind a minus sign that it refuses is `NaN`, and the text of a number reads back.
-/

namespace Js

/-! ## Digits -/

theorem isDigit_of_digitValue {c : Char} {d : ℕ} (h : digitValue c = some d) (hd : d < 10) :
    c.isDigit = true := by
  have hzero : '0'.toNat = 48 := rfl
  have ha : 'a'.toNat = 97 := rfl
  have hA : 'A'.toNat = 65 := rfl
  unfold digitValue at h
  split_ifs at h with hdec hlow hup
  · simpa [Char.isDigit, Char.le_def] using hdec
  · obtain rfl := Option.some.inj h
    omega
  · obtain rfl := Option.some.inj h
    omega

theorem digits_of_digitsFrom {cs : List Char} {m n : ℕ} (h : digitsFrom 10 m cs = some n) :
    ∀ c ∈ cs, c.isDigit = true := by
  induction cs generalizing m with
  | nil => simp
  | cons c cs ih =>
    rw [digitsFrom] at h
    cases hvalue : digitValue c with
    | none =>
      rw [hvalue] at h
      cases h
    | some d =>
      rw [hvalue] at h
      dsimp only at h
      split_ifs at h with hd
      exact List.forall_mem_cons.mpr ⟨isDigit_of_digitValue hvalue hd, ih h⟩

theorem digits_ten_iff {cs : List Char} {n : ℕ} :
    digits 10 cs = some n ↔
      cs ≠ [] ∧ (∀ c ∈ cs, c.isDigit = true) ∧ Nat.ofDigitChars 10 cs 0 = n := by
  cases cs with
  | nil => exact iff_of_false (by rintro ⟨⟩) fun h => h.1 rfl
  | cons c cs =>
    show digitsFrom 10 0 (c :: cs) = some n ↔ _
    constructor
    · intro h
      have hdigits := digits_of_digitsFrom h
      rw [digitsFrom_ten hdigits] at h
      exact ⟨List.cons_ne_nil c cs, hdigits, Option.some.inj h⟩
    · rintro ⟨-, hdigits, rfl⟩
      exact digitsFrom_ten hdigits 0

/-! ## Decimal literals -/

/-- A literal has the value that its text has as a number. -/
theorem unsignedDecimal_text {l : Literal} (hne : l.whole ≠ [])
    (hwhole : ∀ c ∈ l.whole, c.isDigit = true) (hfrac : ∀ c ∈ l.frac, c.isDigit = true) :
    unsignedDecimal l.text = some l.value := by
  have hfollows : Json.Follows [] := by
    intro c r h
    cases h
  obtain ⟨hexp, hpoint⟩ := noDigit_exponentText (e := l.exponent) hfollows
  rw [List.append_nil] at hexp hpoint
  have hdrop : ∀ {ds r : List Char}, (∀ c ∈ ds, c.isDigit = true) → NoDigit r →
      (ds ++ r).dropWhile Char.isDigit = r := by
    intro ds r hds hr
    have hsplit := List.takeWhile_append_dropWhile (p := Char.isDigit) (l := ds ++ r)
    rw [takeWhile_digits hds hr] at hsplit
    exact List.append_cancel_left hsplit
  have hfraction : fraction (fractionText l.frac ++ exponentText l.exponent) =
      (l.frac, exponentText l.exponent) := by
    unfold fractionText
    split_ifs with h
    · rw [h, List.nil_append]
      cases htext : exponentText l.exponent with
      | nil => rfl
      | cons c r =>
        rw [fraction]
        rintro cs hcs
        rw [htext, hcs] at hpoint
        exact hpoint rfl
    · rw [List.cons_append, fraction, takeWhile_digits hfrac hexp, hdrop hfrac hexp]
  have hexponent : exponentPart (exponentText l.exponent) = some (l.exponent.getD 0) := by
    have hdigits : ∀ n, digits 10 (Nat.toDigits 10 n) = some n := fun n =>
      digits_ten_iff.mpr ⟨Nat.toDigits_ne_nil, fun c hc =>
        Nat.isDigit_of_mem_toDigits (by decide) (by decide) hc, Nat.ofDigitChars_ten_toDigits⟩
    match l.exponent with
    | none => rfl
    | some (.ofNat n) =>
      rw [exponentText, exponentPart, hdigits]
      rfl
    | some (.negSucc n) =>
      rw [exponentText, exponentPart, hdigits]
      rfl
  have hrest : NoDigit (fractionText l.frac ++ exponentText l.exponent) :=
    noDigit_fractionText hexp
  rw [unsignedDecimal, Literal.text, takeWhile_digits hwhole hrest, hdrop hwhole hrest,
    hfraction]
  dsimp only
  rw [if_neg fun h => hne h.1, hexponent, Option.map_some, Literal.value]

theorem unsignedDecimal_of_digits {cs : List Char} {n : ℕ} (h : digits 10 cs = some n) :
    unsignedDecimal cs = some (n : ℚ) := by
  obtain ⟨hne, hdigits, hvalue⟩ := digits_ten_iff.mp h
  have htext := unsignedDecimal_text (l := ⟨cs, [], none⟩) hne hdigits (by simp)
  have hcs : (Literal.mk cs [] none).text = cs := by simp [Literal.text, fractionText, exponentText]
  have hn : (Literal.mk cs [] none).value = n := by simp [Literal.value, hvalue]
  rwa [hcs, hn] at htext

theorem signedDecimal_of_digits {cs : List Char} {n : ℕ} (negative : Bool)
    (h : digits 10 cs = some n) :
    signedDecimal negative cs = .ofRat (if negative then -n else n) := by
  have hne : cs ≠ "Infinity".toList := by
    rintro rfl
    cases h
  rw [signedDecimal, if_neg hne, unsignedDecimal_of_digits h]

/-! ## Texts of whole numbers -/

/-- `Number(s)` is the double nearest to `BigInt(s)`. -/
theorem stringToNumber_of_bigInt {s : String} {n : ℤ} (h : stringToBigInt s = some n) :
    stringToNumber s = .ofRat n := by
  have hbase : ∀ {base : ℕ} {cs : List Char}, (digits base cs).map Int.ofNat = some n →
      numOfDigits (digits base cs) = .ofRat n := by
    intro base cs h
    obtain ⟨k, hk, rfl⟩ := Option.map_eq_some_iff.mp h
    rw [hk]
    rfl
  rw [stringToBigInt] at h
  rw [stringToNumber]
  split at h
  case h_1 heq =>
    rw [heq]
    obtain rfl := Option.some.inj h
    rfl
  case h_8 cs heq =>
    obtain ⟨k, hk, rfl⟩ := Option.map_eq_some_iff.mp h
    rw [heq]
    exact signedDecimal_of_digits false hk
  case h_9 cs heq =>
    rw [heq]
    show signedDecimal true cs = _
    cases hk : digits 10 cs with
    | none =>
      rw [hk] at h
      cases h
    | some k =>
      rw [hk] at h
      obtain rfl := Option.some.inj h
      rw [signedDecimal_of_digits true hk, if_pos rfl, Int.cast_neg, Int.cast_natCast]
  case h_10 cs _ _ _ _ _ _ _ _ _ =>
    obtain ⟨k, hk, rfl⟩ := Option.map_eq_some_iff.mp h
    split
    case h_10 => exact signedDecimal_of_digits false hk
    all_goals simp_all
  all_goals
    rename_i heq
    rw [heq]
    exact hbase h

/-! ## A minus sign in front -/

/-- The text behind a minus sign is trimmed at its end only. -/
theorem trimWhite_minus (cs : List Char) :
    trimWhite ('-' :: cs) = '-' :: (cs.reverse.dropWhile isWhite).reverse := by
  have hminus : isWhite '-' = false := by decide
  rw [trimWhite, List.dropWhile_cons_of_neg (by simp [hminus]), List.reverse_cons]
  have happend : (cs.reverse ++ ['-']).dropWhile isWhite =
      cs.reverse.dropWhile isWhite ++ ['-'] := by
    induction cs.reverse with
    | nil => exact List.dropWhile_cons_of_neg (by simp [hminus])
    | cons c r ih =>
      rw [List.cons_append]
      by_cases hc : isWhite c = true
      · rw [List.dropWhile_cons_of_pos hc, List.dropWhile_cons_of_pos hc, ih]
      · rw [List.dropWhile_cons_of_neg hc, List.dropWhile_cons_of_neg hc, List.cons_append]
  rw [happend, List.reverse_append]
  rfl

theorem stringToBigInt_minus {s : String} {t : List Char} (h : trimWhite s.toList = '-' :: t) :
    stringToBigInt s = (digits 10 t).map fun n : ℕ => -(n : ℤ) := by
  rw [stringToBigInt, h]
  cases hk : digits 10 t with
  | none => simp [hk]
  | some k => simp [hk]

/-- A minus sign that is read negates what stands behind it. -/
theorem stringToBigInt_negated {cs : List Char} {j k : ℤ}
    (hwhole : stringToBigInt (String.ofList ('-' :: cs)) = some j)
    (hrest : stringToBigInt (String.ofList cs) = some k) : j = -k := by
  have htoList : trimWhite (String.ofList ('-' :: cs)).toList =
      '-' :: (cs.reverse.dropWhile isWhite).reverse := by
    rw [String.toList_ofList, trimWhite_minus]
  rw [stringToBigInt_minus htoList] at hwhole
  obtain ⟨n, hn, rfl⟩ := Option.map_eq_some_iff.mp hwhole
  obtain ⟨hne, hdigits, hvalue⟩ := digits_ten_iff.mp hn
  have hpre : (cs.reverse.dropWhile isWhite).reverse <+: cs := by
    rw [← List.reverse_suffix, List.reverse_reverse]
    exact List.dropWhile_suffix _
  -- what stands behind it starts with a digit, so it is trimmed at its end only, too
  have htrim : trimWhite cs = (cs.reverse.dropWhile isWhite).reverse := by
    cases ht : (cs.reverse.dropWhile isWhite).reverse with
    | nil => exact absurd ht hne
    | cons c t =>
      rw [ht] at hpre hdigits
      obtain ⟨r, rfl⟩ := hpre
      have hc := isWhite_of_isDigit (hdigits c List.mem_cons_self)
      rw [trimWhite, List.cons_append, List.dropWhile_cons_of_neg (by simp [hc]),
        ← List.cons_append, ht]
  have hself := trimWhite_eq_self fun c hc => isWhite_of_isDigit (hdigits c hc)
  have hsame : stringToBigInt (String.ofList cs) =
      stringToBigInt (String.ofList (cs.reverse.dropWhile isWhite).reverse) := by
    rw [stringToBigInt, stringToBigInt, String.toList_ofList, String.toList_ofList, htrim, hself]
  rw [hsame, stringToBigInt_of_digits hne hdigits, hvalue] at hrest
  rw [← Option.some.inj hrest]

/-- What starts with neither a digit nor a point is no literal. -/
theorem unsignedDecimal_eq_none {c : Char} {cs : List Char} (hc : c.isDigit = false)
    (hpoint : c ≠ '.') : unsignedDecimal (c :: cs) = none := by
  have hfraction : fraction (c :: cs) = ([], c :: cs) := by
    rw [fraction]
    rintro ds hds
    exact hpoint (List.cons.inj hds).1
  rw [unsignedDecimal, List.takeWhile_cons_of_neg (by simp [hc]),
    List.dropWhile_cons_of_neg (by simp [hc]), hfraction]
  exact if_pos ⟨rfl, rfl⟩

/-- A zero and the letter of a base is no literal either. -/
theorem unsignedDecimal_of_base {c : Char} {cs : List Char}
    (hc : c ∈ ['x', 'X', 'o', 'O', 'b', 'B']) : unsignedDecimal ('0' :: c :: cs) = none := by
  have hclass : (['x', 'X', 'o', 'O', 'b', 'B'].all fun d =>
      d.isDigit == false && d != '.' && d != 'e' && d != 'E') = true := by decide
  obtain ⟨⟨⟨hdigit, hpoint⟩, hlow⟩, hup⟩ :
      ((c.isDigit = false ∧ c ≠ '.') ∧ c ≠ 'e') ∧ c ≠ 'E' := by
    simpa only [Bool.and_eq_true, beq_iff_eq, bne_iff_ne] using List.all_eq_true.mp hclass c hc
  have hfraction : fraction (c :: cs) = ([], c :: cs) := by
    rw [fraction]
    rintro ds hds
    exact hpoint (List.cons.inj hds).1
  have hexponent : exponentPart (c :: cs) = none := by
    unfold exponentPart
    split <;> simp_all
  have hzero : '0'.isDigit = true := by decide
  rw [unsignedDecimal, List.takeWhile_cons_of_pos hzero, List.dropWhile_cons_of_pos hzero,
    List.takeWhile_cons_of_neg (by simp [hdigit]), List.dropWhile_cons_of_neg (by simp [hdigit]),
    hfraction]
  dsimp only
  rw [if_neg fun h => absurd h.1 (by decide), hexponent]
  rfl

theorem signedDecimal_eq_nan {c : Char} {cs : List Char} (negative : Bool) (hc : c ≠ 'I')
    (h : unsignedDecimal (c :: cs) = none) : signedDecimal negative (c :: cs) = .nan := by
  have hne : c :: cs ≠ "Infinity".toList := by
    intro heq
    exact hc (List.cons.inj heq).1
  rw [signedDecimal, if_neg hne, h]

/-- A minus sign in front of a text that is read, where the whole is not. -/
def LooseMinus (s : String) : Prop :=
  ∃ cs n, s = String.ofList ('-' :: cs) ∧ stringToBigInt (String.ofList cs) = some n ∧
    stringToBigInt s = none

/-- `Number(..)` makes nothing of it: a sign, a base or a blank follows the minus. -/
theorem stringToNumber_of_looseMinus {s : String} (h : LooseMinus s) :
    stringToNumber s = .nan := by
  obtain ⟨cs, n, rfl, hread, hnone⟩ := h
  have htoList : trimWhite (String.ofList ('-' :: cs)).toList =
      '-' :: (cs.reverse.dropWhile isWhite).reverse := by
    rw [String.toList_ofList, trimWhite_minus]
  rw [stringToBigInt_minus htoList] at hnone
  rw [stringToNumber, htoList]
  show signedDecimal true (cs.reverse.dropWhile isWhite).reverse = .nan
  have hdigits : digits 10 (cs.reverse.dropWhile isWhite).reverse = none :=
    Option.map_eq_none_iff.mp hnone
  have hpre : (cs.reverse.dropWhile isWhite).reverse <+: cs := by
    rw [← List.reverse_suffix, List.reverse_reverse]
    exact List.dropWhile_suffix _
  cases ht : (cs.reverse.dropWhile isWhite).reverse with
  | nil => decide +kernel
  | cons c t =>
    rw [ht] at hdigits hpre
    obtain ⟨r, rfl⟩ := hpre
    rw [List.cons_append] at hread ht
    by_cases hc : isWhite c = true
    · have hclass : c.isDigit = false ∧ c ≠ '.' ∧ c ≠ 'I' := by
        refine ⟨?_, ?_, ?_⟩
        · rw [← Bool.not_eq_true]
          intro hdigit
          rw [isWhite_of_isDigit hdigit] at hc
          cases hc
        · rintro rfl
          exact absurd hc (by decide)
        · rintro rfl
          exact absurd hc (by decide)
      exact signedDecimal_eq_nan true hclass.2.2 (unsignedDecimal_eq_none hclass.1 hclass.2.1)
    · have htrim : trimWhite (c :: (t ++ r)) = c :: t := by
        rw [trimWhite, List.dropWhile_cons_of_neg hc, ht]
      rw [stringToBigInt, String.toList_ofList, htrim] at hread
      split at hread
      case h_1 heq => cases heq
      case h_8 heq =>
        rw [heq]
        exact signedDecimal_eq_nan true (by decide)
          (unsignedDecimal_eq_none (by decide) (by decide))
      case h_9 heq =>
        rw [heq]
        exact signedDecimal_eq_nan true (by decide)
          (unsignedDecimal_eq_none (by decide) (by decide))
      case h_10 =>
        rw [hdigits] at hread
        cases hread
      all_goals
        rename_i heq
        rw [heq]
        exact signedDecimal_eq_nan true (by decide) (unsignedDecimal_of_base (by decide))

/-! ## The text of a number -/

/-- The characters of a literal. -/
theorem mem_text {l : Literal} (hl : l.WellFormed) {c : Char} (hc : c ∈ l.text) :
    c.isDigit = true ∨ c ∈ ['.', 'e', '+', '-'] := by
  have hnat : ∀ n, c ∈ Nat.toDigits 10 n → c.isDigit = true := fun n h =>
    Nat.isDigit_of_mem_toDigits (by decide) (by decide) h
  rw [Literal.text, List.mem_append, List.mem_append] at hc
  rcases hc with hc | hc | hc
  · exact .inl (hl.wholeDigits c hc)
  · unfold fractionText at hc
    split_ifs at hc
    · cases hc
    · rcases List.mem_cons.mp hc with rfl | hc
      · exact .inr (by decide)
      · exact .inl (hl.fracDigits c hc)
  · cases he : l.exponent with
    | none =>
      rw [he] at hc
      cases hc
    | some e =>
      rw [he] at hc
      cases e with
      | ofNat n =>
        rw [exponentText, List.mem_cons, List.mem_cons] at hc
        rcases hc with rfl | rfl | hc
        · exact .inr (by decide)
        · exact .inr (by decide)
        · exact .inl (hnat _ hc)
      | negSucc n =>
        rw [exponentText, List.mem_cons, List.mem_cons] at hc
        rcases hc with rfl | rfl | hc
        · exact .inr (by decide)
        · exact .inr (by decide)
        · exact .inl (hnat _ hc)

theorem isWhite_of_mem_text {l : Literal} (hl : l.WellFormed) {c : Char} (hc : c ∈ l.text) :
    isWhite c = false := by
  rcases mem_text hl hc with h | h
  · exact isWhite_of_isDigit h
  · have hclass : (['.', 'e', '+', '-'].all fun c => isWhite c == false) = true := by decide
    exact beq_iff_eq.mp (List.all_eq_true.mp hclass c h)

theorem signedDecimal_text {l : Literal} (hl : l.WellFormed) (negative : Bool) :
    signedDecimal negative l.text = .ofRat (if negative then -l.value else l.value) := by
  obtain ⟨c, t, htext, hc⟩ := exists_digit_text hl
  have hwhole : l.whole ≠ [] := by
    rcases hl.whole with h | h
    · rw [h]
      exact List.cons_ne_nil _ _
    · exact h.1
  have hne : l.text ≠ "Infinity".toList := by
    rw [htext]
    intro h
    rw [(List.cons.inj h).1] at hc
    exact absurd hc (by decide)
  rw [signedDecimal, if_neg hne, unsignedDecimal_text hwhole hl.wholeDigits hl.fracDigits]

/-- The text of a number is read as that number. -/
theorem stringToNumber_text (x : Numeric) : stringToNumber (String.ofList x.text) = x := by
  rcases x with _ | s | x
  · decide +kernel
  · cases s <;> decide +kernel
  rw [Numeric.text]
  split_ifs with hneg
  · have hbound : |-x.val| < 2 ^ 1024 := by
      rw [abs_neg]
      exact x.bounded
    obtain ⟨hl, hround⟩ := @literalOf_spec
      ⟨-x.val, by rw [Binary64.round_neg, x.rounded], hbound⟩ (by linarith)
    dsimp only at hl hround
    have htrim : trimWhite ('-' :: (literalOf (-x.val)).text) = '-' :: (literalOf (-x.val)).text :=
      trimWhite_eq_self (List.forall_mem_cons.mpr
        ⟨by decide, fun c hc => isWhite_of_mem_text hl hc⟩)
    rw [stringToNumber, String.toList_ofList, htrim]
    show signedDecimal true (literalOf (-x.val)).text = _
    rw [signedDecimal_text hl, if_pos rfl]
    apply ofRat_eq_finite
    rw [Binary64.round_neg, hround, neg_neg]
  · obtain ⟨hl, hround⟩ := literalOf_spec (not_lt.mp hneg)
    obtain ⟨c, t, htext, hc⟩ := exists_digit_text hl
    have htrim := trimWhite_eq_self fun c hc => isWhite_of_mem_text hl hc
    have hsigned := signedDecimal_text hl false
    rw [stringToNumber, String.toList_ofList, htrim]
    have hmem : ∀ d ∈ (literalOf x.val).text, d ∉ ['x', 'X', 'o', 'O', 'b', 'B'] := by
      intro d hd hbad
      have hclass : (['x', 'X', 'o', 'O', 'b', 'B'].all fun d =>
          !(d.isDigit || d ∈ ['.', 'e', '+', '-'])) = true := by decide
      have hfalse := List.all_eq_true.mp hclass d hbad
      rcases mem_text hl hd with h | h <;> simp [h] at hfalse
    split
    case h_1 heq =>
      rw [heq] at htext
      cases htext
    case h_8 heq =>
      rw [heq] at htext
      rw [← (List.cons.inj htext).1] at hc
      exact absurd hc (by decide)
    case h_9 heq =>
      rw [heq] at htext
      rw [← (List.cons.inj htext).1] at hc
      exact absurd hc (by decide)
    case h_10 =>
      rw [hsigned, if_neg (by decide)]
      exact ofRat_eq_finite hround
    -- the letter of a base is not in the text
    all_goals
      rename_i heq
      rw [heq] at hmem
      exact absurd (hmem _ (List.mem_cons_of_mem _ List.mem_cons_self)) (by decide)

theorem not_looseMinus_text (x : Numeric) : ¬ LooseMinus (String.ofList x.text) := by
  intro h
  have hnan := stringToNumber_of_looseMinus h
  rw [stringToNumber_text] at hnan
  obtain ⟨cs, n, hs, -, -⟩ := h
  rw [hnan, String.ofList_inj] at hs
  cases hs

end Js
