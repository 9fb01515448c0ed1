import Mathlib.Data.List.Forall2
import Mathlib.Data.List.TakeWhile
import Gatekeeper.Lib.JsValue

/-!
# What a number becomes as text

The text of a whole number, read back by `BigInt`, is the number, a shortest decimal close to
it, or refused. So `BigInt(v)` and `BigInt(String(v))` agree up to the rounding of doubles.
-/

namespace Js

/-! ## Steps that may throw -/

/-- A sequence returns when each of its steps does. -/
theorem bind_eq_ok {α β : Type} {x : Except Error α} {f : α → Except Error β} {b : β} :
    x >>= f = .ok b ↔ ∃ a, x = .ok a ∧ f a = .ok b := by
  constructor
  · intro h
    cases x with
    | error e => cases h
    | ok a => exact ⟨a, rfl, h⟩
  · rintro ⟨a, rfl, h⟩
    exact h

theorem map_eq_ok {α β : Type} {x : Except Error α} {f : α → β} {b : β} :
    x.map f = .ok b ↔ ∃ a, x = .ok a ∧ f a = b := by
  constructor
  · intro h
    cases x with
    | error e => cases h
    | ok a => exact ⟨a, rfl, Except.ok.inj h⟩
  · rintro ⟨a, rfl, rfl⟩
    rfl

/-- A map over a list returns when the function does on each item. -/
theorem mapM_eq_ok {α β : Type} {f : α → Except Error β} {xs : List α} {ys : List β} :
    xs.mapM f = .ok ys ↔ List.Forall₂ (fun x y => f x = .ok y) xs ys := by
  induction xs generalizing ys with
  | nil =>
    rw [List.mapM_nil, List.forall₂_nil_left_iff]
    exact ⟨fun h => (Except.ok.inj h).symm, fun h => congrArg Except.ok h.symm⟩
  | cons x xs ih =>
    rw [List.mapM_cons, bind_eq_ok, List.forall₂_cons_left_iff]
    constructor
    · rintro ⟨y, hy, h⟩
      obtain ⟨ys', hys, h⟩ := bind_eq_ok.mp h
      exact ⟨y, ys', hy, ih.mp hys, (Except.ok.inj h).symm⟩
    · rintro ⟨y, ys', hy, hys, rfl⟩
      exact ⟨y, hy, bind_eq_ok.mpr ⟨ys', ih.mpr hys, rfl⟩⟩

theorem exists_of_mapM {α β : Type} {f : α → Except Error β} {xs : List α} {ys : List β}
    (h : xs.mapM f = .ok ys) {x : α} (hx : x ∈ xs) : ∃ y ∈ ys, f x = .ok y := by
  induction mapM_eq_ok.mp h with
  | nil => cases hx
  | cons hy hys ih =>
    rcases List.mem_cons.mp hx with rfl | hx
    · exact ⟨_, List.mem_cons_self, hy⟩
    · obtain ⟨y, hmem, hfx⟩ := ih (mapM_eq_ok.mpr hys) hx
      exact ⟨y, List.mem_cons_of_mem _ hmem, hfx⟩

theorem exists_of_mem_mapM {α β : Type} {f : α → Except Error β} {xs : List α} {ys : List β}
    (h : xs.mapM f = .ok ys) {y : β} (hy : y ∈ ys) : ∃ x ∈ xs, f x = .ok y := by
  induction mapM_eq_ok.mp h with
  | nil => cases hy
  | cons hfx hys ih =>
    rcases List.mem_cons.mp hy with rfl | hy
    · exact ⟨_, List.mem_cons_self, hfx⟩
    · obtain ⟨x, hmem, hfx⟩ := ih (mapM_eq_ok.mpr hys) hy
      exact ⟨x, List.mem_cons_of_mem _ hmem, hfx⟩

/-! ## Members that JSON keeps -/

theorem lookup_jsonMembers {ms : List (String × Value)} (h : (ms.map Prod.fst).Nodup)
    (name : String) :
    ((jsonMembers ms).lookup name).getD .undefined = ((ms.lookup name).getD .undefined).toJson := by
  induction ms with
  | nil => rfl
  | cons m ms ih =>
    obtain ⟨k, x⟩ := m
    rw [List.map_cons, List.nodup_cons] at h
    have hrest := ih h.2
    by_cases hk : name = k
    -- a member that is left out is not found further on either
    · subst hk
      have hnone : ms.lookup name = none := by
        rw [List.lookup_eq_none_iff]
        intro p hp
        rw [bne_iff_ne]
        intro heq
        exact h.1 (List.mem_map.mpr ⟨p, hp, heq.symm⟩)
      rw [hnone] at hrest
      cases x with
      | undefined => simpa [jsonMembers] using hrest
      | _ => simp [jsonMembers]
    · have hk' : (name == k) = false := beq_eq_false_iff_ne.mpr hk
      rw [List.lookup_cons, hk', ← hrest]
      cases x with
      | undefined => rfl
      | _ => simp [jsonMembers, List.lookup_cons, hk']

/-- Reading a member of what is written is writing the member that is read. -/
theorem get?_toJson {ms : List (String × Value)} (h : (ms.map Prod.fst).Nodup) (name : String) :
    (Value.object ms).toJson.get? name = ((Value.object ms).get? name).toJson :=
  lookup_jsonMembers h name

/-! ## Close numbers -/

/-- The numbers differ by a small part of themselves, as a double and its text can. -/
def Near (a b : ℕ) : Prop := 63 * a ≤ 65 * b ∧ 63 * b ≤ 65 * a

theorem Near.refl (a : ℕ) : Near a a := ⟨by omega, by omega⟩

theorem near_shortest {n : ℕ} (h : Double.IsDouble n) : Near (Double.shortest n) n := by
  obtain ⟨h₁, h₂⟩ := Double.shortest_near h.1
  constructor <;> omega

theorem near_printed (n : ℕ) : Near (printed n) n := by
  obtain ⟨h₁, h₂⟩ := Double.round_near n
  obtain ⟨h₃, h₄⟩ := Double.shortest_near (Double.round_round n)
  rw [printed]
  constructor <;> omega

/-- Below `2 ^ 53` a number is printed digit for digit. -/
theorem printed_of_lt {n : ℕ} (h : n < 2 ^ 53) : printed n = n := by
  rw [printed, Double.round_of_lt h, Double.shortest_of_lt h]

/-! ## Reading digits -/

theorem digitValue_of_isDigit {c : Char} (h : c.isDigit = true) :
    digitValue c = some (c.toNat - '0'.toNat) ∧ c.toNat - '0'.toNat < 10 := by
  have hrange : '0' ≤ c ∧ c ≤ '9' := by
    simpa [Char.isDigit, Char.le_def] using h
  refine ⟨if_pos hrange, ?_⟩
  have hle : c.toNat ≤ '9'.toNat := hrange.2
  have hnine : '9'.toNat = 57 := rfl
  have hzero : '0'.toNat = 48 := rfl
  omega

theorem isWhite_of_isDigit {c : Char} (h : c.isDigit = true) : isWhite c = false := by
  have hrange : '0' ≤ c ∧ c ≤ '9' := by
    simpa [Char.isDigit, Char.le_def] using h
  have hle : c.toNat ≤ 57 := hrange.2
  have hge : 48 ≤ c.toNat := hrange.1
  simp only [isWhite, Bool.or_eq_false_iff, Bool.and_eq_false_iff, decide_eq_false_iff_not,
    beq_eq_false_iff_ne]
  omega

theorem trimWhite_eq_self {cs : List Char} (h : ∀ c ∈ cs, isWhite c = false) :
    trimWhite cs = cs := by
  have hdrop : ∀ l : List Char, (∀ c ∈ l, isWhite c = false) → l.dropWhile isWhite = l := by
    intro l hl
    cases l with
    | nil => rfl
    | cons c l => exact List.dropWhile_cons_of_neg (by simp [hl c List.mem_cons_self])
  rw [trimWhite, hdrop cs h, hdrop cs.reverse fun c hc => h c (List.mem_reverse.mp hc),
    List.reverse_reverse]

theorem digitsFrom_ten {cs : List Char} (h : ∀ c ∈ cs, c.isDigit = true) (n : ℕ) :
    digitsFrom 10 n cs = some (Nat.ofDigitChars 10 cs n) := by
  induction cs generalizing n with
  | nil => rfl
  | cons c cs ih =>
    obtain ⟨hvalue, hlt⟩ := digitValue_of_isDigit (h c List.mem_cons_self)
    rw [digitsFrom, hvalue, Nat.ofDigitChars_cons, Nat.mul_comm 10 n]
    exact (if_pos hlt).trans (ih (fun c hc => h c (List.mem_cons_of_mem _ hc)) _)

theorem digitsFrom_eq_none {base : ℕ} {cs : List Char} {c : Char} (hc : c ∈ cs)
    (hv : digitValue c = none) (n : ℕ) : digitsFrom base n cs = none := by
  induction cs generalizing n with
  | nil => cases hc
  | cons d cs ih =>
    rw [digitsFrom]
    rcases List.mem_cons.mp hc with rfl | hc
    · rw [hv]
    · cases digitValue d with
      | none => rfl
      | some k =>
        -- whether or not the digit fits the base, the rest cannot be read
        by_cases hk : k < base
        · simp [hk, ih hc]
        · simp [hk]

theorem digits_eq_none {base : ℕ} {cs : List Char} {c : Char} (hc : c ∈ cs)
    (hv : digitValue c = none) : digits base cs = none := by
  cases cs with
  | nil => rfl
  | cons d cs => exact digitsFrom_eq_none hc hv 0

/-- A text of decimal digits is the number they spell. -/
theorem stringToBigInt_of_digits {cs : List Char} (hne : cs ≠ [])
    (h : ∀ c ∈ cs, c.isDigit = true) :
    stringToBigInt (String.ofList cs) = some (Nat.ofDigitChars 10 cs 0 : ℤ) := by
  have htrim := trimWhite_eq_self fun c hc => isWhite_of_isDigit (h c hc)
  have hdigits : digits 10 cs = some (Nat.ofDigitChars 10 cs 0) := by
    cases cs with
    | nil => exact absurd rfl hne
    | cons c cs => exact digitsFrom_ten h 0
  -- only the last case of `stringToBigInt` is left for a text of digits
  rw [stringToBigInt, String.toList_ofList, htrim]
  split
  case h_10 =>
    rw [hdigits]
    rfl
  -- a sign or the letter of a base is no digit
  all_goals simp_all [Char.isDigit]

theorem stringToBigInt_toString (n : ℕ) : stringToBigInt (toString n) = some (n : ℤ) := by
  have hdigits : ∀ c ∈ Nat.toDigits 10 n, c.isDigit = true := fun c hc =>
    Nat.isDigit_of_mem_toDigits (by decide) (by decide) hc
  have h := stringToBigInt_of_digits Nat.toDigits_ne_nil hdigits
  rw [Nat.ofDigitChars_ten_toDigits] at h
  exact h

/-- A text with a `+` inside is no whole number. -/
theorem stringToBigInt_eq_none {c : Char} {cs : List Char}
    (hwhite : ∀ d ∈ c :: cs, isWhite d = false) (hc : c.isDigit = true ∨ c = 'e')
    (hplus : '+' ∈ cs) : stringToBigInt (String.ofList (c :: cs)) = none := by
  have hnone : digitValue '+' = none := by decide
  rw [stringToBigInt, String.toList_ofList, trimWhite_eq_self hwhite]
  split
  -- the empty text, the two signs, the decimal case, and last the prefixes of a base
  case h_1 heq => cases heq
  case h_8 heq =>
    cases heq
    simp [Char.isDigit] at hc
  case h_9 heq =>
    cases heq
    simp [Char.isDigit] at hc
  case h_10 =>
    rw [digits_eq_none (List.mem_cons_of_mem _ hplus) hnone]
    rfl
  all_goals
    rename_i heq
    cases heq
    rw [digits_eq_none (show '+' ∈ _ by simpa using hplus) hnone]
    rfl

theorem mantissa_cases (ds : List Char) :
    mantissa ds = ds ∨ ∃ d rest, ds = d :: rest ∧ mantissa ds = d :: '.' :: rest := by
  match ds with
  | [] => exact .inl rfl
  | [d] => exact .inl rfl
  | d :: e :: rest => exact .inr ⟨d, e :: rest, rfl, rfl⟩

theorem toList_scientific (ds : List Char) :
    (scientific ds).toList = mantissa (ds.reverse.dropWhile (· == '0')).reverse ++
      'e' :: '+' :: Nat.toDigits 10 (ds.length - 1) := by
  simp [scientific, toString]

/-- Zeros alone spell zero. -/
theorem ofDigitChars_eq_zero {ds : List Char} (h : ∀ c ∈ ds, c = '0') :
    Nat.ofDigitChars 10 ds 0 = 0 := by
  induction ds with
  | nil => rfl
  | cons c ds ih =>
    obtain rfl := h c List.mem_cons_self
    rw [Nat.ofDigitChars_cons]
    exact ih fun c hc => h c (List.mem_cons_of_mem _ hc)

/-- Digits without the zeros at their end are digits. -/
theorem isDigit_of_stripped {ds sig : List Char} (h : ∀ c ∈ ds, c.isDigit = true)
    (hsig : sig = (ds.reverse.dropWhile (· == '0')).reverse) : ∀ c ∈ sig, c.isDigit = true := by
  intro c hc
  rw [hsig, List.mem_reverse] at hc
  exact h c (List.mem_reverse.mp ((List.dropWhile_sublist _).subset hc))

/-- Scientific notation has one digit before its point or its exponent. -/
theorem scientific_cases {ds : List Char} (h : ∀ c ∈ ds, c.isDigit = true)
    (hne : Nat.ofDigitChars 10 ds 0 ≠ 0) :
    ∃ d c rest, (scientific ds).toList = d :: c :: rest ∧ d.isDigit = true ∧
      c.isDigit = false := by
  obtain ⟨sig, hsig⟩ : ∃ sig, sig = (ds.reverse.dropWhile (· == '0')).reverse := ⟨_, rfl⟩
  have hdigit := isDigit_of_stripped h hsig
  have hsome : sig ≠ [] := by
    intro hnil
    rw [hsig, List.reverse_eq_nil_iff, List.dropWhile_eq_nil_iff] at hnil
    refine hne (ofDigitChars_eq_zero fun c hc => ?_)
    exact beq_iff_eq.mp (hnil c (List.mem_reverse.mpr hc))
  rw [toList_scientific, ← hsig]
  cases sig with
  | nil => exact absurd rfl hsome
  | cons d sig =>
    have hd := hdigit d List.mem_cons_self
    cases sig with
    | nil => exact ⟨d, 'e', _, rfl, hd, rfl⟩
    | cons e rest => exact ⟨d, '.', _, rfl, hd, rfl⟩

theorem stringToBigInt_scientific {ds : List Char} (h : ∀ c ∈ ds, c.isDigit = true) :
    stringToBigInt (scientific ds) = none := by
  -- the significant digits, without the zeros at the end
  obtain ⟨sig, hsig⟩ : ∃ sig, sig = (ds.reverse.dropWhile (· == '0')).reverse := ⟨_, rfl⟩
  have hdigit := isDigit_of_stripped h hsig
  have hwhite : ∀ c ∈ mantissa sig ++ 'e' :: '+' :: Nat.toDigits 10 (ds.length - 1),
      isWhite c = false := by
    intro c hc
    -- every character is a digit, the point, the `e` or the sign
    have hcases : c.isDigit = true ∨ isWhite c = false := by
      rcases List.mem_append.mp hc with hc | hc
      · rcases mantissa_cases sig with hm | ⟨d, rest, hd, hm⟩
        · exact .inl (hdigit c (hm ▸ hc))
        · rw [hm, List.mem_cons, List.mem_cons] at hc
          rcases hc with rfl | rfl | hc
          · exact .inl (hdigit _ (hd ▸ List.mem_cons_self))
          · exact .inr (by decide)
          · exact .inl (hdigit _ (hd ▸ List.mem_cons_of_mem _ hc))
      · rw [List.mem_cons, List.mem_cons] at hc
        rcases hc with rfl | rfl | hc
        · exact .inr (by decide)
        · exact .inr (by decide)
        · exact .inl (Nat.isDigit_of_mem_toDigits (by decide) (by decide) hc)
    rcases hcases with hc | hc
    · exact isWhite_of_isDigit hc
    · exact hc
  rw [← @String.ofList_toList (scientific ds), toList_scientific, ← hsig]
  rcases mantissa_cases sig with hm | ⟨d, rest, rfl, hm⟩
  · rw [hm] at hwhite ⊢
    cases sig with
    | nil => exact stringToBigInt_eq_none hwhite (.inr rfl) List.mem_cons_self
    | cons d rest =>
      exact stringToBigInt_eq_none hwhite (.inl (hdigit d List.mem_cons_self)) (by simp)
  · rw [hm] at hwhite ⊢
    exact stringToBigInt_eq_none hwhite (.inl (hdigit d List.mem_cons_self)) (by simp)

/-- What the text of a whole number is read back as, when it is read at all. -/
theorem stringToBigInt_wholeText {n : ℕ} {x : ℤ} (h : stringToBigInt (wholeText n) = some x) :
    x = (Double.shortest n : ℤ) := by
  rw [wholeText] at h
  split_ifs at h with hn
  · rw [stringToBigInt_toString] at h
    exact (Option.some.inj h).symm
  · rw [stringToBigInt_scientific] at h
    · cases h
    · exact fun c hc => Nat.isDigit_of_mem_toDigits (by decide) (by decide) hc

/-- `BigInt(v)` and `BigInt(String(v))`, for a value both of which are read. -/
theorem toBigInt_text {v : Value} {w x : ℤ} {s : String} (hw : v.toBigInt = .ok w) (hpos : 0 ≤ w)
    (hs : v.text = .ok s) (hx : stringToBigInt s = some x) :
    x = w ∨ (Double.IsDouble w.toNat ∧ x = (Double.shortest w.toNat : ℤ)) := by
  have of_text : (v.text >>= bigIntOfText) = .ok w → x = w := by
    intro h
    rw [hs] at h
    change bigIntOfText s = .ok w at h
    rw [bigIntOfText, hx] at h
    exact Except.ok.inj h
  -- only a number is printed first; `BigInt` reads any other value through its text
  cases v with
  | undefined => cases hw
  | null => cases hw
  | bool b =>
    have htrue : stringToBigInt "true" = none := by decide
    have hfalse : stringToBigInt "false" = none := by decide
    cases b <;> cases hs
    · rw [hfalse] at hx
      cases hx
    · rw [htrue] at hx
      cases hx
  | string t =>
    cases hs
    exact .inl (of_text hw)
  | array xs => exact .inl (of_text hw)
  | object ms => exact .inl (of_text hw)
  | number y =>
    cases y with
    | other t => cases hw
    | whole n =>
      cases hw
      have habs : n.val.natAbs = n.val.toNat := by omega
      cases hs
      rw [Number.text, if_neg (by omega)] at hx
      have hdouble := n.isDouble
      rw [habs] at hdouble hx
      exact .inr ⟨hdouble, stringToBigInt_wholeText hx⟩

/-- The two readings of a value are close. -/
theorem near_toBigInt_text {v : Value} {w x : ℕ} {s : String} (hw : v.toBigInt = .ok (w : ℤ))
    (hs : v.text = .ok s) (hx : stringToBigInt s = some (x : ℤ)) : Near x w := by
  rcases toBigInt_text hw (by omega) hs hx with h | ⟨hdouble, h⟩
  · obtain rfl : x = w := by omega
    exact Near.refl x
  · rw [Int.toNat_natCast] at hdouble h
    obtain rfl : x = Double.shortest w := by omega
    exact near_shortest hdouble

/-- A text, and any value below `2 ^ 53`, is read the same both ways. -/
theorem toBigInt_text_eq {v : Value} {w x : ℕ} {s : String} (hw : v.toBigInt = .ok (w : ℤ))
    (hs : v.text = .ok s) (hx : stringToBigInt s = some (x : ℤ))
    (h : w < 2 ^ 53 ∨ ∃ t, v = .string t) : x = w := by
  rcases h with h | ⟨t, rfl⟩
  · rcases toBigInt_text hw (by omega) hs hx with h' | ⟨_, h'⟩
    · omega
    · rw [Int.toNat_natCast, Double.shortest_of_lt h] at h'
      omega
  · cases hs
    change bigIntOfText s = .ok (w : ℤ) at hw
    rw [bigIntOfText, hx] at hw
    exact_mod_cast Except.ok.inj hw

end Js
