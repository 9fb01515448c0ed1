import Gatekeeper.Lib.Encoding

/-!
# JSON values and their text

The values, the compact text of a value, and a reader of such text that skips white space
and knows every escape but surrogate pairs. Numbers with a fraction or an exponent are not
covered: the text of a double is `null` and the reader refuses them. Reading the text of a
plain value gives the value back (`parse_print`).
-/

namespace Json

open Encoding

/-- A JSON number the way a Rust value holds it: an unsigned or a negative 64-bit integer,
or a double. -/
inductive Number where
  | posInt (n : UInt64)
  | negInt (n : Int64)
  | float (x : Float)
deriving DecidableEq

/-- A JSON value. The members of an object stand in the order of their keys. -/
inductive Value where
  | null
  | bool (b : Bool)
  | number (n : Number)
  | string (s : String)
  | array (l : List Value)
  | object (ms : List (String × Value))

/-! ## Plain values -/

/-- An integer in the form that holds its sign. -/
def Number.IsInteger : Number → Prop
  | .posInt _ => True
  | .negInt n => n.toInt < 0
  | .float _ => False

mutual

/-- Every number in the value is an integer, and the keys of every object are in strict
order. -/
def Value.Plain : Value → Prop
  | .number n => n.IsInteger
  | .array l => allPlain l
  | .object ms => (ms.map Prod.fst).Pairwise (· < ·) ∧ allPlainMembers ms
  | _ => True

def allPlain : List Value → Prop
  | [] => True
  | v :: l => v.Plain ∧ allPlain l

def allPlainMembers : List (String × Value) → Prop
  | [] => True
  | (_, v) :: ms => v.Plain ∧ allPlainMembers ms

end

mutual

/-- How deep arrays and objects are nested. -/
def Value.depth : Value → ℕ
  | .array l => depthList l + 1
  | .object ms => depthMembers ms + 1
  | _ => 0

def depthList : List Value → ℕ
  | [] => 0
  | v :: l => max v.depth (depthList l)

def depthMembers : List (String × Value) → ℕ
  | [] => 0
  | (_, v) :: ms => max v.depth (depthMembers ms)

end

/-! ## Writing -/

/-- A character inside a quoted text. -/
def escapeChar (c : Char) : List Char :=
  if c = '"' then ['\\', '"']
  else if c = '\\' then ['\\', '\\']
  else if c = '\x08' then ['\\', 'b']
  else if c = '\x0c' then ['\\', 'f']
  else if c = '\n' then ['\\', 'n']
  else if c = '\r' then ['\\', 'r']
  else if c = '\t' then ['\\', 't']
  else if c.toNat < 32 then
    ['\\', 'u', '0', '0', hexDigit (c.toNat / 16), hexDigit (c.toNat % 16)]
  else [c]

def writeString (s : String) : List Char := '"' :: (s.toList.flatMap escapeChar ++ ['"'])

def writeNumber : Number → List Char
  | .posInt n => Nat.toDigits 10 n.toNat
  | .negInt n => '-' :: Nat.toDigits 10 n.toInt.natAbs
  | .float _ => ['n', 'u', 'l', 'l']

mutual

def writeValue : Value → List Char
  | .null => ['n', 'u', 'l', 'l']
  | .bool true => ['t', 'r', 'u', 'e']
  | .bool false => ['f', 'a', 'l', 's', 'e']
  | .number n => writeNumber n
  | .string s => writeString s
  | .array [] => ['[', ']']
  | .array (v :: l) => '[' :: (writeValue v ++ writeElements l)
  | .object [] => ['\x7b', '\x7d']
  | .object ((k, v) :: ms) =>
    '\x7b' :: (writeString k ++ ':' :: (writeValue v ++ writeMembers ms))

/-- The elements after the first, each behind a comma, and the closing bracket. -/
def writeElements : List Value → List Char
  | [] => [']']
  | v :: l => ',' :: (writeValue v ++ writeElements l)

def writeMembers : List (String × Value) → List Char
  | [] => ['\x7d']
  | (k, v) :: ms => ',' :: (writeString k ++ ':' :: (writeValue v ++ writeMembers ms))

end

/-- The compact text of a value. -/
def print (v : Value) : String := String.ofList (writeValue v)

/-! ## Reading -/

def isSpace (c : Char) : Bool := c = ' ' || c = '\n' || c = '\r' || c = '\t'

def skipSpace (cs : List Char) : List Char := cs.dropWhile isSpace

def hexDigitValue (c : Char) : Option ℕ :=
  if '0' ≤ c ∧ c ≤ '9' then some (c.toNat - 48)
  else if 'a' ≤ c ∧ c ≤ 'f' then some (c.toNat - 87)
  else if 'A' ≤ c ∧ c ≤ 'F' then some (c.toNat - 55)
  else none

/-- The code point of a `\u` escape. -/
def hexEscape (a b c d : Char) : Option Char := do
  let a ← hexDigitValue a
  let b ← hexDigitValue b
  let c ← hexDigitValue c
  let d ← hexDigitValue d
  let n := ((a * 16 + b) * 16 + c) * 16 + d
  if n.isValidChar then some (Char.ofNat n) else none

/-- The character of a one-letter escape. -/
def simpleEscape (c : Char) : Option Char :=
  ([('"', '"'), ('\\', '\\'), ('/', '/'), ('b', '\x08'), ('f', '\x0c'), ('n', '\n'), ('r', '\r'),
    ('t', '\t')] : List (Char × Char)).lookup c

/-- The characters up to the closing quote, and what follows it. -/
def readChars : List Char → Option (List Char × List Char)
  | [] => none
  | '"' :: r => some ([], r)
  | '\\' :: 'u' :: a :: b :: c :: d :: r => do
    let e ← hexEscape a b c d
    let (s, r) ← readChars r
    return (e :: s, r)
  | '\\' :: c :: r => do
    let e ← simpleEscape c
    let (s, r) ← readChars r
    return (e :: s, r)
  | c :: r =>
    if c.toNat < 32 then none
    else do
      let (s, r) ← readChars r
      return (c :: s, r)

/-- The digits at the front as a number. -/
def readDigits (cs : List Char) : Option (ℕ × List Char) :=
  let ds := cs.takeWhile Char.isDigit
  if ds = [] then none else some (Nat.ofDigitChars 10 ds 0, cs.dropWhile Char.isDigit)

/-- What may not follow an integer. -/
def startsFraction : List Char → Bool
  | c :: _ => c = '.' || c = 'e' || c = 'E'
  | [] => false

def readNumber : List Char → Option (Number × List Char)
  | '-' :: cs => do
    let (n, r) ← readDigits cs
    if startsFraction r ∨ n = 0 ∨ 2 ^ 63 < n then none
    else some (.negInt (Int64.ofInt (-n)), r)
  | cs => do
    let (n, r) ← readDigits cs
    if startsFraction r ∨ 2 ^ 64 ≤ n then none else some (.posInt (UInt64.ofNat n), r)

mutual

def readValue : ℕ → List Char → Option (Value × List Char)
  | 0, _ => none
  | fuel + 1, cs =>
    match skipSpace cs with
    | 'n' :: 'u' :: 'l' :: 'l' :: r => some (.null, r)
    | 't' :: 'r' :: 'u' :: 'e' :: r => some (.bool true, r)
    | 'f' :: 'a' :: 'l' :: 's' :: 'e' :: r => some (.bool false, r)
    | '"' :: r => do
      let (s, r) ← readChars r
      return (.string (String.ofList s), r)
    | '[' :: r =>
      match skipSpace r with
      | ']' :: r => some (.array [], r)
      | r => do
        let (v, r) ← readValue fuel r
        let (l, r) ← readElements fuel r
        return (.array (v :: l), r)
    | '\x7b' :: r =>
      match skipSpace r with
      | '\x7d' :: r => some (.object [], r)
      | r => do
        let (m, r) ← readMember fuel r
        let (ms, r) ← readMembers fuel r
        return (.object (m :: ms), r)
    | cs => do
      let (n, r) ← readNumber cs
      return (.number n, r)

/-- The elements after the first, up to the closing bracket. -/
def readElements : ℕ → List Char → Option (List Value × List Char)
  | 0, _ => none
  | fuel + 1, cs =>
    match skipSpace cs with
    | ']' :: r => some ([], r)
    | ',' :: r => do
      let (v, r) ← readValue fuel r
      let (l, r) ← readElements fuel r
      return (v :: l, r)
    | _ => none

def readMember : ℕ → List Char → Option ((String × Value) × List Char)
  | 0, _ => none
  | fuel + 1, cs =>
    match skipSpace cs with
    | '"' :: r => do
      let (k, r) ← readChars r
      match skipSpace r with
      | ':' :: r => do
        let (v, r) ← readValue fuel r
        return ((String.ofList k, v), r)
      | _ => none
    | _ => none

def readMembers : ℕ → List Char → Option (List (String × Value) × List Char)
  | 0, _ => none
  | fuel + 1, cs =>
    match skipSpace cs with
    | '\x7d' :: r => some ([], r)
    | ',' :: r => do
      let (m, r) ← readMember fuel r
      let (ms, r) ← readMembers fuel r
      return (m :: ms, r)
    | _ => none

end

/-- The value of a text. Every call of the reader consumes a character, so the length of the
text is fuel enough. -/
def parse (s : String) : Option Value := do
  let (v, r) ← readValue (s.length + 1) s.toList
  if skipSpace r = [] then some v else none

/-! ## Reading what was written -/

theorem skipSpace_cons {c : Char} {r : List Char} (h : isSpace c = false) :
    skipSpace (c :: r) = c :: r := by
  rw [skipSpace, List.dropWhile_cons, h]
  rfl

/-- The code of a control character is read back as the character. -/
theorem hexEscape_control : ∀ i : Fin 32,
    hexEscape '0' '0' (hexDigit (i / 16)) (hexDigit (i % 16)) = some (Char.ofNat i) := by decide

/-- Every character is read back from the way it is written. -/
theorem readChars_escapeChar (c : Char) (r : List Char) :
    readChars (escapeChar c ++ r) = (readChars r).map fun p => (c :: p.1, p.2) := by
  -- the seven characters that have an escape of one letter
  have hsimple : ∀ {e : Char}, e ≠ 'u' → simpleEscape e = some c →
      readChars (['\\', e] ++ r) = (readChars r).map fun p => (c :: p.1, p.2) := by
    intro e hu he
    rw [List.cons_append, List.cons_append, List.nil_append, readChars, he]
    · cases readChars r <;> rfl
    · intro _ _ _ _ _ hcons _
      exact hu hcons
  unfold escapeChar
  split_ifs with h₁ h₂ h₃ h₄ h₅ h₆ h₇ hcontrol
  · exact hsimple (by decide) (by rw [h₁]; rfl)
  · exact hsimple (by decide) (by rw [h₂]; rfl)
  · exact hsimple (by decide) (by rw [h₃]; rfl)
  · exact hsimple (by decide) (by rw [h₄]; rfl)
  · exact hsimple (by decide) (by rw [h₅]; rfl)
  · exact hsimple (by decide) (by rw [h₆]; rfl)
  · exact hsimple (by decide) (by rw [h₇]; rfl)
  -- the other control characters are written by their code
  · have hcode := hexEscape_control ⟨c.toNat, hcontrol⟩
    rw [Char.ofNat_toNat] at hcode
    simp only [List.cons_append, List.nil_append, readChars, hcode]
    cases readChars r <;> rfl
  · rw [List.cons_append, List.nil_append, readChars, if_neg hcontrol]
    · cases readChars r <;> rfl
    all_goals simp_all

theorem readChars_writeString (s : List Char) (r : List Char) :
    readChars (s.flatMap escapeChar ++ '"' :: r) = some (s, r) := by
  induction s with
  | nil => rfl
  | cons c s ih =>
    rw [List.flatMap_cons, List.append_assoc, readChars_escapeChar, ih]
    rfl

/-- What follows a number does not continue it. -/
def Follows (r : List Char) : Prop := ∀ c r', r = c :: r' → c.isDigit = false ∧ c ∉ ['.', 'e', 'E']

theorem follows_nil : Follows [] := by
  intro c r' h
  cases h

theorem follows_cons {c : Char} {r : List Char} (h : c.isDigit = false ∧ c ∉ ['.', 'e', 'E']) :
    Follows (c :: r) := by
  rintro c' r' ⟨⟩
  exact h

theorem readDigits_toDigits (n : ℕ) {r : List Char} (h : Follows r) :
    readDigits (Nat.toDigits 10 n ++ r) = some (n, r) := by
  have hdigits : ∀ c ∈ Nat.toDigits 10 n, c.isDigit = true := fun c hc =>
    Nat.isDigit_of_mem_toDigits (by decide) (by decide) hc
  -- the digits end where `r` starts
  have htake : (Nat.toDigits 10 n ++ r).takeWhile Char.isDigit = Nat.toDigits 10 n := by
    rw [List.takeWhile_append_of_pos hdigits]
    cases r with
    | nil => simp
    | cons c r => simp [(h c r rfl).1]
  have hdrop : (Nat.toDigits 10 n ++ r).dropWhile Char.isDigit = r := by
    rw [List.dropWhile_append_of_pos hdigits]
    cases r with
    | nil => rfl
    | cons c r => simp [(h c r rfl).1]
  have hne : Nat.toDigits 10 n ≠ [] := Nat.toDigits_ne_nil
  rw [readDigits, htake, hdrop]
  simp [hne, Nat.ofDigitChars_ten_toDigits]

theorem startsFraction_of_follows {r : List Char} (h : Follows r) : startsFraction r = false := by
  cases r with
  | nil => rfl
  | cons c r =>
    have hc := (h c r rfl).2
    simp only [List.mem_cons, List.not_mem_nil, or_false, not_or] at hc
    simp [startsFraction, hc.1, hc.2.1, hc.2.2]

/-- The digits of a number start with a digit. -/
theorem toDigits_eq_cons (n : ℕ) : ∃ c l, Nat.toDigits 10 n = c :: l ∧ c.isDigit = true := by
  cases hl : Nat.toDigits 10 n with
  | nil => exact absurd hl Nat.toDigits_ne_nil
  | cons c l =>
    have hmem : c ∈ Nat.toDigits 10 n := hl ▸ List.mem_cons_self
    exact ⟨c, l, rfl, Nat.isDigit_of_mem_toDigits (by decide) (by decide) hmem⟩

/-- An integer is read back, up to whatever does not continue it. -/
theorem readNumber_writeNumber {n : Number} (hn : n.IsInteger) {r : List Char}
    (h : Follows r) : readNumber (writeNumber n ++ r) = some (n, r) := by
  have hfollows : ¬ startsFraction r = true := by
    rw [startsFraction_of_follows h]
    decide
  cases n with
  | posInt n =>
    rw [writeNumber, readNumber, readDigits_toDigits _ h]
    · have hsize : ¬ 2 ^ 64 ≤ n.toNat := Nat.not_le.mpr n.toNat_lt
      show (if startsFraction r = true ∨ 2 ^ 64 ≤ n.toNat then none
        else some (Number.posInt (UInt64.ofNat n.toNat), r)) = _
      rw [if_neg (not_or.mpr ⟨hfollows, hsize⟩), UInt64.ofNat_toNat]
    -- the digits do not start with a minus sign, which would be the other case
    · intro cs hcs
      obtain ⟨c, l, hl, hdigit⟩ := toDigits_eq_cons n.toNat
      rw [hl] at hcs
      obtain ⟨rfl, -⟩ := List.cons.inj hcs
      cases hdigit
  | negInt n =>
    have hneg : n.toInt < 0 := hn
    have hlow : -2 ^ 63 ≤ n.toInt := n.le_toInt
    have habs : -(n.toInt.natAbs : ℤ) = n.toInt := by omega
    -- a negative number is not `-0`, which the reader refuses
    have hzero : ¬ n.toInt.natAbs = 0 := by omega
    have hsize : ¬ 2 ^ 63 < n.toInt.natAbs := by omega
    rw [writeNumber, List.cons_append, readNumber, readDigits_toDigits _ h]
    show (if startsFraction r = true ∨ n.toInt.natAbs = 0 ∨ 2 ^ 63 < n.toInt.natAbs then none
      else some (Number.negInt (Int64.ofInt (-(n.toInt.natAbs : ℤ))), r)) = _
    rw [if_neg (not_or.mpr ⟨hfollows, not_or.mpr ⟨hzero, hsize⟩⟩), habs, Int64.ofInt_toInt]
  | float x => exact hn.elim

/-- A text that starts like a number is read as one. -/
theorem readValue_of_number {c : Char} (hc : c = '-' ∨ c.isDigit = true) (fuel : ℕ)
    (cs : List Char) :
    readValue (fuel + 1) (c :: cs) =
      (readNumber (c :: cs)).bind fun p => some (.number p.1, p.2) := by
  have hspace : isSpace c = false := by
    rcases hc with rfl | hc
    · decide
    · by_contra hs
      rw [Bool.not_eq_false] at hs
      simp only [isSpace, Bool.or_eq_true, decide_eq_true_eq] at hs
      rcases hs with ((rfl | rfl) | rfl) | rfl <;> cases hc
  -- so the first six cases of the reader do not apply
  have hne : ∀ d ∈ ['n', 't', 'f', '"', '[', '\x7b'], c ≠ d := by
    rintro d hd rfl
    simp only [List.mem_cons, List.not_mem_nil, or_false] at hd
    rcases hd with rfl | rfl | rfl | rfl | rfl | rfl <;> exact absurd hc (by decide)
  rw [readValue, skipSpace_cons hspace]
  split
  case h_7 => rfl
  all_goals
    rename_i heq
    exact absurd (List.cons.inj heq).1 (hne _ (by decide))

/-- The text of an integer is read as that integer. -/
theorem readValue_writeNumber {n : Number} (hn : n.IsInteger) (fuel : ℕ) {r : List Char}
    (h : Follows r) :
    readValue (fuel + 1) (writeNumber n ++ r) = some (.number n, r) := by
  have hnumber := readNumber_writeNumber hn h
  obtain ⟨c, l, hl, hc⟩ :
      ∃ c l, writeNumber n ++ r = c :: l ∧ (c = '-' ∨ c.isDigit = true) := by
    cases n with
    | posInt n =>
      obtain ⟨c, l, hl, hdigit⟩ := toDigits_eq_cons n.toNat
      exact ⟨c, l ++ r, by rw [writeNumber, hl]; rfl, .inr hdigit⟩
    | negInt n => exact ⟨'-', _, rfl, .inl rfl⟩
    | float x => exact hn.elim
  rw [hl] at hnumber ⊢
  rw [readValue_of_number hc, hnumber]
  rfl

/-- The text of a value starts with neither white space nor a closing bracket. -/
theorem writeValue_eq_cons {v : Value} (hv : v.Plain) :
    ∃ c l, writeValue v = c :: l ∧ isSpace c = false ∧ c ≠ ']' := by
  have hdigit : ∀ {c : Char}, c.isDigit = true → isSpace c = false ∧ c ≠ ']' := by
    intro c hc
    constructor
    · by_contra hs
      rw [Bool.not_eq_false] at hs
      simp only [isSpace, Bool.or_eq_true, decide_eq_true_eq] at hs
      rcases hs with ((rfl | rfl) | rfl) | rfl <;> cases hc
    · rintro rfl
      cases hc
  cases v with
  | null => exact ⟨_, _, rfl, by decide, by decide⟩
  | bool b => cases b <;> exact ⟨_, _, rfl, by decide, by decide⟩
  | number n =>
    cases n with
    | posInt n =>
      obtain ⟨c, l, hl, hc⟩ := toDigits_eq_cons n.toNat
      exact ⟨c, l, hl, hdigit hc⟩
    | negInt n => exact ⟨_, _, rfl, by decide, by decide⟩
    | float x => exact hv.elim
  | string s => exact ⟨_, _, rfl, by decide, by decide⟩
  | array l => cases l <;> exact ⟨_, _, rfl, by decide, by decide⟩
  | object ms =>
    rcases ms with _ | ⟨⟨k, v⟩, ms⟩
    · exact ⟨_, _, rfl, by decide, by decide⟩
    · exact ⟨_, _, rfl, by decide, by decide⟩

theorem follows_writeElements (l : List Value) (r : List Char) :
    Follows (writeElements l ++ r) := by
  cases l <;> exact follows_cons (by decide)

theorem follows_writeMembers (ms : List (String × Value)) (r : List Char) :
    Follows (writeMembers ms ++ r) := by
  rcases ms with _ | ⟨⟨k, v⟩, ms⟩
  · exact follows_cons (by decide)
  · exact follows_cons (by decide)

/-- A quoted text in front, without its opening quote. -/
theorem readChars_quoted (s : String) (r : List Char) :
    readChars (s.toList.flatMap escapeChar ++ ['"'] ++ r) = some (s.toList, r) := by
  rw [List.append_assoc]
  exact readChars_writeString s.toList r

/-- A member is read back once its value is. -/
theorem readMember_write {k : String} {v : Value} {fuel : ℕ} {r : List Char}
    (h : readValue fuel (writeValue v ++ r) = some (v, r)) :
    readMember (fuel + 1) (writeString k ++ ':' :: (writeValue v ++ r)) = some ((k, v), r) := by
  have hquote : writeString k ++ ':' :: (writeValue v ++ r) =
      '"' :: (k.toList.flatMap escapeChar ++ ['"'] ++ ':' :: (writeValue v ++ r)) := rfl
  rw [readMember, hquote, skipSpace_cons (by decide)]
  simp only [readChars_quoted, skipSpace_cons (show isSpace ':' = false by decide), h,
    Option.bind_eq_bind, Option.bind_some, String.ofList_toList]
  rfl

theorem readValue_bracket {r cs : List Char} {c : Char} (fuel : ℕ) (hr : skipSpace r = c :: cs)
    (hne : c ≠ ']') :
    readValue (fuel + 1) ('[' :: r) = (readValue fuel (c :: cs)).bind fun p =>
      (readElements fuel p.2).bind fun q => some (Value.array (p.1 :: q.1), q.2) := by
  show (match skipSpace r with
    | ']' :: r => some (Value.array [], r)
    | r => (readValue fuel r).bind fun p =>
      (readElements fuel p.2).bind fun q => some (Value.array (p.1 :: q.1), q.2)) = _
  rw [hr]
  split
  · rename_i heq
    exact absurd (List.cons.inj heq).1 hne
  · rfl

theorem readValue_brace {r cs : List Char} {c : Char} (fuel : ℕ) (hr : skipSpace r = c :: cs)
    (hne : c ≠ '\x7d') :
    readValue (fuel + 1) ('\x7b' :: r) = (readMember fuel (c :: cs)).bind fun p =>
      (readMembers fuel p.2).bind fun q => some (Value.object (p.1 :: q.1), q.2) := by
  show (match skipSpace r with
    | '\x7d' :: r => some (Value.object [], r)
    | r => (readMember fuel r).bind fun p =>
      (readMembers fuel p.2).bind fun q => some (Value.object (p.1 :: q.1), q.2)) = _
  rw [hr]
  split
  · rename_i heq
    exact absurd (List.cons.inj heq).1 hne
  · rfl

mutual

/-- A value is read back from its text, up to whatever does not continue it. -/
theorem readValue_writeValue : ∀ {v : Value}, v.Plain → ∀ {fuel : ℕ} {r : List Char},
    (writeValue v).length ≤ fuel → Follows r →
    readValue (fuel + 1) (writeValue v ++ r) = some (v, r)
  | .null, _, _, _, _, _ => rfl
  | .bool true, _, _, _, _, _ => rfl
  | .bool false, _, _, _, _, _ => rfl
  | .number n, hv, fuel, r, _, h => readValue_writeNumber hv fuel h
  | .string s, _, fuel, r, _, _ => by
    have hquote : writeValue (.string s) ++ r =
        '"' :: (s.toList.flatMap escapeChar ++ ['"'] ++ r) := rfl
    rw [readValue, hquote, skipSpace_cons (by decide)]
    simp only [readChars_quoted, Option.bind_eq_bind, Option.bind_some, String.ofList_toList]
    rfl
  | .array [], _, _, _, _, _ => rfl
  | .array (v :: l), hv, fuel, r, hlen, h => by
    have hshape : writeValue (.array (v :: l)) ++ r =
        '[' :: (writeValue v ++ (writeElements l ++ r)) := by
      rw [← List.append_assoc]
      rfl
    have hlength : (writeValue v).length + (writeElements l).length + 1 ≤ fuel := by
      simpa [writeValue] using hlen
    obtain ⟨fuel, rfl⟩ : ∃ f, fuel = f + 1 := ⟨fuel - 1, by omega⟩
    -- the element and the rest of the array each need less fuel than the whole text
    have hvalue := readValue_writeValue hv.1 (show _ ≤ fuel by omega) (follows_writeElements l r)
    have helements : readElements (fuel + 1) (writeElements l ++ r) = some (l, r) :=
      readElements_writeElements hv.2 (by omega)
    obtain ⟨c, cs, hc, hspace, hne⟩ := writeValue_eq_cons hv.1
    rw [hc, List.cons_append] at hvalue
    rw [hshape, hc, List.cons_append, readValue_bracket _ (skipSpace_cons hspace) hne, hvalue,
      Option.bind_some, helements, Option.bind_some]
  | .object [], _, _, _, _, _ => rfl
  | .object ((k, v) :: ms), hv, fuel, r, hlen, h => by
    have hshape : writeValue (.object ((k, v) :: ms)) ++ r =
        '\x7b' :: (writeString k ++ ':' :: (writeValue v ++ (writeMembers ms ++ r))) := by
      simp [writeValue]
    have hlength : (writeValue v).length + (writeMembers ms).length + 2 ≤ fuel := by
      have hall : (writeValue (.object ((k, v) :: ms))).length = (writeString k).length +
          (writeValue v).length + (writeMembers ms).length + 2 := by
        simp [writeValue]
        omega
      omega
    obtain ⟨fuel, rfl⟩ : ∃ f, fuel = f + 2 := ⟨fuel - 2, by omega⟩
    -- the quoted key and the value each cost one step
    have hmember : readMember (fuel + 2) (writeString k ++ ':' :: (writeValue v ++
        (writeMembers ms ++ r))) = some ((k, v), writeMembers ms ++ r) :=
      readMember_write (readValue_writeValue hv.2.1 (by omega) (follows_writeMembers ms r))
    have hmembers : readMembers (fuel + 2) (writeMembers ms ++ r) = some (ms, r) :=
      readMembers_writeMembers hv.2.2 (by omega)
    rw [writeString, List.cons_append] at hmember
    rw [hshape, writeString, List.cons_append, readValue_brace _ (skipSpace_cons (by decide))
      (by decide), hmember, Option.bind_some, hmembers, Option.bind_some]

theorem readElements_writeElements : ∀ {l : List Value}, allPlain l →
    ∀ {fuel : ℕ} {r : List Char}, (writeElements l).length ≤ fuel →
    readElements (fuel + 1) (writeElements l ++ r) = some (l, r)
  | [], _, _, _, _ => rfl
  | v :: l, hl, fuel, r, hlen => by
    have hshape : writeElements (v :: l) ++ r =
        ',' :: (writeValue v ++ (writeElements l ++ r)) := by
      rw [← List.append_assoc]
      rfl
    have hlength : (writeValue v).length + (writeElements l).length + 1 ≤ fuel := by
      simpa [writeElements] using hlen
    obtain ⟨fuel, rfl⟩ : ∃ f, fuel = f + 1 := ⟨fuel - 1, by omega⟩
    rw [hshape, readElements, skipSpace_cons (by decide)]
    simp only [readValue_writeValue hl.1 (show _ ≤ fuel by omega) (follows_writeElements l r),
      readElements_writeElements hl.2 (show _ ≤ fuel by omega), Option.bind_eq_bind,
      Option.bind_some]
    rfl

theorem readMembers_writeMembers : ∀ {ms : List (String × Value)}, allPlainMembers ms →
    ∀ {fuel : ℕ} {r : List Char}, (writeMembers ms).length ≤ fuel →
    readMembers (fuel + 1) (writeMembers ms ++ r) = some (ms, r)
  | [], _, _, _, _ => rfl
  | (k, v) :: ms, hms, fuel, r, hlen => by
    have hshape : writeMembers ((k, v) :: ms) ++ r =
        ',' :: (writeString k ++ ':' :: (writeValue v ++ (writeMembers ms ++ r))) := by
      simp [writeMembers]
    have hlength : (writeValue v).length + (writeMembers ms).length + 2 ≤ fuel := by
      have hall : (writeMembers ((k, v) :: ms)).length = (writeString k).length +
          (writeValue v).length + (writeMembers ms).length + 2 := by
        simp [writeMembers]
        omega
      omega
    obtain ⟨fuel, rfl⟩ : ∃ f, fuel = f + 2 := ⟨fuel - 2, by omega⟩
    have hmember : readMember (fuel + 2) (writeString k ++ ':' :: (writeValue v ++
        (writeMembers ms ++ r))) = some ((k, v), writeMembers ms ++ r) :=
      readMember_write (readValue_writeValue hms.1 (by omega) (follows_writeMembers ms r))
    have hmembers : readMembers (fuel + 2) (writeMembers ms ++ r) = some (ms, r) :=
      readMembers_writeMembers hms.2 (by omega)
    rw [hshape, readMembers, skipSpace_cons (by decide)]
    simp only [hmember, hmembers, Option.bind_eq_bind, Option.bind_some]
    rfl

end

/-- Reading the compact text of a plain value gives the value back. -/
theorem parse_print {v : Value} (hv : v.Plain) : parse (print v) = some v := by
  have hread := readValue_writeValue hv (show (writeValue v).length ≤ _ from le_rfl) follows_nil
  rw [List.append_nil] at hread
  have hfuel : (print v).length = (writeValue v).length := by simp [print]
  rw [parse, hfuel, print, String.toList_ofList, hread]
  rfl

end Json
