import Gatekeeper.Lib.NumberText

/-!
# ECMAScript JSON

The values `JSON.parse` makes, with texts as lists of code units and numbers as doubles, the
text `JSON.stringify` writes for them and the reader of such text. Reading the text of a value
without infinite numbers gives the value back.
-/

namespace Ecma

open Js Json

/-! ## Texts -/

/-- A text, by its code units. Halves of characters may stand alone. -/
abbrev Str := List UInt16

def isHigh (u : UInt16) : Bool := 0xD800 ≤ u.toNat && u.toNat < 0xDC00

def isLow (u : UInt16) : Bool := 0xDC00 ≤ u.toNat && u.toNat < 0xE000

def unitsOf (c : Char) : Str := (codeUnits c).map UInt16.ofNat

/-- The text of well-formed characters. -/
def ofString (s : String) : Str := s.toList.flatMap unitsOf

/-- The character two halves make. -/
def pairChar (hi lo : UInt16) : Char :=
  Char.ofNat (0x10000 + (hi.toNat - 0xD800) * 0x400 + (lo.toNat - 0xDC00))

/-- A code unit that is no part of a pair, inside quotes. -/
def quoteUnit (u : UInt16) : List Char :=
  if isHigh u || isLow u then '\\' :: 'u' :: Nat.toDigits 16 u.toNat
  else escapeChar (Char.ofNat u.toNat)

def quoteUnits : Str → List Char
  | [] => []
  | [u] => quoteUnit u
  | hi :: lo :: us =>
    if isHigh hi && isLow lo then pairChar hi lo :: quoteUnits us
    else quoteUnit hi ++ quoteUnits (lo :: us)

/-- `JSON.stringify` of a text. -/
def quote (s : Str) : List Char := '"' :: (quoteUnits s ++ ['"'])

/-! ## Values -/

/-- A value of JSON. The members of an object stand in the order the engine lists them. -/
inductive Value where
  | null
  | bool (b : Bool)
  | number (x : Numeric)
  | string (s : Str)
  | array (xs : List Value)
  | object (ms : List (Str × Value))

/-- `JSON.stringify` of a number: there is no text for one that is not finite. -/
def writeNumber (x : Numeric) : List Char := if x.isFinite then x.text else "null".toList

/-- Items between commas and brackets. -/
def bracket (opening closing : Char) (items : List (List Char)) : List Char :=
  opening :: ([','].intercalate items ++ [closing])

def writeMember (k : Str) (text : List Char) : List Char := quote k ++ ':' :: text

mutual

/-- `JSON.stringify`. -/
def Value.write : Value → List Char
  | .null => "null".toList
  | .bool true => "true".toList
  | .bool false => "false".toList
  | .number x => writeNumber x
  | .string s => quote s
  | .array xs => bracket '[' ']' (writeElements xs)
  | .object ms => bracket '\x7b' '\x7d' (writeMembers ms)

def writeElements : List Value → List (List Char)
  | [] => []
  | x :: xs => x.write :: writeElements xs

def writeMembers : List (Str × Value) → List (List Char)
  | [] => []
  | (k, x) :: ms => writeMember k x.write :: writeMembers ms

end

/-! ## Reading -/

def hexUnit (a b c d : Char) : Option UInt16 := do
  let a ← hexDigitValue a
  let b ← hexDigitValue b
  let c ← hexDigitValue c
  let d ← hexDigitValue d
  return UInt16.ofNat (((a * 16 + b) * 16 + c) * 16 + d)

/-- The code units up to the closing quote, and what follows it. -/
def readUnits : List Char → Option (Str × List Char)
  | [] => none
  | '"' :: r => some ([], r)
  | '\\' :: 'u' :: a :: b :: c :: d :: r => do
    let u ← hexUnit a b c d
    let (s, r) ← readUnits r
    return (u :: s, r)
  | '\\' :: c :: r => do
    let e ← simpleEscape c
    let (s, r) ← readUnits r
    return (unitsOf e ++ s, r)
  | c :: r =>
    if c.toNat < 32 then none
    else do
      let (s, r) ← readUnits r
      return (unitsOf c ++ s, r)

section
variable {α : Type}

/-- Items that each stand behind a comma, up to the closing bracket. -/
def readItems (item : List Char → Option (α × List Char)) (closing : Char) :
    ℕ → List Char → Option (List α × List Char)
  | 0, _ => none
  | fuel + 1, cs =>
    match skipSpace cs with
    | [] => none
    | c :: r =>
      if c = closing then some ([], r)
      else if c = ',' then do
        let (a, r) ← item r
        let (as, r) ← readItems item closing fuel r
        return (a :: as, r)
      else none

/-- What stands between brackets. The first item has no comma before it. -/
def readBracket (item : List Char → Option (α × List Char)) (closing : Char) (cs : List Char) :
    Option (List α × List Char) :=
  match skipSpace cs with
  | [] => none
  | c :: r =>
    if c = closing then some ([], r)
    else do
      let (a, r) ← item (c :: r)
      let (as, r) ← readItems item closing (r.length + 1) r
      return (a :: as, r)

end

def readMember (value : List Char → Option (Value × List Char)) (cs : List Char) :
    Option ((Str × Value) × List Char) :=
  match skipSpace cs with
  | '"' :: r => do
    let (k, r) ← readUnits r
    match skipSpace r with
    | ':' :: r => do
      let (x, r) ← value r
      return ((k, x), r)
    | _ => none
  | _ => none

/-- A value at the front of a text, with as many brackets inside each other as there is fuel. -/
def readValue : ℕ → List Char → Option (Value × List Char)
  | 0, _ => none
  | fuel + 1, cs =>
    match skipSpace cs with
    | 'n' :: 'u' :: 'l' :: 'l' :: r => some (.null, r)
    | 't' :: 'r' :: 'u' :: 'e' :: r => some (.bool true, r)
    | 'f' :: 'a' :: 'l' :: 's' :: 'e' :: r => some (.bool false, r)
    | '"' :: r => (readUnits r).map fun (s, r) => (.string s, r)
    | '[' :: r => (readBracket (readValue fuel) ']' r).map fun (xs, r) => (.array xs, r)
    | '\x7b' :: r =>
      (readBracket (readMember (readValue fuel)) '\x7d' r).map fun (ms, r) => (.object ms, r)
    | cs => (Js.readNumber cs).map fun (x, r) => (.number x, r)

/-- The value a text spells. A text nests no deeper than it is long. -/
def readText (cs : List Char) : Option Value :=
  match readValue (cs.length + 1) cs with
  | some (v, r) => if skipSpace r = [] then some v else none
  | none => none

/-! ## Texts, read back -/

theorem toDigits_four {n : ℕ} (h : 4096 ≤ n) (h' : n < 65536) :
    Nat.toDigits 16 n = [(n / 16 / 16 / 16).digitChar, (n / 16 / 16 % 16).digitChar,
      (n / 16 % 16).digitChar, (n % 16).digitChar] := by
  rw [Nat.toDigits_of_base_le (by decide) (by omega),
    Nat.toDigits_of_base_le (by decide) (by omega),
    Nat.toDigits_of_base_le (by decide) (by omega), Nat.toDigits_of_lt_base (by omega)]
  rfl

theorem hexDigitValue_digitChar {n : ℕ} (h : n < 16) : hexDigitValue n.digitChar = some n := by
  have hall : ∀ i : Fin 16, hexDigitValue (Nat.digitChar i) = some i.val := by decide
  exact hall ⟨n, h⟩

theorem unitsOf_of_lt {c : Char} (h : c.toNat < 0x10000) : unitsOf c = [UInt16.ofNat c.toNat] := by
  rw [unitsOf, codeUnits, if_pos h]
  rfl

theorem unitsOf_ofNat {u : UInt16} (h : isHigh u = false) (h' : isLow u = false) :
    unitsOf (Char.ofNat u.toNat) = [u] ∧ (Char.ofNat u.toNat).toNat = u.toNat := by
  have hlt := u.toNat_lt
  have hvalid : u.toNat.isValidChar := by
    simp only [isHigh, isLow, Bool.and_eq_false_iff, decide_eq_false_iff_not] at h h'
    unfold Nat.isValidChar
    omega
  have hnat : (Char.ofNat u.toNat).toNat = u.toNat := by
    rw [Char.ofNat, dif_pos hvalid]
    rfl
  refine ⟨?_, hnat⟩
  rw [unitsOf_of_lt (by omega), hnat, UInt16.ofNat_toNat]

theorem unitsOf_pairChar {hi lo : UInt16} (h : isHigh hi = true) (h' : isLow lo = true) :
    unitsOf (pairChar hi lo) = [hi, lo] ∧ 0x10000 ≤ (pairChar hi lo).toNat := by
  simp only [isHigh, isLow, Bool.and_eq_true, decide_eq_true_eq] at h h'
  have hvalid : (0x10000 + (hi.toNat - 0xD800) * 0x400 + (lo.toNat - 0xDC00)).isValidChar := by
    unfold Nat.isValidChar
    omega
  have hnat : (pairChar hi lo).toNat =
      0x10000 + (hi.toNat - 0xD800) * 0x400 + (lo.toNat - 0xDC00) := by
    rw [pairChar, Char.ofNat, dif_pos hvalid]
    rfl
  refine ⟨?_, by omega⟩
  have hfirst : 0xD800 + ((pairChar hi lo).toNat - 0x10000) / 0x400 = hi.toNat := by omega
  have hsecond : 0xDC00 + ((pairChar hi lo).toNat - 0x10000) % 0x400 = lo.toNat := by omega
  rw [unitsOf, codeUnits, if_neg (by omega), hfirst, hsecond]
  simp only [List.map_cons, List.map_nil, UInt16.ofNat_toNat]

/-- A character that needs no escape. -/
theorem readUnits_plain {c : Char} (hquote : c ≠ '"') (hslash : c ≠ '\\') (h : ¬ c.toNat < 32)
    (r : List Char) :
    readUnits (c :: r) = (readUnits r).map fun p => (unitsOf c ++ p.1, p.2) := by
  rw [readUnits, if_neg h]
  · cases readUnits r <;> rfl
  all_goals simp_all

/-- Every character is read back from the way it is written. -/
theorem readUnits_escapeChar (c : Char) (r : List Char) :
    readUnits (escapeChar c ++ r) = (readUnits r).map fun p => (unitsOf c ++ p.1, p.2) := by
  -- the seven characters that have an escape of one letter
  have hsimple : ∀ {e : Char}, e ≠ 'u' → simpleEscape e = some c →
      readUnits (['\\', e] ++ r) = (readUnits r).map fun p => (unitsOf c ++ p.1, p.2) := by
    intro e hu he
    rw [List.cons_append, List.cons_append, List.nil_append, readUnits, he]
    · cases readUnits r <;> rfl
    · intro _ _ _ _ _ hcons _
      exact hu hcons
  unfold escapeChar
  split_ifs with h₁ h₂ h₃ h₄ h₅ h₆ h₇ hcontrol
  · exact hsimple (by decide) (by rw [h₁]; rfl)
  · exact hsimple (by decide) (by rw [h₂]; rfl)
  · exact hsimple (by decide) (by rw [h₃]; rfl)
  · exact hsimple (by decide) (by rw [h₄]; rfl)
  · exact hsimple (by decide) (by rw [h₅]; rfl)
  · exact hsimple (by decide) (by rw [h₆]; rfl)
  · exact hsimple (by decide) (by rw [h₇]; rfl)
  -- the other control characters are written by their code
  · have hcode : ∀ i : Fin 32, hexUnit '0' '0' (Encoding.hexDigit (i / 16))
        (Encoding.hexDigit (i % 16)) = some (UInt16.ofNat i) := by decide
    simp only [List.cons_append, List.nil_append, readUnits, hcode ⟨c.toNat, hcontrol⟩,
      unitsOf_of_lt (show c.toNat < 0x10000 by omega)]
    cases readUnits r <;> rfl
  · rw [List.cons_append, List.nil_append]
    exact readUnits_plain h₁ h₂ hcontrol r

theorem readUnits_quoteUnit (u : UInt16) (r : List Char) :
    readUnits (quoteUnit u ++ r) = (readUnits r).map fun p => (u :: p.1, p.2) := by
  unfold quoteUnit
  split_ifs with h
  · have hlt := u.toNat_lt
    have hlarge : 4096 ≤ u.toNat := by
      simp only [isHigh, isLow, Bool.or_eq_true, Bool.and_eq_true, decide_eq_true_eq] at h
      omega
    have hunit : hexUnit (u.toNat / 16 / 16 / 16).digitChar (u.toNat / 16 / 16 % 16).digitChar
        (u.toNat / 16 % 16).digitChar (u.toNat % 16).digitChar = some u := by
      rw [hexUnit, hexDigitValue_digitChar (by omega), hexDigitValue_digitChar (by omega),
        hexDigitValue_digitChar (by omega), hexDigitValue_digitChar (by omega)]
      refine congrArg some (UInt16.toNat_inj.mp ?_)
      rw [UInt16.toNat_ofNat']
      omega
    rw [toDigits_four hlarge hlt]
    simp only [List.cons_append, List.nil_append, readUnits, hunit]
    cases readUnits r <;> rfl
  · rw [Bool.or_eq_true, not_or, Bool.not_eq_true, Bool.not_eq_true] at h
    rw [readUnits_escapeChar, (unitsOf_ofNat h.1 h.2).1]
    rfl

/-- A text is read back, halves of characters included. -/
theorem readUnits_quoteUnits (s : Str) (r : List Char) :
    readUnits (quoteUnits s ++ '"' :: r) = some (s, r) := by
  induction s using quoteUnits.induct with
  | case1 => rfl
  | case2 u =>
    rw [quoteUnits, readUnits_quoteUnit]
    rfl
  | case3 hi lo us h ih =>
    rw [Bool.and_eq_true] at h
    obtain ⟨hunits, hlarge⟩ := unitsOf_pairChar h.1 h.2
    have hne : ∀ c : Char, c.toNat < 0x10000 → pairChar hi lo ≠ c := by
      rintro c hc rfl
      omega
    rw [quoteUnits, if_pos (by simp [h]), List.cons_append,
      readUnits_plain (hne _ (by decide)) (hne _ (by decide)) (by omega), ih, hunits]
    rfl
  | case4 hi lo us h ih =>
    rw [quoteUnits, if_neg h, List.append_assoc, readUnits_quoteUnit, ih]
    rfl

/-! ## Brackets, read back -/

theorem intercalate_cons (t : List Char) (ts : List (List Char)) :
    [','].intercalate (t :: ts) = t ++ ts.flatMap fun t => ',' :: t := by
  induction ts generalizing t with
  | nil => simp
  | cons s ts ih =>
    rw [List.intercalate_cons_cons, ih, List.flatMap_cons]
    simp

section
variable {α : Type} {item : List Char → Option (α × List Char)} {text : α → List Char}
  {closing : Char} {xs : List α}

/-- The item is read back from its text, up to whatever does not continue it. -/
def ReadsBack (item : List Char → Option (α × List Char)) (text : α → List Char) (a : α) : Prop :=
  ∀ r, Follows r → item (text a ++ r) = some (a, r)

/-- A bracket that neither continues a number nor is a comma. -/
def Closing (c : Char) : Prop :=
  isSpace c = false ∧ c ≠ ',' ∧ c.isDigit = false ∧ c ∉ ['.', 'e', 'E']

instance (c : Char) : Decidable (Closing c) := inferInstanceAs (Decidable (_ ∧ _))

theorem length_le_items (xs : List α) (text : α → List Char) :
    xs.length ≤ (xs.flatMap fun a => ',' :: text a).length := by
  induction xs with
  | nil => exact Nat.le_refl 0
  | cons a xs ih =>
    rw [List.flatMap_cons, List.length_append, List.length_cons, List.length_cons]
    omega

theorem follows_items (h : Closing closing) (r : List Char) :
    Follows ((xs.flatMap fun a => ',' :: text a) ++ closing :: r) := by
  cases xs with
  | nil => exact follows_cons h.2.2
  | cons a xs => exact follows_cons (by decide)

theorem readItems_append (hclosing : Closing closing)
    (h : ∀ a ∈ xs, ReadsBack item text a) {fuel : ℕ} (hfuel : xs.length < fuel) (r : List Char) :
    readItems item closing fuel ((xs.flatMap fun a => ',' :: text a) ++ closing :: r) =
      some (xs, r) := by
  induction xs generalizing fuel with
  | nil =>
    obtain ⟨fuel, rfl⟩ : ∃ k, fuel = k + 1 := ⟨fuel - 1, by simp at hfuel; omega⟩
    rw [List.flatMap_nil, List.nil_append, readItems, skipSpace_cons hclosing.1]
    dsimp only
    rw [if_pos rfl]
  | cons a xs ih =>
    rw [List.length_cons] at hfuel
    obtain ⟨fuel, rfl⟩ : ∃ k, fuel = k + 1 := ⟨fuel - 1, by omega⟩
    rw [List.forall_mem_cons] at h
    rw [List.flatMap_cons, List.cons_append, List.cons_append, List.append_assoc, readItems,
      skipSpace_cons (by decide)]
    dsimp only
    rw [if_neg (Ne.symm hclosing.2.1), if_pos rfl, h.1 _ (follows_items hclosing r)]
    simp only [Option.bind_eq_bind, Option.bind_some, ih h.2 (show xs.length < fuel by omega)]
    rfl

/-- What stands between brackets is read back. -/
theorem readBracket_append (hclosing : Closing closing) (h : ∀ a ∈ xs, ReadsBack item text a)
    (hstart : ∀ a ∈ xs, ∃ c t, text a = c :: t ∧ isSpace c = false ∧ c ≠ closing)
    (r : List Char) :
    readBracket item closing ([','].intercalate (xs.map text) ++ [closing] ++ r) =
      some (xs, r) := by
  cases xs with
  | nil =>
    rw [List.map_nil, List.intercalate_nil, List.nil_append, List.singleton_append, readBracket,
      skipSpace_cons hclosing.1]
    dsimp only
    rw [if_pos rfl]
  | cons a xs =>
    rw [List.forall_mem_cons] at h hstart
    obtain ⟨c, t, htext, hspace, hne⟩ := hstart.1
    have hfollows : Follows ((xs.flatMap fun a => ',' :: text a) ++ closing :: r) :=
      follows_items hclosing r
    have hitem := h.1 _ hfollows
    have hlen : xs.length < ((xs.flatMap fun a => ',' :: text a) ++ closing :: r).length + 1 := by
      have := length_le_items xs text
      rw [List.length_append]
      omega
    have hitems := readItems_append hclosing h.2 hlen r
    rw [List.map_cons, intercalate_cons, List.flatMap_map, List.append_assoc, List.append_assoc,
      List.singleton_append, htext, List.cons_append, readBracket, skipSpace_cons hspace]
    rw [htext, List.cons_append] at hitem
    dsimp only
    rw [if_neg hne, hitem]
    simp only [Option.bind_eq_bind, Option.bind_some, hitems]
    rfl

end

/-! ## Values, read back -/

mutual

/-- No number in the value is infinite or `NaN`. -/
def Value.Finite : Value → Prop
  | .number x => x.isFinite = true
  | .array xs => allFinite xs
  | .object ms => allFiniteMembers ms
  | _ => True

def allFinite : List Value → Prop
  | [] => True
  | x :: xs => x.Finite ∧ allFinite xs

def allFiniteMembers : List (Str × Value) → Prop
  | [] => True
  | (_, x) :: ms => x.Finite ∧ allFiniteMembers ms

end

mutual

/-- How deep arrays and objects are nested. -/
def Value.depth : Value → ℕ
  | .array xs => depthElements xs + 1
  | .object ms => depthMembers ms + 1
  | _ => 0

def depthElements : List Value → ℕ
  | [] => 0
  | x :: xs => max x.depth (depthElements xs)

def depthMembers : List (Str × Value) → ℕ
  | [] => 0
  | (_, x) :: ms => max x.depth (depthMembers ms)

end

theorem allFinite_iff {xs : List Value} : allFinite xs ↔ ∀ x ∈ xs, x.Finite := by
  induction xs with
  | nil => simp [allFinite]
  | cons x xs ih => rw [allFinite, ih, List.forall_mem_cons]

theorem writeElements_eq (xs : List Value) : writeElements xs = xs.map Value.write := by
  induction xs with
  | nil => rfl
  | cons x xs ih => rw [writeElements, ih, List.map_cons]

theorem writeMembers_eq (ms : List (Str × Value)) :
    writeMembers ms = ms.map fun m => writeMember m.1 m.2.write := by
  induction ms with
  | nil => rfl
  | cons m ms ih => rw [writeMembers, ih, List.map_cons]

theorem text_eq_cons (x : Binary64.Finite) :
    ∃ c t, (Numeric.finite x).text = c :: t ∧ (c = '-' ∨ c.isDigit = true) := by
  rw [Numeric.text]
  split_ifs with h
  · exact ⟨'-', _, rfl, .inl rfl⟩
  · obtain ⟨c, t, htext, hc⟩ := exists_digit_text (literalOf_spec (not_lt.mp h)).1
    exact ⟨c, t, htext, .inr hc⟩

theorem not_special {c d : Char} (hc : c = '-' ∨ c.isDigit = true)
    (hd : d.isDigit = false ∧ d ≠ '-') : c ≠ d := by
  rintro rfl
  rcases hc with rfl | hc
  · exact hd.2 rfl
  · rw [hd.1] at hc
    cases hc

theorem isSpace_of_number {c : Char} (hc : c = '-' ∨ c.isDigit = true) : isSpace c = false := by
  simp only [isSpace, Bool.or_eq_false_iff, decide_eq_false_iff_not]
  exact ⟨⟨⟨not_special hc (by decide), not_special hc (by decide)⟩,
    not_special hc (by decide)⟩, not_special hc (by decide)⟩

/-- The text of a value starts with neither white space nor a closing bracket. -/
theorem write_eq_cons {v : Value} (hv : v.Finite) :
    ∃ c t, v.write = c :: t ∧ isSpace c = false ∧ c ≠ ']' := by
  cases v with
  | null => exact ⟨_, _, rfl, by decide, by decide⟩
  | bool b => cases b <;> exact ⟨_, _, rfl, by decide, by decide⟩
  | number x =>
    cases x with
    | finite x =>
      obtain ⟨c, t, htext, hc⟩ := text_eq_cons x
      exact ⟨c, t, htext, isSpace_of_number hc, not_special hc (by decide)⟩
    | nan => cases hv
    | infinity s => cases hv
  | string s => exact ⟨_, _, rfl, by decide, by decide⟩
  | array xs => exact ⟨_, _, rfl, by decide, by decide⟩
  | object ms => exact ⟨_, _, rfl, by decide, by decide⟩

/-- A text that starts like a number is read as one. -/
theorem readValue_of_number {c : Char} (hc : c = '-' ∨ c.isDigit = true) (fuel : ℕ)
    (cs : List Char) :
    readValue (fuel + 1) (c :: cs) =
      (Js.readNumber (c :: cs)).map fun p => (.number p.1, p.2) := by
  rw [readValue, skipSpace_cons (isSpace_of_number hc)]
  split
  case h_7 => rfl
  all_goals
    rename_i heq
    exact absurd (List.cons.inj heq).1 (not_special hc (by decide))

theorem readMember_writeMember {k : Str} {x : Value}
    {value : List Char → Option (Value × List Char)} (h : ReadsBack value Value.write x) :
    ReadsBack (readMember value) (fun m => writeMember m.1 m.2.write) (k, x) := by
  intro r hr
  have hquote : writeMember k x.write ++ r =
      '"' :: (quoteUnits k ++ '"' :: (':' :: (x.write ++ r))) := by
    simp [writeMember, quote]
  dsimp only
  rw [hquote, readMember, skipSpace_cons (by decide)]
  simp only [readUnits_quoteUnits, Option.bind_eq_bind, Option.bind_some,
    skipSpace_cons (show isSpace ':' = false by decide), h r hr]
  rfl

mutual

/-- A value is read back from its text. -/
theorem readValue_write : ∀ {v : Value}, v.Finite → ∀ {fuel : ℕ}, v.depth < fuel →
    ReadsBack (readValue fuel) Value.write v
  | .null, _, fuel + 1, _ => fun _ _ => rfl
  | .bool true, _, fuel + 1, _ => fun _ _ => rfl
  | .bool false, _, fuel + 1, _ => fun _ _ => rfl
  | .number (.finite x), _, fuel + 1, _ => by
    intro r hr
    obtain ⟨c, t, htext, hc⟩ := text_eq_cons x
    have hread := readNumber_text x hr
    have hwrite : (Value.number (.finite x)).write = c :: t := htext
    rw [htext, List.cons_append] at hread
    rw [hwrite, List.cons_append, readValue_of_number hc, hread]
    rfl
  | .string s, _, fuel + 1, _ => by
    intro r _
    have hwrite : (Value.string s).write ++ r = '"' :: (quoteUnits s ++ '"' :: r) := by
      simp [Value.write, quote]
    rw [hwrite, readValue, skipSpace_cons (by decide)]
    show (readUnits (quoteUnits s ++ '"' :: r)).map _ = _
    rw [readUnits_quoteUnits]
    rfl
  | .array xs, hv, fuel + 1, hdepth => by
    intro r _
    have hmem := readElements_write hv (Nat.lt_of_succ_lt_succ hdepth)
    have hread := readBracket_append (show Closing ']' by decide) hmem
      (fun x hx => write_eq_cons (allFinite_iff.mp hv x hx)) r
    rw [Value.write, writeElements_eq, bracket, List.cons_append, readValue,
      skipSpace_cons (by decide)]
    show (readBracket (readValue fuel) ']' _).map _ = _
    rw [hread]
    rfl
  | .object ms, hv, fuel + 1, hdepth => by
    intro r _
    have hmem := readMembers_write hv (Nat.lt_of_succ_lt_succ hdepth)
    have hread := readBracket_append (show Closing '\x7d' by decide)
      (fun m hm => readMember_writeMember (hmem m hm))
      (fun m hm => ⟨'"', _, rfl, by decide, by decide⟩) r
    rw [Value.write, writeMembers_eq, bracket, List.cons_append, readValue,
      skipSpace_cons (by decide)]
    show (readBracket (readMember (readValue fuel)) '\x7d' _).map _ = _
    rw [hread]
    rfl

theorem readElements_write : ∀ {xs : List Value}, allFinite xs → ∀ {fuel : ℕ},
    depthElements xs < fuel → ∀ x ∈ xs, ReadsBack (readValue fuel) Value.write x
  | [], _, _, _ => fun _ hx => absurd hx List.not_mem_nil
  | x :: xs, h, fuel, hdepth => by
    rw [depthElements] at hdepth
    exact List.forall_mem_cons.mpr
      ⟨readValue_write h.1 (by omega), readElements_write h.2 (by omega)⟩

theorem readMembers_write : ∀ {ms : List (Str × Value)}, allFiniteMembers ms → ∀ {fuel : ℕ},
    depthMembers ms < fuel → ∀ m ∈ ms, ReadsBack (readValue fuel) Value.write m.2
  | [], _, _, _ => fun _ hm => absurd hm List.not_mem_nil
  | (k, x) :: ms, h, fuel, hdepth => by
    rw [depthMembers] at hdepth
    exact List.forall_mem_cons.mpr
      ⟨readValue_write h.1 (by omega), readMembers_write h.2 (by omega)⟩

end

/-! ## Enough fuel -/

theorem length_le_intercalate {ts : List (List Char)} {t : List Char} (h : t ∈ ts) :
    t.length ≤ ([','].intercalate ts).length := by
  cases ts with
  | nil => cases h
  | cons s ts =>
    rw [intercalate_cons, List.length_append]
    rcases List.mem_cons.mp h with rfl | h
    · omega
    · induction ts with
      | nil => cases h
      | cons s' ts ih =>
        rw [List.flatMap_cons, List.length_append, List.length_cons]
        rcases List.mem_cons.mp h with rfl | h
        · omega
        · have := ih (List.mem_cons_of_mem _ h) h
          omega

theorem depthElements_le {xs : List Value} {n : ℕ} (h : ∀ x ∈ xs, x.depth ≤ n) :
    depthElements xs ≤ n := by
  induction xs with
  | nil => exact Nat.zero_le n
  | cons x xs ih =>
    rw [List.forall_mem_cons] at h
    exact Nat.max_le.mpr ⟨h.1, ih h.2⟩

theorem depthMembers_le {ms : List (Str × Value)} {n : ℕ} (h : ∀ m ∈ ms, m.2.depth ≤ n) :
    depthMembers ms ≤ n := by
  induction ms with
  | nil => exact Nat.zero_le n
  | cons m ms ih =>
    rw [List.forall_mem_cons] at h
    exact Nat.max_le.mpr ⟨h.1, ih h.2⟩

mutual

/-- A text nests no deeper than it is long. -/
theorem depth_le : ∀ v : Value, v.depth ≤ v.write.length
  | .null | .bool true | .bool false | .number _ | .string _ => Nat.zero_le _
  | .array xs => by
    have h : depthElements xs ≤ ([','].intercalate (writeElements xs)).length := by
      refine depthElements_le fun x hx => (elements_depth_le xs x hx).trans ?_
      rw [writeElements_eq]
      exact length_le_intercalate (List.mem_map_of_mem hx)
    rw [Value.depth, Value.write, bracket, List.length_cons, List.length_append]
    omega
  | .object ms => by
    have h : depthMembers ms ≤ ([','].intercalate (writeMembers ms)).length := by
      refine depthMembers_le fun m hm => (members_depth_le ms m hm).trans ?_
      rw [writeMembers_eq]
      refine le_trans ?_ (length_le_intercalate (List.mem_map_of_mem hm))
      rw [writeMember, List.length_append, List.length_cons]
      omega
    rw [Value.depth, Value.write, bracket, List.length_cons, List.length_append]
    omega

theorem elements_depth_le : ∀ xs : List Value, ∀ x ∈ xs, x.depth ≤ x.write.length
  | [] => fun _ hx => absurd hx List.not_mem_nil
  | x :: xs => List.forall_mem_cons.mpr ⟨depth_le x, elements_depth_le xs⟩

theorem members_depth_le : ∀ ms : List (Str × Value), ∀ m ∈ ms, m.2.depth ≤ m.2.write.length
  | [] => fun _ hm => absurd hm List.not_mem_nil
  | (_, x) :: ms => List.forall_mem_cons.mpr ⟨depth_le x, members_depth_le ms⟩

end

/-- Reading the text of a value without infinite numbers gives the value back. -/
theorem readText_write {v : Value} (hv : v.Finite) : readText v.write = some v := by
  have hread := readValue_write hv (Nat.lt_succ_of_le (depth_le v)) [] follows_nil
  rw [List.append_nil] at hread
  rw [readText, hread]
  rfl

end Ecma
