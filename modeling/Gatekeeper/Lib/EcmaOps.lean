import Mathlib.Data.List.Sort
import Gatekeeper.Lib.Encoding
import Gatekeeper.Lib.EcmaJson
import Gatekeeper.Lib.KeyOrder

/-!
# Operations on JSON values

Property reads, truthiness, `String(..)`, the UTF-8 bytes of a text, and `JSON.parse`.
-/

namespace Ecma

open Encoding Js

/-! ## Texts as characters -/

/-- Half of a character has no encoding and becomes the replacement character. -/
def unitChar (u : UInt16) : Char := if isHigh u || isLow u then '\uFFFD' else Char.ofNat u.toNat

def toChars : Str → List Char
  | [] => []
  | [u] => [unitChar u]
  | hi :: lo :: us =>
    if isHigh hi && isLow lo then pairChar hi lo :: toChars us
    else unitChar hi :: toChars (lo :: us)

/-- `Buffer.from(s)`. -/
def bytesOf (s : Str) : Bytes := utf8 (String.ofList (toChars s))

theorem ofString_append (s t : String) : ofString (s ++ t) = ofString s ++ ofString t := by
  rw [ofString, String.toList_append, List.flatMap_append]
  rfl

/-- A character is one code unit that is no half, or a pair. -/
theorem unitsOf_cases (c : Char) :
    (∃ u, unitsOf c = [u] ∧ (isHigh u || isLow u) = false ∧ unitChar u = c) ∨
      ∃ hi lo, unitsOf c = [hi, lo] ∧ (isHigh hi && isLow lo) = true ∧ pairChar hi lo = c := by
  have hvalid := c.valid
  have hnat : c.toNat = c.val.toNat := rfl
  rw [UInt32.isValidChar, Nat.isValidChar, ← hnat] at hvalid
  by_cases h : c.toNat < 0x10000
  · refine .inl ⟨UInt16.ofNat c.toNat, unitsOf_of_lt h, ?_⟩
    have hu : (UInt16.ofNat c.toNat).toNat = c.toNat := by
      rw [UInt16.toNat_ofNat']
      omega
    have hhalf : (isHigh (UInt16.ofNat c.toNat) || isLow (UInt16.ofNat c.toNat)) = false := by
      simp only [isHigh, isLow, hu, Bool.or_eq_false_iff, Bool.and_eq_false_iff,
        decide_eq_false_iff_not]
      omega
    refine ⟨hhalf, ?_⟩
    rw [unitChar, hhalf, hu]
    exact Char.ofNat_toNat c
  · refine .inr ⟨_, _, by rw [unitsOf, codeUnits, if_neg h]; rfl, ?_⟩
    have hhi : (UInt16.ofNat (0xD800 + (c.toNat - 0x10000) / 0x400)).toNat =
        0xD800 + (c.toNat - 0x10000) / 0x400 := by
      rw [UInt16.toNat_ofNat']
      omega
    have hlo : (UInt16.ofNat (0xDC00 + (c.toNat - 0x10000) % 0x400)).toNat =
        0xDC00 + (c.toNat - 0x10000) % 0x400 := by
      rw [UInt16.toNat_ofNat']
      omega
    have hpair : 0x10000 + (0xD800 + (c.toNat - 0x10000) / 0x400 - 0xD800) * 0x400 +
        (0xDC00 + (c.toNat - 0x10000) % 0x400 - 0xDC00) = c.toNat := by omega
    refine ⟨?_, ?_⟩
    · simp only [isHigh, isLow, hhi, hlo, Bool.and_eq_true, decide_eq_true_eq]
      omega
    · rw [pairChar, hhi, hlo, hpair, Char.ofNat_toNat]

/-- The characters of a well-formed text. -/
theorem toChars_ofString (s : String) : toChars (ofString s) = s.toList := by
  rw [ofString]
  induction s.toList with
  | nil => rfl
  | cons c cs ih =>
    rw [List.flatMap_cons]
    rcases unitsOf_cases c with ⟨u, hunits, hhalf, hchar⟩ | ⟨hi, lo, hunits, hpair, hchar⟩
    · rw [Bool.or_eq_false_iff] at hhalf
      rw [hunits, List.singleton_append]
      cases hrest : cs.flatMap unitsOf with
      | nil =>
        rw [hrest] at ih
        rw [toChars, hchar, ← ih]
        rfl
      | cons v vs =>
        rw [hrest] at ih
        rw [toChars, hhalf.1, Bool.false_and, if_neg (by decide), hchar, ih]
    · rw [hunits, List.cons_append, List.singleton_append, toChars, if_pos hpair, hchar, ih]

theorem ofString_injective : Function.Injective ofString := by
  intro s t h
  have hchars := congrArg toChars h
  rw [toChars_ofString, toChars_ofString] at hchars
  exact String.toList_inj.mp hchars

theorem ofString_ne {s t : String} (h : s ≠ t) : ofString s ≠ ofString t :=
  ofString_injective.ne h

theorem ofString_beq {s t : String} (h : s ≠ t) : (ofString s == ofString t) = false :=
  beq_false_of_ne (ofString_ne h)

theorem nodup_ofString {l : List String} (h : l.Nodup) : (l.map ofString).Nodup :=
  h.map ofString_injective

theorem bytesOf_ofString (s : String) : bytesOf (ofString s) = utf8 s := by
  rw [bytesOf, toChars_ofString, String.ofList_toList]

theorem bytesOf_ofString_injective : Function.Injective (bytesOf ∘ ofString) := by
  intro s t h
  simp only [Function.comp_apply, bytesOf_ofString] at h
  exact utf8_injective h

/-- The bytes are those of a well-formed text when the characters are. -/
theorem bytesOf_eq_utf8 {k : Str} {s : String} : bytesOf k = utf8 s ↔ toChars k = s.toList := by
  rw [bytesOf, utf8_inj, ← String.toList_inj, String.toList_ofList]

theorem toChars_ne_nil {k : Str} (h : k ≠ []) : toChars k ≠ [] := by
  cases k with
  | nil => exact absurd rfl h
  | cons u us =>
    cases us with
    | nil => exact List.cons_ne_nil _ _
    | cons v us =>
      rw [toChars]
      split_ifs <;> exact List.cons_ne_nil _ _

/-- The characters around a code unit that is no half. -/
theorem toChars_append {u : UInt16} (h : (isHigh u || isLow u) = false) (xs ys : Str) :
    toChars (xs ++ u :: ys) = toChars xs ++ unitChar u :: toChars ys := by
  have hu := Bool.or_eq_false_iff.mp h
  have hcons : toChars (u :: ys) = unitChar u :: toChars ys := by
    cases ys with
    | nil => rfl
    | cons v ys => rw [toChars, hu.1, Bool.false_and, if_neg (by decide)]
  induction xs using toChars.induct with
  | case1 => exact hcons
  | case2 v =>
    change toChars (v :: u :: ys) = unitChar v :: unitChar u :: toChars ys
    rw [toChars, hu.2, Bool.and_false, if_neg (by decide), hcons]
  | case3 hi lo us hpair ih =>
    rw [List.cons_append, List.cons_append, toChars, if_pos hpair, ih, toChars, if_pos hpair,
      List.cons_append]
  | case4 hi lo us hpair ih =>
    rw [List.cons_append] at ih
    rw [List.cons_append, List.cons_append, toChars, if_neg hpair, ih, toChars, if_neg hpair,
      List.cons_append]

/-- Texts with the same bytes have the same characters. -/
theorem bytesOf_eq_iff {s t : Str} : bytesOf s = bytesOf t ↔ toChars s = toChars t := by
  rw [bytesOf, bytesOf, utf8_inj, String.ofList_inj]

theorem eq_of_unitChar {u : UInt16} (h : unitChar u ≠ '\uFFFD') :
    u = UInt16.ofNat (unitChar u).toNat := by
  rw [unitChar] at h ⊢
  split_ifs at h ⊢ with hhalf
  · exact absurd rfl h
  · rw [Bool.or_eq_true, not_or, Bool.not_eq_true, Bool.not_eq_true] at hhalf
    rw [(unitsOf_ofNat hhalf.1 hhalf.2).2, UInt16.ofNat_toNat]

/-- Characters that are no replacement tell the text. -/
theorem flatMap_toChars {k : Str} (h : '\uFFFD' ∉ toChars k) : (toChars k).flatMap unitsOf = k := by
  have hunit : ∀ {u : UInt16}, '\uFFFD' ≠ unitChar u → unitsOf (unitChar u) = [u] := by
    intro u hu
    rw [unitChar] at hu ⊢
    split_ifs at hu ⊢ with hhalf
    · exact absurd rfl hu
    · rw [Bool.or_eq_true, not_or, Bool.not_eq_true, Bool.not_eq_true] at hhalf
      exact (unitsOf_ofNat hhalf.1 hhalf.2).1
  induction k using toChars.induct with
  | case1 => rfl
  | case2 u =>
    rw [toChars, List.mem_singleton] at h
    rw [toChars, List.flatMap_singleton, hunit h]
  | case3 hi lo us hpair ih =>
    rw [toChars, if_pos hpair, List.mem_cons, not_or] at h
    rw [Bool.and_eq_true] at hpair
    rw [toChars, if_pos (Bool.and_eq_true _ _ ▸ hpair), List.flatMap_cons, ih h.2,
      (unitsOf_pairChar hpair.1 hpair.2).1]
    rfl
  | case4 hi lo us hpair ih =>
    rw [toChars, if_neg hpair, List.mem_cons, not_or] at h
    rw [toChars, if_neg hpair, List.flatMap_cons, ih h.2, hunit h.1]
    rfl

/-- A first character that is one code unit is the first code unit. -/
theorem head_of_toChars {k : Str} {c : Char} {cs : List Char} (h : toChars k = c :: cs)
    (hc : c.toNat < 0x10000) (hreplaced : c ≠ '\uFFFD') : ∃ us, k = UInt16.ofNat c.toNat :: us := by
  cases k with
  | nil => cases h
  | cons u us =>
    refine ⟨us, congrArg (· :: us) ?_⟩
    have hunit : unitChar u = c → u = UInt16.ofNat c.toNat := by
      rintro rfl
      exact eq_of_unitChar hreplaced
    cases us with
    | nil => exact hunit (List.cons.inj h).1
    | cons v us =>
      rw [toChars] at h
      split_ifs at h with hpair
      · rw [Bool.and_eq_true] at hpair
        have hlarge := (unitsOf_pairChar hpair.1 hpair.2).2
        rw [(List.cons.inj h).1] at hlarge
        omega
      · exact hunit (List.cons.inj h).1

/-! ## Reading values -/

/-- `v.name`, for a name that no built-in object has; `none` is `undefined`. -/
def Value.get? : Value → String → Option Value
  | .object ms, name => ms.lookup (ofString name)
  | _, _ => none

/-- `v === s` for a text `s`. -/
def isText (v : Option Value) (s : String) : Bool :=
  match v with
  | some (.string t) => t == ofString s
  | _ => false

theorem isText_iff {v : Option Value} {s : String} :
    isText v s = true ↔ v = some (.string (ofString s)) := by
  unfold isText
  constructor
  · intro h
    split at h
    · rw [beq_iff_eq.mp h]
    · cases h
  · rintro rfl
    exact beq_self_eq_true _

/-- `v === x` for a number `x`. -/
def isNumber (v : Option Value) (x : Numeric) : Bool :=
  match v with
  | some (.number y) => y == x
  | _ => false

/-- `Boolean(v)`. -/
def truthy : Option Value → Bool
  | none | some .null => false
  | some (.bool b) => b
  | some (.number .nan) => false
  | some (.number (.infinity _)) => true
  | some (.number (.finite x)) => x.val ≠ 0
  | some (.string s) => s ≠ []
  | some (.array _) | some (.object _) => true

theorem exists_of_truthy {v : Option Value} (h : truthy v = true) : ∃ w, v = some w := by
  cases v with
  | none => cases h
  | some w => exact ⟨w, rfl⟩

mutual

/-- `String(v)`, or `none` where it throws: for an object that has its own `toString`. -/
def Value.text : Value → Option Str
  | .null => some (ofString "null")
  | .bool true => some (ofString "true")
  | .bool false => some (ofString "false")
  | .number x => some (ofString (String.ofList x.text))
  | .string s => some s
  | .array xs => (elementTexts xs).map ((ofString ",").intercalate ·)
  | .object ms =>
    if (ms.lookup (ofString "toString")).isSome then none else some (ofString "[object Object]")

/-- The texts that `join` puts between commas. -/
def elementTexts : List Value → Option (List Str)
  | [] => some []
  | .null :: xs => (elementTexts xs).map ([] :: ·)
  | x :: xs => do
    let t ← x.text
    let ts ← elementTexts xs
    return t :: ts

end

/-- The text of a value in a template. -/
def shown : Option Value → Option Str
  | none => some (ofString "undefined")
  | some v => v.text

/-- `${v}`. -/
def template (v : Option Value) : Except Error Str :=
  match shown v with
  | some t => .ok t
  | none => .error .typeError

theorem template_of_none {v : Option Value} (h : shown v = none) :
    template v = .error .typeError := by
  rw [template, h]

theorem template_of_some {v : Option Value} {t : Str} (h : shown v = some t) :
    template v = .ok t := by
  rw [template, h]

/-! ## `BigInt(..)` and `Number(..)` -/

/-- A text as it is read for a number: half of a character is no part of one. -/
def plain (s : Str) : String := String.ofList (toChars s)

@[simp] theorem plain_ofString (s : String) : plain (ofString s) = s := by
  rw [plain, toChars_ofString, String.ofList_toList]

/-- `BigInt(v)`. -/
def toBigInt : Option Value → Except Error ℤ
  | none | some .null => .error .typeError
  | some (.bool b) => .ok (if b then 1 else 0)
  | some (.number x) =>
    match x.toWhole with
    | some n => .ok n.val
    | none => .error .rangeError
  | some v =>
    match v.text with
    | some t => bigIntOfText (plain t)
    | none => .error .typeError

/-- An array or an object is read through its text. -/
theorem toBigInt_of_compound {v : Value} (hv : (∃ xs, v = .array xs) ∨ ∃ ms, v = .object ms) :
    toBigInt (some v) = v.text.elim (.error .typeError) fun t => bigIntOfText (plain t) := by
  rcases hv with ⟨xs, rfl⟩ | ⟨ms, rfl⟩ <;>
  · rw [toBigInt]
    · split <;> simp_all
    all_goals
      intros
      contradiction

/-- What `BigInt(..)` reads has a text, and that is what it reads, unless for a boolean or a
number. -/
theorem template_of_toBigInt {v : Option Value} {n : ℤ} (h : toBigInt v = .ok n) :
    ∃ t, template v = .ok t ∧ (bigIntOfText (plain t) = .ok n ∨
      (∃ b, v = some (.bool b)) ∨ ∃ x, v = some (.number x)) := by
  have hcompound : ∀ {w : Value}, toBigInt (some w) =
      w.text.elim (.error .typeError) (fun t => bigIntOfText (plain t)) →
      toBigInt (some w) = .ok n →
      ∃ t, template (some w) = .ok t ∧ bigIntOfText (plain t) = .ok n := by
    intro w heq hn
    rw [heq] at hn
    cases ht : w.text with
    | none =>
      rw [ht] at hn
      cases hn
    | some t =>
      rw [ht] at hn
      exact ⟨t, @template_of_some (some _) _ ht, hn⟩
  rcases v with _ | v
  · cases h
  cases v with
  | null => cases h
  | bool b => cases b <;> exact ⟨_, rfl, .inr (.inl ⟨_, rfl⟩)⟩
  | number x => exact ⟨_, rfl, .inr (.inr ⟨x, rfl⟩)⟩
  | string s => exact ⟨s, rfl, .inl h⟩
  | array xs =>
    obtain ⟨t, ht, hread⟩ := hcompound (toBigInt_of_compound (.inl ⟨xs, rfl⟩)) h
    exact ⟨t, ht, .inl hread⟩
  | object ms =>
    obtain ⟨t, ht, hread⟩ := hcompound (toBigInt_of_compound (.inr ⟨ms, rfl⟩)) h
    exact ⟨t, ht, .inl hread⟩

/-- `Number(v)`. -/
def toNumber : Option Value → Except Error Numeric
  | none => .ok .nan
  | some .null => .ok (.ofRat 0)
  | some (.bool b) => .ok (.ofRat (if b then 1 else 0))
  | some (.number x) => .ok x
  | some v =>
    match v.text with
    | some t => .ok (stringToNumber (plain t))
    | none => .error .typeError

example : toBigInt (some (.array [.string (ofString " 0x1F ")])) = .ok 31 := by decide +kernel

/-! ## `JSON.parse` -/

/-- A key that is an array index in its canonical form. -/
def indexOf? (k : Str) : Option ℕ :=
  let ds := toChars k
  let n := Nat.ofDigitChars 10 ds 0
  if ds.all Char.isDigit ∧ WholeDigits ds ∧ n < 2 ^ 32 - 1 then some n else none

/-- The members in the order the engine lists them: indices first, by their size. -/
def listed (ms : List (Str × Value)) : List (Str × Value) :=
  (ms.filter fun m => (indexOf? m.1).isSome).insertionSort
      (fun m n => (indexOf? m.1).getD 0 ≤ (indexOf? n.1).getD 0) ++
    ms.filter fun m => (indexOf? m.1).isNone

/-- A key that is there already keeps its place. -/
def setMember (ms : List (Str × Value)) (k : Str) (x : Value) : List (Str × Value) :=
  if k ∈ ms.map Prod.fst then ms.map fun m => if m.1 = k then (k, x) else m else ms ++ [(k, x)]

mutual

/-- The value that is made of what a text spells: the last one of a repeated key counts. -/
def Value.assembled : Value → Value
  | .array xs => .array (assembledElements xs)
  | .object ms => .object (listed (assembledMembers [] ms))
  | v => v

def assembledElements : List Value → List Value
  | [] => []
  | x :: xs => x.assembled :: assembledElements xs

/-- The members that follow those set so far. -/
def assembledMembers (set : List (Str × Value)) : List (Str × Value) → List (Str × Value)
  | [] => set
  | (k, x) :: ms => assembledMembers (setMember set k x.assembled) ms

end

/-- `JSON.parse`, or `none` where it throws. -/
def jsonParse (s : String) : Option Value := (readText s.toList).map Value.assembled

example : (jsonParse "\x7b\"b\": 1, \"10\": [1e999], \"2\": null, \"b\": \"\\ud83d\"\x7d").map
    (fun v => String.ofList v.write) =
      some "\x7b\"2\":null,\"10\":[null],\"b\":\"\\ud83d\"\x7d" := by decide +kernel

/-- A code unit as it can be spelled in JSON. A half of a character is spelled by its code, which
is what it stands for inside quotes; behind a backslash it is no escape. -/
def spelledUnit (escaped : Bool) (u : UInt16) : List Char :=
  if isHigh u || isLow u then
    if escaped then ['\x00'] else '\\' :: 'u' :: Nat.toDigits 16 u.toNat
  else [Char.ofNat u.toNat]

/-- A text as it can be spelled. `escaped` holds behind a backslash that begins an escape. -/
def spelled (escaped : Bool) : Str → List Char
  | [] => []
  | [u] => spelledUnit escaped u
  | hi :: lo :: us =>
    if isHigh hi && isLow lo then pairChar hi lo :: spelled false us
    else
      spelledUnit escaped hi ++ spelled (!escaped && unitChar hi == '\\') (lo :: us)

/-- `JSON.parse` of a text in which halves of characters may stand alone. -/
def parseText (s : Str) : Option Value := jsonParse (String.ofList (spelled false s))

theorem spelledUnit_of_whole {u : UInt16} (h : (isHigh u || isLow u) = false) (escaped : Bool) :
    spelledUnit escaped u = [unitChar u] := by
  rw [spelledUnit, unitChar, h]
  rfl

theorem spelled_ofString (escaped : Bool) (s : String) :
    spelled escaped (ofString s) = s.toList := by
  rw [ofString]
  induction s.toList generalizing escaped with
  | nil => rfl
  | cons c cs ih =>
    rw [List.flatMap_cons]
    rcases unitsOf_cases c with ⟨u, hunits, hhalf, hchar⟩ | ⟨hi, lo, hunits, hpair, hchar⟩
    · rw [hunits, List.singleton_append]
      cases hrest : cs.flatMap unitsOf with
      | nil =>
        have hcs := ih false
        rw [hrest] at hcs
        rw [spelled, spelledUnit_of_whole hhalf, hchar, ← hcs]
        rfl
      | cons v vs =>
        rw [spelled, spelledUnit_of_whole hhalf, ← hrest, ih, hchar, List.singleton_append]
        rw [Bool.or_eq_false_iff] at hhalf
        rw [hhalf.1, Bool.false_and, if_neg (by decide)]
    · rw [hunits, List.cons_append, List.singleton_append, spelled, if_pos hpair, hchar, ih]

/-- On well-formed texts this is `jsonParse`. -/
theorem parseText_ofString (s : String) : parseText (ofString s) = jsonParse s := by
  rw [parseText, spelled_ofString, String.ofList_toList]

/-! ## Members of what is parsed -/

variable {α β : Type}

theorem lookup_eq_some_iff {ms : List (Str × α)} (h : (ms.map Prod.fst).Nodup) {k : Str} {x : α} :
    ms.lookup k = some x ↔ (k, x) ∈ ms := by
  induction ms with
  | nil => exact iff_of_false (by rintro ⟨⟩) List.not_mem_nil
  | cons m ms ih =>
    obtain ⟨j, y⟩ := m
    rw [List.map_cons, List.nodup_cons] at h
    rw [List.lookup_cons, List.mem_cons, Prod.mk.injEq]
    by_cases hk : k = j
    · subst hk
      have hnot : (k, x) ∉ ms := fun hmem => h.1 (List.mem_map.mpr ⟨_, hmem, rfl⟩)
      rw [beq_self_eq_true]
      simp only [Option.some.injEq, true_and, hnot, or_false, eq_comm]
    · rw [beq_false_of_ne hk, ih h.2]
      simp only [hk, false_and, false_or]

/-- The order of distinct members does not matter to a read. -/
theorem lookup_of_perm {ms ns : List (Str × α)} (h : (ms.map Prod.fst).Nodup) (hperm : ns.Perm ms)
    (k : Str) : ns.lookup k = ms.lookup k := by
  have hns : (ns.map Prod.fst).Nodup := (hperm.map Prod.fst).nodup_iff.mpr h
  refine Option.ext fun x => ?_
  rw [lookup_eq_some_iff hns, lookup_eq_some_iff h, hperm.mem_iff]

theorem lookup_map_values (f : α → β) (ms : List (Str × α)) (k : Str) :
    (ms.map fun m => (m.1, f m.2)).lookup k = (ms.lookup k).map f := by
  induction ms with
  | nil => rfl
  | cons m ms ih =>
    rw [List.map_cons, List.lookup_cons, List.lookup_cons]
    cases k == m.1 with
    | true => rfl
    | false => exact ih

theorem perm_listed (ms : List (Str × Value)) : (listed ms).Perm ms := by
  have hnone : (ms.filter fun m => (indexOf? m.1).isNone) =
      ms.filter fun m => !(indexOf? m.1).isSome :=
    List.filter_congr fun m _ => (Option.not_isSome _).symm
  rw [listed, hnone]
  exact ((List.perm_insertionSort _ _).append_right _).trans (List.filter_append_perm _ ms)

theorem assembledMembers_eq {set ms : List (Str × Value)}
    (h : ((set ++ ms).map Prod.fst).Nodup) :
    assembledMembers set ms = set ++ ms.map fun m => (m.1, m.2.assembled) := by
  induction ms generalizing set with
  | nil => rw [assembledMembers, List.map_nil, List.append_nil]
  | cons m ms ih =>
    obtain ⟨k, x⟩ := m
    have hnew : k ∉ set.map Prod.fst := by
      intro hk
      rw [List.map_append, List.nodup_append] at h
      exact h.2.2 k hk k List.mem_cons_self rfl
    rw [assembledMembers, setMember, if_neg hnew, ih, List.append_assoc]
    · rfl
    · rw [List.append_assoc, List.singleton_append, List.map_append, List.map_cons]
      rwa [List.map_append, List.map_cons] at h

/-- A member of an object with distinct keys, after `JSON.parse`. -/
theorem get?_assembled {ms : List (Str × Value)} (h : (ms.map Prod.fst).Nodup) (name : String) :
    (Value.object ms).assembled.get? name =
      ((Value.object ms).get? name).map Value.assembled := by
  have hkeys : ((ms.map fun m => (m.1, m.2.assembled)).map Prod.fst).Nodup := by
    rw [List.map_map]
    exact h
  rw [Value.assembled, assembledMembers_eq (by rwa [List.nil_append]), List.nil_append, Value.get?,
    Value.get?, lookup_of_perm hkeys (perm_listed _), lookup_map_values]

/-- `JSON.parse` of what `JSON.stringify` wrote. -/
theorem jsonParse_write (v : Value) :
    jsonParse (String.ofList v.write) = some v.nulled.assembled := by
  rw [jsonParse, String.toList_ofList, ← write_nulled, readText_write (nulled_finite v)]
  rfl

theorem get?_parsed {ms : List (Str × Value)} (h : (ms.map Prod.fst).Nodup) (name : String) :
    (Value.object ms).nulled.assembled.get? name =
      ((Value.object ms).get? name).map fun v => v.nulled.assembled := by
  have hkeys : ((nulledMembers ms).map Prod.fst).Nodup := by
    rw [nulledMembers_eq, List.map_map]
    exact h
  rw [Value.nulled, get?_assembled hkeys, Value.get?, Value.get?, nulledMembers_eq,
    lookup_map_values, Option.map_map]
  rfl

/-! ## Setting a member -/

theorem lookup_setMember (ms : List (Str × Value)) (k : Str) (x : Value) :
    (setMember ms k x).lookup k = some x := by
  rw [setMember]
  split_ifs with h
  · induction ms with
    | nil => cases h
    | cons m ms ih =>
      rw [List.map_cons]
      by_cases hm : m.1 = k
      · rw [if_pos hm, List.lookup_cons_self]
      · rw [if_neg hm, List.lookup_cons, beq_false_of_ne (Ne.symm hm)]
        rw [List.map_cons, List.mem_cons] at h
        exact ih (h.resolve_left (Ne.symm hm))
  · induction ms with
    | nil => exact List.lookup_cons_self
    | cons m ms ih =>
      rw [List.map_cons, List.mem_cons, not_or] at h
      rw [List.cons_append, List.lookup_cons, beq_false_of_ne h.1]
      exact ih h.2

theorem lookup_setMember_of_ne {ms : List (Str × Value)} {j k : Str} (h : j ≠ k) (x : Value) :
    (setMember ms k x).lookup j = ms.lookup j := by
  rw [setMember]
  split_ifs with hmem
  · clear hmem
    induction ms with
    | nil => rfl
    | cons m ms ih =>
      rw [List.map_cons, List.lookup_cons, List.lookup_cons]
      by_cases hm : m.1 = k
      · rw [if_pos hm, hm, beq_false_of_ne h]
        exact ih
      · rw [if_neg hm]
        cases j == m.1 with
        | true => rfl
        | false => exact ih
  · rw [List.lookup_append, List.lookup_cons, beq_false_of_ne h]
    exact Option.or_none

end Ecma
