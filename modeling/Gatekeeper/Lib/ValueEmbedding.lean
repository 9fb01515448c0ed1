import Gatekeeper.Lib.EcmaOps
import Gatekeeper.Lib.WholeText

/-!
# Values with well-formed texts as values with code units

The values of `Js`, whose texts are well-formed, are embedded in those of `Ecma`, whose texts are
lists of code units. The operations of the language agree on a value and on what it becomes.
-/

namespace Js

open Ecma (ofString Str)

/-! ## The embedding -/

mutual

/-- The value by its code units and the values of its numbers. -/
def Value.embed : Value → Ecma.Value
  | .undefined | .null => .null
  | .bool b => .bool b
  | .number x => .number x.toNum
  | .string s => .string (ofString s)
  | .array xs => .array (embedElements xs)
  | .object ms => .object (embedMembers ms)

def embedElements : List Value → List Ecma.Value
  | [] => []
  | x :: xs => x.embed :: embedElements xs

def embedMembers : List (String × Value) → List (Str × Ecma.Value)
  | [] => []
  | (k, x) :: ms => (ofString k, x.embed) :: embedMembers ms

end

theorem embedElements_eq (xs : List Value) : embedElements xs = xs.map Value.embed := by
  induction xs with
  | nil => rfl
  | cons x xs ih => rw [embedElements, ih, List.map_cons]

theorem embedMembers_eq (ms : List (String × Value)) :
    embedMembers ms = ms.map fun m => (ofString m.1, m.2.embed) := by
  induction ms with
  | nil => rfl
  | cons m ms ih => rw [embedMembers, ih, List.map_cons]

/-- `undefined` is no value of JSON. -/
def Value.embed? : Value → Option Ecma.Value
  | .undefined => none
  | v => some v.embed

/-- A number that is known by its text has the text of its value, which is not whole. -/
def Number.Spelled : Number → Prop
  | whole _ => True
  | other t => (stringToNumber t).text = t.toList ∧ (stringToNumber t).toWhole = none

mutual

/-- A value that `JSON.parse` makes: nothing in it is `undefined`. -/
def Value.IsJson : Value → Prop
  | .undefined => False
  | .number x => x.Spelled
  | .array xs => allJson xs
  | .object ms => allJsonMembers ms
  | _ => True

def allJson : List Value → Prop
  | [] => True
  | x :: xs => x.IsJson ∧ allJson xs

def allJsonMembers : List (String × Value) → Prop
  | [] => True
  | (_, x) :: ms => x.IsJson ∧ allJsonMembers ms

end

theorem allJson_iff {xs : List Value} : allJson xs ↔ ∀ x ∈ xs, x.IsJson := by
  induction xs with
  | nil => exact iff_of_true trivial (List.forall_mem_nil _)
  | cons x xs ih => rw [allJson, ih, List.forall_mem_cons]

theorem allJsonMembers_iff {ms : List (String × Value)} :
    allJsonMembers ms ↔ ∀ m ∈ ms, m.2.IsJson := by
  induction ms with
  | nil => exact iff_of_true trivial (List.forall_mem_nil _)
  | cons m ms ih => rw [allJsonMembers, ih, List.forall_mem_cons]

/-- What is read off such a value. -/
def Value.IsRead (v : Value) : Prop := v = undefined ∨ v.IsJson

variable {v w : Value}

theorem Value.IsJson.isRead (h : v.IsJson) : v.IsRead := .inr h

theorem embed?_of_isJson (h : v.IsJson) : v.embed? = some v.embed := by
  cases v with
  | undefined => exact h.elim
  | _ => rfl

theorem text_toNum {x : Number} (h : x.Spelled) : x.toNum.text = x.text.toList := by
  cases x with
  | whole n => exact text_toFinite n
  | other t => exact h.1

/-! ## Property reads -/

theorem lookup_embedMembers (ms : List (String × Value)) (name : String) :
    (embedMembers ms).lookup (ofString name) = (ms.lookup name).map Value.embed := by
  induction ms with
  | nil => rfl
  | cons m ms ih =>
    obtain ⟨k, x⟩ := m
    rw [embedMembers, List.lookup_cons, List.lookup_cons]
    by_cases hk : name = k
    · rw [hk, beq_self_eq_true, beq_self_eq_true]
      rfl
    · rw [Ecma.ofString_beq hk, beq_false_of_ne hk]
      exact ih

theorem isJson_of_lookup {ms : List (String × Value)} (h : allJsonMembers ms) {name : String}
    {x : Value} (hx : ms.lookup name = some x) : x.IsJson := by
  induction ms with
  | nil => cases hx
  | cons m ms ih =>
    obtain ⟨k, y⟩ := m
    rw [List.lookup_cons] at hx
    cases hk : name == k with
    | true =>
      rw [hk] at hx
      exact Option.some.inj hx ▸ h.1
    | false =>
      rw [hk] at hx
      exact ih h.2 hx

theorem isRead_get? (h : v.IsRead) (name : String) : (v.get? name).IsRead := by
  rcases h with rfl | h
  · exact .inl rfl
  cases v with
  | object ms =>
    show ((ms.lookup name).getD .undefined).IsRead
    cases hx : ms.lookup name with
    | none => exact .inl rfl
    | some x => exact .inr (isJson_of_lookup h hx)
  | _ => exact .inl rfl

/-- A member of what a value becomes is what the member becomes. -/
theorem embed?_get? (h : v.IsRead) (name : String) :
    (v.get? name).embed? = v.embed?.bind fun w => w.get? name := by
  rcases h with rfl | h
  · rfl
  cases v with
  | object ms =>
    show ((ms.lookup name).getD .undefined).embed? = (embedMembers ms).lookup (ofString name)
    rw [lookup_embedMembers]
    cases hx : ms.lookup name with
    | none => rfl
    | some x => exact embed?_of_isJson (isJson_of_lookup h hx)
  | undefined => exact h.elim
  | _ => rfl

theorem get?_embed (h : v.IsJson) (name : String) :
    v.embed.get? name = (v.get? name).embed? := by
  rw [embed?_get? h.isRead, embed?_of_isJson h]
  rfl

theorem get_eq_get? (h : v.IsJson) (hv : v ≠ .null) (name : String) :
    v.get name = .ok (v.get? name) := by
  cases v with
  | undefined => exact h.elim
  | null => exact absurd rfl hv
  | _ => rfl

theorem isText_embed? (v : Value) (s : String) : Ecma.isText v.embed? s = v.isString s := by
  cases v with
  | string t =>
    show (ofString t == ofString s) = (t == s)
    by_cases h : t = s
    · rw [h, beq_self_eq_true, beq_self_eq_true]
    · rw [Ecma.ofString_beq h, beq_false_of_ne h]
  | _ => rfl

/-! ## Truthiness -/

theorem stringToNumber_nan : stringToNumber "NaN" = .nan := by decide +kernel

/-- A number that is known by its text is `NaN` when the text says so. -/
theorem truthy_other {t : String} (h : (Number.other t).Spelled) :
    Ecma.truthy (some (.number (stringToNumber t))) = decide (t ≠ "NaN") := by
  obtain ⟨htext, hwhole⟩ := h
  have hnan : stringToNumber t = .nan ↔ t = "NaN" := by
    constructor
    · intro hx
      rw [hx] at htext
      exact String.toList_inj.mp htext.symm
    · rintro rfl
      exact stringToNumber_nan
  cases hx : stringToNumber t with
  | nan =>
    rw [decide_eq_false (not_not.mpr (hnan.mp hx))]
    rfl
  | infinity s =>
    have hne : t ≠ "NaN" := fun ht => by
      rw [hnan.mpr ht] at hx
      cases hx
    rw [decide_eq_true hne]
    rfl
  | finite x =>
    have hne : t ≠ "NaN" := fun ht => by
      rw [hnan.mpr ht] at hx
      cases hx
    rw [decide_eq_true hne]
    refine decide_eq_true fun hzero => ?_
    -- zero is whole
    rw [hx, Numeric.toWhole, dif_pos (by rw [hzero]; rfl)] at hwhole
    cases hwhole

theorem truthy_embed? (h : v.IsRead) : Ecma.truthy v.embed? = v.truthy := by
  rcases h with rfl | h
  · rfl
  cases v with
  | undefined => exact h.elim
  | number x =>
    cases x with
    | whole n =>
      show decide ((n.val : ℚ) ≠ 0) = decide (n.val ≠ 0)
      exact decide_eq_decide.mpr (not_congr Int.cast_eq_zero)
    | other t => exact truthy_other h
  | string s =>
    show decide (ofString s ≠ []) = decide (s ≠ "")
    refine decide_eq_decide.mpr (not_congr ⟨fun hs => ?_, fun hs => by rw [hs]; rfl⟩)
    exact Ecma.ofString_injective hs
  | _ => rfl

/-! ## `String(..)` -/

theorem ofString_intercalate (s : String) (ts : List String) :
    ofString (s.intercalate ts) = (ofString s).intercalate (ts.map ofString) := by
  induction ts with
  | nil => rfl
  | cons t ts ih =>
    cases ts with
    | nil => rw [String.intercalate_singleton, List.map_singleton, List.intercalate_singleton]
    | cons u ts =>
      rw [String.intercalate_cons_cons, Ecma.ofString_append, Ecma.ofString_append, ih]
      simp only [List.map_cons, List.intercalate_cons_cons]

theorem isSome_lookup_embedMembers (ms : List (String × Value)) (name : String) :
    ((embedMembers ms).lookup (ofString name)).isSome = (ms.lookup name).isSome := by
  rw [lookup_embedMembers, Option.isSome_map]

/-- What is thrown where there is no text. -/
def orTypeError {α : Type} : Option α → Except Error α
  | some a => .ok a
  | none => .error .typeError

theorem orTypeError_map {α β : Type} (o : Option α) (f : α → β) :
    orTypeError (o.map f) = (orTypeError o).map f := by
  cases o <;> rfl

theorem orTypeError_bind {α β : Type} (o : Option α) (f : α → Option β) :
    orTypeError (o >>= f) = orTypeError o >>= fun a => orTypeError (f a) := by
  cases o <;> rfl

theorem elim_orTypeError {α β : Type} (o : Option α) (f : α → Except Error β) :
    o.elim (.error .typeError) f = orTypeError o >>= f := by
  cases o <;> rfl

theorem map_bind {α β γ : Type} (x : Except Error α) (f : α → β) (g : β → Except Error γ) :
    (x.map f >>= g) = x >>= fun a => g (f a) := by
  cases x <;> rfl

theorem map_map {α β γ : Type} (x : Except Error α) (f : α → β) (g : β → γ) :
    (x.map f).map g = x.map fun a => g (f a) := by
  cases x <;> rfl

theorem elementTexts_cons {x : Value} (hx : x.IsJson) (hx' : x ≠ .null) (xs : List Value) :
    elementTexts (x :: xs) = x.text >>= fun t => (elementTexts xs).map (t :: ·) := by
  cases x with
  | undefined => exact hx.elim
  | null => exact absurd rfl hx'
  | _ => rfl

theorem elementTexts_embed_cons {x : Value} (hx : x.IsJson) (hx' : x ≠ .null)
    (ys : List Ecma.Value) :
    Ecma.elementTexts (x.embed :: ys) =
      x.embed.text >>= fun t => (Ecma.elementTexts ys).map (t :: ·) := by
  simp only [Option.map_eq_bind]
  cases x with
  | undefined => exact hx.elim
  | null => exact absurd rfl hx'
  | _ => rfl

mutual

theorem text_embed : ∀ {v : Value}, v.IsJson → orTypeError v.embed.text = v.text.map ofString
  | .undefined, h => h.elim
  | .null, _ | .bool true, _ | .bool false, _ | .string _, _ => rfl
  | .number x, h => by
    rw [Value.embed, Ecma.Value.text, Value.text, text_toNum h, String.ofList_toList]
    rfl
  | .array xs, h => by
    rw [Value.embed, Ecma.Value.text, Value.text, orTypeError_map, elementTexts_embed h, map_map,
      map_map]
    simp only [ofString_intercalate]
  | .object ms, _ => by
    rw [Value.embed, Ecma.Value.text, Value.text, isSome_lookup_embedMembers]
    split_ifs <;> rfl

theorem elementTexts_embed : ∀ {xs : List Value}, allJson xs →
    orTypeError (Ecma.elementTexts (embedElements xs)) =
      (elementTexts xs).map (List.map ofString)
  | [], _ => rfl
  | x :: xs, h => by
    have hrest := elementTexts_embed h.2
    by_cases hx : x = .null
    -- `null` is shown as no text
    · rw [hx, embedElements, Value.embed, Ecma.elementTexts, elementTexts, orTypeError_map, hrest,
        map_map, map_map]
      rfl
    · have htext := text_embed h.1
      rw [embedElements, elementTexts_embed_cons h.1 hx, elementTexts_cons h.1 hx,
        orTypeError_bind, htext]
      cases x.text with
      | error e => rfl
      | ok t =>
        show orTypeError ((Ecma.elementTexts (embedElements xs)).map _) =
          ((elementTexts xs).map _).map _
        rw [orTypeError_map, hrest, map_map, map_map]
        rfl

end

/-- A value has the same text in a template. -/
theorem template_embed? (h : v.IsRead) : Ecma.template v.embed? = v.text.map ofString := by
  rcases h with rfl | h
  · rfl
  rw [embed?_of_isJson h, ← text_embed h, Ecma.template, Ecma.shown]
  cases v.embed.text <;> rfl

/-! ## `BigInt(..)` and `Number(..)` -/

theorem toWhole_toFinite (n : Whole) : (Numeric.finite n.toFinite).toWhole = some n := by
  have hden : n.toFinite.val.den = 1 := Rat.den_intCast n.val
  rw [Numeric.toWhole, dif_pos hden]
  rfl

/-- An array or an object. -/
def Value.IsCompound (v : Value) : Prop := (∃ xs, v = array xs) ∨ ∃ ms, v = object ms

theorem embed_of_isCompound (hv : v.IsCompound) :
    (∃ xs, v.embed = .array xs) ∨ ∃ ms, v.embed = .object ms := by
  rcases hv with ⟨xs, rfl⟩ | ⟨ms, rfl⟩
  · exact .inl ⟨_, rfl⟩
  · exact .inr ⟨_, rfl⟩

/-- Arrays and objects are read through their texts. -/
theorem toBigInt_of_isCompound (h : v.IsJson) (hv : v.IsCompound) :
    Ecma.toBigInt v.embed? = v.toBigInt := by
  have hjs : v.toBigInt = v.text >>= bigIntOfText := by
    rcases hv with ⟨xs, rfl⟩ | ⟨ms, rfl⟩ <;> rfl
  rw [embed?_of_isJson h, Ecma.toBigInt_of_compound (embed_of_isCompound hv), hjs,
    elim_orTypeError, text_embed h, map_bind]
  simp only [Ecma.plain_ofString]

theorem toNumber_of_isCompound (h : v.IsJson) (hv : v.IsCompound) :
    Ecma.toNumber v.embed? = v.toNumber := by
  have hecma : Ecma.toNumber (some v.embed) = v.embed.text.elim (.error .typeError)
      fun t => .ok (stringToNumber (Ecma.plain t)) := by
    rcases embed_of_isCompound hv with ⟨ys, hy⟩ | ⟨ns, hn⟩
    · rw [hy, Ecma.toNumber]
      · cases (Ecma.Value.array ys).text <;> rfl
      all_goals
        intros
        contradiction
    · rw [hn, Ecma.toNumber]
      · cases (Ecma.Value.object ns).text <;> rfl
      all_goals
        intros
        contradiction
  have hjs : v.toNumber = v.text.map stringToNumber := by
    rcases hv with ⟨xs, rfl⟩ | ⟨ms, rfl⟩ <;> rfl
  rw [embed?_of_isJson h, hecma, hjs, elim_orTypeError, text_embed h, map_bind]
  simp only [Ecma.plain_ofString]
  cases v.text <;> rfl

theorem toBigInt_embed? (h : v.IsRead) : Ecma.toBigInt v.embed? = v.toBigInt := by
  rcases h with rfl | h
  · rfl
  cases v with
  | undefined => exact h.elim
  | number x =>
    cases x with
    | whole n =>
      show Ecma.toBigInt (some (.number (.finite n.toFinite))) = .ok n.val
      rw [Ecma.toBigInt, toWhole_toFinite]
    | other t =>
      show Ecma.toBigInt (some (.number (stringToNumber t))) = .error .rangeError
      rw [Ecma.toBigInt, h.2]
  | string s =>
    show bigIntOfText (Ecma.plain (ofString s)) = bigIntOfText s
    rw [Ecma.plain_ofString]
  | array xs => exact toBigInt_of_isCompound h (.inl ⟨xs, rfl⟩)
  | object ms => exact toBigInt_of_isCompound h (.inr ⟨ms, rfl⟩)
  | _ => rfl

theorem toNumber_embed? (h : v.IsRead) : Ecma.toNumber v.embed? = v.toNumber := by
  rcases h with rfl | h
  · rfl
  cases v with
  | undefined => exact h.elim
  | string s =>
    show Except.ok (stringToNumber (Ecma.plain (ofString s))) = .ok (stringToNumber s)
    rw [Ecma.plain_ofString]
  | array xs => exact toNumber_of_isCompound h (.inl ⟨xs, rfl⟩)
  | object ms => exact toNumber_of_isCompound h (.inr ⟨ms, rfl⟩)
  | _ => rfl

/-! ## `JSON.stringify` -/

theorem quoteUnits_cons {u : UInt16} (h : (Ecma.isHigh u || Ecma.isLow u) = false) (us : Str) :
    Ecma.quoteUnits (u :: us) = Ecma.quoteUnit u ++ Ecma.quoteUnits us := by
  cases us with
  | nil => rw [Ecma.quoteUnits, Ecma.quoteUnits, List.append_nil]
  | cons v us =>
    rw [Bool.or_eq_false_iff] at h
    rw [Ecma.quoteUnits, h.1, Bool.false_and, if_neg (by decide)]

theorem escapeChar_of_le {c : Char} (h : 0x10000 ≤ c.toNat) : Json.escapeChar c = [c] := by
  have hne : ∀ d : Char, d.toNat < 0x10000 → c ≠ d := by
    rintro d hd rfl
    omega
  rw [Json.escapeChar, if_neg (hne _ (by decide)), if_neg (hne _ (by decide)),
    if_neg (hne _ (by decide)), if_neg (hne _ (by decide)), if_neg (hne _ (by decide)),
    if_neg (hne _ (by decide)), if_neg (hne _ (by decide)), if_neg (by omega)]

theorem quoteUnits_unitsOf (c : Char) (us : Str) :
    Ecma.quoteUnits (Ecma.unitsOf c ++ us) = Json.escapeChar c ++ Ecma.quoteUnits us := by
  rcases Ecma.unitsOf_cases c with ⟨u, hunits, hhalf, hchar⟩ | ⟨hi, lo, hunits, hpair, hchar⟩
  · rw [hunits, List.singleton_append, quoteUnits_cons hhalf, Ecma.quoteUnit, hhalf,
      if_neg (by decide)]
    rw [Ecma.unitChar, hhalf, if_neg (by decide)] at hchar
    rw [hchar]
  · rw [hunits, List.cons_append, List.singleton_append, Ecma.quoteUnits, if_pos hpair]
    rw [Bool.and_eq_true] at hpair
    have hlarge := (Ecma.unitsOf_pairChar hpair.1 hpair.2).2
    rw [hchar] at hlarge
    rw [hchar, escapeChar_of_le hlarge]
    rfl

theorem quote_ofString (s : String) : Ecma.quote (ofString s) = Json.writeString s := by
  have hunits : ∀ cs : List Char,
      Ecma.quoteUnits (cs.flatMap Ecma.unitsOf) = cs.flatMap Json.escapeChar := by
    intro cs
    induction cs with
    | nil => rfl
    | cons c cs ih => rw [List.flatMap_cons, List.flatMap_cons, quoteUnits_unitsOf, ih]
  rw [Ecma.quote, Json.writeString, ofString, hunits]

/-- A number that has no text in JSON is known by its name. -/
theorem isFinite_of_spelled {t : String} (h : (Number.other t).Spelled) :
    (stringToNumber t).isFinite = false ↔ t = "NaN" ∨ t = "Infinity" ∨ t = "-Infinity" := by
  have htext := h.1
  constructor
  · intro hx
    cases hn : stringToNumber t with
    | nan =>
      rw [hn] at htext
      exact .inl (String.toList_inj.mp htext.symm)
    | infinity s =>
      rw [hn] at htext
      cases s with
      | false => exact .inr (.inl (String.toList_inj.mp htext.symm))
      | true => exact .inr (.inr (String.toList_inj.mp htext.symm))
    | finite x =>
      rw [hn] at hx
      cases hx
  · rintro (rfl | rfl | rfl) <;> decide +kernel

theorem writeNumber_toNum {x : Number} (h : x.Spelled) :
    Ecma.writeNumber x.toNum = (Value.number x).writeJson := by
  cases x with
  | whole n => exact text_toFinite n
  | other t =>
    rw [Value.writeJson, Number.toNum, Ecma.writeNumber, h.1]
    by_cases hx : (stringToNumber t).isFinite = true
    · rw [if_pos hx, if_neg]
      rw [← isFinite_of_spelled h, hx]
      decide
    · rw [if_neg hx, if_pos ((isFinite_of_spelled h).mp (Bool.not_eq_true _ ▸ hx))]

mutual

theorem write_embed : ∀ {v : Value}, v.IsJson → v.embed.write = v.writeJson
  | .undefined, h => h.elim
  | .null, _ | .bool true, _ | .bool false, _ => rfl
  | .number _, h => writeNumber_toNum h
  | .string s, _ => quote_ofString s
  | .array xs, h => by
    rw [Value.embed, Ecma.Value.write, Ecma.bracket, Value.writeJson, writeElements_embed h]
  | .object ms, h => by
    rw [Value.embed, Ecma.Value.write, Ecma.bracket, Value.writeJson, writeMembers_embed h]

theorem writeElements_embed : ∀ {xs : List Value}, allJson xs →
    [','].intercalate (Ecma.writeElements (embedElements xs)) ++ [']'] = writeElements xs
  | [], _ => rfl
  | [x], h => by
    rw [embedElements, embedElements, Ecma.writeElements, Ecma.writeElements,
      List.intercalate_singleton, writeElements, write_embed h.1]
  | x :: y :: xs, h => by
    have hrest := writeElements_embed h.2
    rw [embedElements, Ecma.writeElements] at hrest ⊢
    rw [embedElements, Ecma.writeElements, List.intercalate_cons_cons, writeElements,
      write_embed h.1, ← hrest, List.append_assoc, List.append_assoc, List.singleton_append]
    exact List.cons_ne_nil _ _

theorem writeMembers_embed : ∀ {ms : List (String × Value)}, allJsonMembers ms →
    [','].intercalate (Ecma.writeMembers (embedMembers ms)) ++ ['\x7d'] = writeMembers ms
  | [], _ => rfl
  | [(k, x)], h => by
    rw [embedMembers, embedMembers, Ecma.writeMembers, Ecma.writeMembers,
      List.intercalate_singleton, writeMembers, Ecma.writeMember, quote_ofString, write_embed h.1]
  | (k, x) :: (j, y) :: ms, h => by
    have hrest := writeMembers_embed h.2
    rw [embedMembers, Ecma.writeMembers] at hrest ⊢
    rw [embedMembers, Ecma.writeMembers, List.intercalate_cons_cons, writeMembers,
      Ecma.writeMember, quote_ofString, write_embed h.1, ← hrest, List.append_assoc,
      List.append_assoc, List.singleton_append]
    exact List.cons_ne_nil _ _

end

/-- What `JSON.stringify` writes. -/
theorem jsonText_embed (h : v.IsJson) : String.ofList v.embed.write = v.json := by
  rw [write_embed h]
  cases v with
  | undefined => exact h.elim
  | _ => rfl

theorem jsonElements_cons {x : Value} (h : x.IsJson) (xs : List Value) :
    jsonElements (x :: xs) = x.toJson :: jsonElements xs := by
  cases x with
  | undefined => exact h.elim
  | _ => rfl

theorem jsonMembers_cons {x : Value} (h : x.IsJson) (k : String) (ms : List (String × Value)) :
    jsonMembers ((k, x) :: ms) = (k, x.toJson) :: jsonMembers ms := by
  cases x with
  | undefined => exact h.elim
  | _ => rfl

mutual

/-- Only a value with `undefined` in it is written otherwise than it is made into JSON. -/
theorem writeJson_toJson : ∀ {v : Value}, v.IsJson → v.toJson.writeJson = v.writeJson
  | .undefined, h => h.elim
  | .null, _ | .bool _, _ | .number (.whole _), _ | .string _, _ => rfl
  | .number (.other t), _ => by
    rw [Value.toJson]
    split_ifs with ht
    · rw [Value.writeJson, Value.writeJson, if_pos ht]
    · rfl
  | .array xs, h => by
    rw [Value.toJson, Value.writeJson, Value.writeJson, writeElements_jsonElements h]
  | .object ms, h => by
    rw [Value.toJson, Value.writeJson, Value.writeJson, writeMembers_jsonMembers h]

theorem writeElements_jsonElements : ∀ {xs : List Value}, allJson xs →
    writeElements (jsonElements xs) = writeElements xs
  | [], _ => rfl
  | [x], h => by
    rw [jsonElements_cons h.1, jsonElements, writeElements, writeElements, writeJson_toJson h.1]
  | x :: y :: xs, h => by
    have hrest := writeElements_jsonElements h.2
    rw [jsonElements_cons h.2.1] at hrest
    rw [jsonElements_cons h.1, jsonElements_cons h.2.1]
    show x.toJson.writeJson ++ ',' :: writeElements (y.toJson :: jsonElements xs) = _
    rw [hrest, writeJson_toJson h.1]
    rfl

theorem writeMembers_jsonMembers : ∀ {ms : List (String × Value)}, allJsonMembers ms →
    writeMembers (jsonMembers ms) = writeMembers ms
  | [], _ => rfl
  | [(k, x)], h => by
    rw [jsonMembers_cons h.1, jsonMembers, writeMembers, writeMembers, writeJson_toJson h.1]
  | (k, x) :: (j, y) :: ms, h => by
    have hrest := writeMembers_jsonMembers h.2
    rw [jsonMembers_cons h.2.1] at hrest
    rw [jsonMembers_cons h.1, jsonMembers_cons h.2.1]
    show Json.writeString k ++ ':' :: x.toJson.writeJson ++
      ',' :: writeMembers ((j, y.toJson) :: jsonMembers ms) = _
    rw [hrest, writeJson_toJson h.1]
    rfl

end

theorem json_toJson (h : v.IsJson) : v.toJson.json = v.json := by
  have hwrite := writeJson_toJson h
  cases v with
  | undefined => exact h.elim
  | number x =>
    cases x with
    | whole n => rfl
    | other t =>
      rw [Value.toJson] at hwrite ⊢
      split_ifs at hwrite ⊢ with ht
      · exact congrArg String.ofList hwrite
      · rfl
  | array xs => exact congrArg String.ofList hwrite
  | object ms => exact congrArg String.ofList hwrite
  | _ => rfl

/-! ## Code units -/

theorem lt_of_mem_codeUnits {c : Char} {u : ℕ} (h : u ∈ codeUnits c) : u < 65536 := by
  have hvalid := c.valid
  have hnat : c.toNat = c.val.toNat := rfl
  rw [UInt32.isValidChar, Nat.isValidChar, ← hnat] at hvalid
  unfold codeUnits at h
  split_ifs at h with hc
  · rw [List.mem_singleton] at h
    omega
  · rw [List.mem_pair] at h
    omega

theorem ofString_eq (s : String) : ofString s = (utf16 s).map UInt16.ofNat := by
  rw [utf16, List.map_flatMap]
  rfl

theorem lt_of_mem_utf16 {s : String} {u : ℕ} (h : u ∈ utf16 s) : u < 65536 := by
  obtain ⟨c, -, hu⟩ := List.mem_flatMap.mp h
  exact lt_of_mem_codeUnits hu

theorem map_toNat_ofString (s : String) : (ofString s).map UInt16.toNat = utf16 s := by
  rw [ofString_eq, List.map_map]
  calc _ = (utf16 s).map id := List.map_congr_left fun u hu => by
        rw [Function.comp_apply, UInt16.toNat_ofNat', Nat.mod_eq_of_lt (lt_of_mem_utf16 hu), id]
    _ = utf16 s := List.map_id _

end Js
