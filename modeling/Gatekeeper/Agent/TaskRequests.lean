import Gatekeeper.Lib.EcmaOps
import Gatekeeper.Lib.JsValueTheorems

/-!
# Reading a request from a message

`requestFromMessage` of `a2a-server.mjs` takes the first thing in a message that it can read. It
passes over text that is not JSON, but not over JSON that is no object.
-/

namespace Gatekeeper.Agent

open Ecma
open Js (Error)

/-! ## The function -/

/-- `v && typeof v === "object"`. -/
def fromData : Option Value → Option Value
  | some (.array xs) => some (.array xs)
  | some (.object ms) => some (.object ms)
  | _ => none

/-- `JSON.parse(v)`, for a text `v` that parses. -/
def fromText : Option Value → Option Value
  | some (.string s) => parseText s
  | _ => none

/-- A member of `part?.content`. -/
def contentMember (part : Value) (name : String) : Option Value :=
  (part.get? "content").bind (·.get? name)

/-- What the body of the loop returns for a part. -/
def fromPart (part : Value) : Option Value :=
  let kind := contentMember part "$case"
  let value := contentMember part "value"
  (((if isText kind "data" then fromData value else none).or
    (if isText kind "text" then fromText value else none)).or
    (fromData (part.get? "data"))).or (fromText (part.get? "text"))

/-- The characters of a text, halves that stand alone included. -/
def codePoints : Str → List Str
  | [] => []
  | [u] => [[u]]
  | hi :: lo :: us =>
    if isHigh hi && isLow lo then [hi, lo] :: codePoints us else [hi] :: codePoints (lo :: us)

/-- `message?.parts ?? []`, as `for .. of` goes through it. -/
def partsOf (message : Option Value) : Except Error (List Value) :=
  match message.bind (·.get? "parts") with
  | none | some .null => .ok []
  | some (.array parts) => .ok parts
  | some (.string s) => .ok ((codePoints s).map Value.string)
  | some _ => .error .typeError

/-- `null` stands for no request. -/
def requestFromMessage (message : Option Value) : Except Error Value := do
  let parts ← partsOf message
  return (parts.findSome? fromPart).getD .null

/-! ## What a part carries -/

/-- A place in a part where a request is looked for. -/
inductive Slot where
  | data (v : Option Value)
  | text (v : Option Value)

/-- The places of a part, in the order they are looked at. -/
def slots (part : Value) : List Slot :=
  (if isText (contentMember part "$case") "data" then [.data (contentMember part "value")]
    else []) ++
  (if isText (contentMember part "$case") "text" then [.text (contentMember part "value")]
    else []) ++ [.data (part.get? "data")] ++ [.text (part.get? "text")]

/-- What is returned from a place, if anything. -/
def Slot.taken : Slot → Option Value
  | .data v => fromData v
  | .text v => fromText v

/-- The JSON object that a place carries, as data or as the text of it. -/
def Slot.carried (s : Slot) : Option Value :=
  match s.taken with
  | some (.object ms) => some (.object ms)
  | _ => none

/-- The object of the first part that carries one, or `null`. -/
def firstObject (parts : List Value) : Value :=
  ((parts.flatMap slots).findSome? Slot.carried).getD .null

/-- The body of the loop returns the first thing that is taken from the places of the part. -/
theorem fromPart_eq (part : Value) : fromPart part = (slots part).findSome? Slot.taken := by
  have hone : ∀ s : Slot, [s].findSome? Slot.taken = s.taken := by
    intro s
    rw [List.findSome?_cons]
    cases s.taken <;> rfl
  have hguard : ∀ (c : Bool) (s : Slot), (if c then [s] else []).findSome? Slot.taken =
      if c then s.taken else none := by
    intro c s
    cases c
    · rfl
    · exact hone s
  rw [fromPart, slots, List.findSome?_append, List.findSome?_append, List.findSome?_append,
    hguard, hguard, hone, hone]
  rfl

theorem findSome?_fromPart (parts : List Value) :
    parts.findSome? fromPart = (parts.flatMap slots).findSome? Slot.taken := by
  induction parts with
  | nil => rfl
  | cons part parts ih =>
    rw [List.findSome?_cons, List.flatMap_cons, List.findSome?_append, ← fromPart_eq, ih]
    cases fromPart part <;> rfl

/-- The function returns the first thing that is taken from a place of the message. -/
theorem requestFromMessage_eq {message : Option Value} {parts : List Value}
    (h : partsOf message = .ok parts) :
    requestFromMessage message =
      .ok (((parts.flatMap slots).findSome? Slot.taken).getD .null) := by
  rw [requestFromMessage, h, ← findSome?_fromPart]
  rfl

/-! ## When it is the first object -/

/-- The place is passed over: what it holds is neither an array nor an object nor JSON text. -/
def Slot.Skipped (s : Slot) : Prop := s.taken = none

/-- The places before the first that is not passed over, and what is taken from it. -/
theorem findSome?_taken_cases (ss : List Slot) :
    (∀ s ∈ ss, s.Skipped) ∧ ss.findSome? Slot.taken = none ∨
      ∃ front s back v, ss = front ++ s :: back ∧ (∀ s ∈ front, s.Skipped) ∧ s.taken = some v ∧
        ss.findSome? Slot.taken = some v := by
  cases h : ss.findSome? Slot.taken with
  | none => exact .inl ⟨List.findSome?_eq_none_iff.mp h, rfl⟩
  | some v =>
    obtain ⟨front, s, back, hss, hs, hfront⟩ := List.findSome?_eq_some_iff.mp h
    exact .inr ⟨front, s, back, v, hss, hfront, hs, rfl⟩

/-- Before the first place that carries an object, if there is one, every place is passed over.
If there is none, the first place that is not passed over, if there is one, spells `null`. -/
def Readable (ss : List Slot) : Prop :=
  (∀ s ∈ ss, s.Skipped) ∨
    ∃ front s back, ss = front ++ s :: back ∧ (∀ s ∈ front, s.Skipped) ∧
      (s.carried.isSome ∨ s.taken = some .null ∧ ∀ s ∈ ss, s.carried = none)

theorem carried_of_skipped {s : Slot} (h : s.Skipped) : s.carried = none := by
  rw [Slot.carried, h]

theorem carried_eq_some_iff {s : Slot} {v : Value} :
    s.carried = some v ↔ s.taken = some v ∧ ∃ ms, v = .object ms := by
  unfold Slot.carried
  constructor
  · intro h
    split at h
    · rename_i ms hms
      obtain rfl := Option.some.inj h
      exact ⟨hms, ms, rfl⟩
    · cases h
  · rintro ⟨h, ms, rfl⟩
    rw [h]

/-- A search finds what its first place that is not passed over gives. -/
theorem findSome?_of_front {f : Slot → Option Value} {front back : List Slot} {s : Slot}
    {v : Value} (hfront : ∀ s ∈ front, f s = none) (hs : f s = some v) :
    (front ++ s :: back).findSome? f = some v := by
  rw [List.findSome?_append, List.findSome?_eq_none_iff.mpr hfront, List.findSome?_cons, hs]
  rfl

theorem taken_of_readable {ss : List Slot} (h : Readable ss) :
    (ss.findSome? Slot.taken).getD .null = (ss.findSome? Slot.carried).getD .null := by
  rcases h with hall | ⟨front, s, back, rfl, hfront, h⟩
  · rw [List.findSome?_eq_none_iff.mpr hall,
      List.findSome?_eq_none_iff.mpr fun s hs => carried_of_skipped (hall s hs)]
  · rcases h with hobject | ⟨hnull, hnone⟩
    · obtain ⟨v, hv⟩ := Option.isSome_iff_exists.mp hobject
      rw [findSome?_of_front hfront (carried_eq_some_iff.mp hv).1,
        findSome?_of_front (fun s hs => carried_of_skipped (hfront s hs)) hv]
    · rw [findSome?_of_front hfront hnull, List.findSome?_eq_none_iff.mpr hnone]
      rfl

theorem readable_of_taken {ss : List Slot}
    (h : (ss.findSome? Slot.taken).getD .null = (ss.findSome? Slot.carried).getD .null) :
    Readable ss := by
  rcases findSome?_taken_cases ss with ⟨hall, _⟩ | ⟨front, s, back, v, hss, hfront, hs, htaken⟩
  · exact .inl hall
  · refine .inr ⟨front, s, back, hss, hfront, ?_⟩
    rw [htaken, Option.getD_some] at h
    cases hfound : ss.findSome? Slot.carried with
    | none =>
      rw [hfound] at h
      obtain rfl : v = .null := h
      exact .inr ⟨hs, List.findSome?_eq_none_iff.mp hfound⟩
    | some w =>
      -- the object that was to be found is what was taken
      rw [hfound, Option.getD_some] at h
      obtain ⟨s', _, hs'⟩ := List.exists_of_findSome?_eq_some hfound
      have hcarried : s.carried = some v :=
        carried_eq_some_iff.mpr ⟨hs, h ▸ (carried_eq_some_iff.mp hs').2⟩
      exact .inl (Option.isSome_iff_exists.mpr ⟨v, hcarried⟩)

theorem firstObject_eq_null_iff {parts : List Value} :
    firstObject parts = .null ↔ ∀ s ∈ parts.flatMap slots, s.carried = none := by
  rw [firstObject, ← List.findSome?_eq_none_iff]
  constructor
  · intro h
    cases hfound : (parts.flatMap slots).findSome? Slot.carried with
    | none => rfl
    | some v =>
      obtain ⟨s, _, hs⟩ := List.exists_of_findSome?_eq_some hfound
      obtain ⟨ms, rfl⟩ := (carried_eq_some_iff.mp hs).2
      rw [hfound] at h
      cases h
  · intro h
    rw [h]
    rfl

/-- The function returns the object of the first part that carries one, and `null` if there is
none, exactly for the messages that are readable. -/
theorem requestFromMessage_exact_iff {message : Option Value} {parts : List Value}
    (h : partsOf message = .ok parts) :
    requestFromMessage message = .ok (firstObject parts) ↔ Readable (parts.flatMap slots) := by
  rw [requestFromMessage_eq h, Except.ok.injEq, firstObject]
  exact ⟨readable_of_taken, taken_of_readable⟩

/-! ## Samples -/

/-- A part in the shape of the SDK. -/
def sdkPart (kind : String) (value : Value) : Value :=
  .object [(ofString "content", .object
    [(ofString "$case", .string (ofString kind)), (ofString "value", value)])]

def messageOfParts (parts : List Value) : Value := .object [(ofString "parts", .array parts)]

def sampleTaskRequest : Value :=
  .object [(ofString "action", .object [(ofString "kind", .string (ofString "rwa.buy"))])]

theorem contentMember_sdkPart (kind : String) (value : Value) :
    contentMember (sdkPart kind value) "$case" = some (.string (ofString kind)) ∧
      contentMember (sdkPart kind value) "value" = some value := by
  have hne : (ofString "value" == ofString "$case") = false := ofString_beq (by decide)
  rw [contentMember, contentMember, sdkPart, Value.get?, List.lookup_cons_self, Option.bind_some,
    Option.bind_some, Value.get?, Value.get?, List.lookup_cons_self, List.lookup_cons, hne]
  exact ⟨rfl, List.lookup_cons_self⟩

theorem get?_sdkPart {kind name : String} {value : Value} (h : name ≠ "content") :
    (sdkPart kind value).get? name = none := by
  rw [sdkPart, Value.get?, List.lookup_cons, ofString_beq h]
  rfl

theorem slots_textPart (s : String) :
    slots (sdkPart "text" (.string (ofString s))) =
      [.text (some (.string (ofString s))), .data none, .text none] := by
  obtain ⟨hkind, hvalue⟩ := contentMember_sdkPart "text" (.string (ofString s))
  have hdata : isText (some (.string (ofString "text"))) "data" = false := ofString_beq (by decide)
  have htext : isText (some (.string (ofString "text"))) "text" = true := beq_self_eq_true _
  rw [slots, hkind, hvalue, hdata, htext, get?_sdkPart (by decide), get?_sdkPart (by decide)]
  rfl

theorem slots_dataPart (v : Value) :
    slots (sdkPart "data" v) = [.data (some v), .data none, .text none] := by
  obtain ⟨hkind, hvalue⟩ := contentMember_sdkPart "data" v
  have hdata : isText (some (.string (ofString "data"))) "data" = true := beq_self_eq_true _
  have htext : isText (some (.string (ofString "data"))) "text" = false := ofString_beq (by decide)
  rw [slots, hkind, hvalue, hdata, htext, get?_sdkPart (by decide), get?_sdkPart (by decide)]
  rfl

/-- A text part before the part that carries the request. -/
def partsBehind (s : String) : List Value :=
  [sdkPart "text" (.string (ofString s)), sdkPart "data" sampleTaskRequest]

theorem slots_partsBehind (s : String) :
    (partsBehind s).flatMap slots = [.text (some (.string (ofString s))), .data none, .text none] ++
      .data (some sampleTaskRequest) :: [.data none, .text none] := by
  rw [partsBehind, List.flatMap_cons, List.flatMap_singleton, slots_textPart, slots_dataPart]

theorem partsOf_messageOfParts (parts : List Value) :
    partsOf (some (messageOfParts parts)) = .ok parts := by
  rw [partsOf, Option.bind_some, messageOfParts, Value.get?, List.lookup_cons_self]

/-- A request behind prose is found. -/
theorem request_behind_prose :
    requestFromMessage (some (messageOfParts (partsBehind "please decide"))) =
      .ok (firstObject (partsBehind "please decide")) := by
  refine (requestFromMessage_exact_iff (partsOf_messageOfParts _)).mpr (.inr ?_)
  refine ⟨_, _, _, slots_partsBehind _, fun s hs => ?_, .inl rfl⟩
  have hprose : parseText (ofString "please decide") = none := by
    rw [parseText_ofString]
    rfl
  simp only [List.mem_cons, List.not_mem_nil, or_false] at hs
  rcases hs with rfl | rfl | rfl
  · exact hprose
  · rfl
  · rfl

/-- A request behind the text `null` is not found. -/
theorem request_behind_null :
    requestFromMessage (some (messageOfParts (partsBehind "null"))) = .ok .null ∧
      firstObject (partsBehind "null") = sampleTaskRequest := by
  have hnull : Slot.taken (.text (some (.string (ofString "null")))) = some .null := by
    show parseText (ofString "null") = some .null
    rw [parseText_ofString]
    exact jsonParse_write .null
  have hskipped : ∀ s ∈ [Slot.text (some (.string (ofString "null"))), .data none, .text none],
      s.carried = none := by
    intro s hs
    simp only [List.mem_cons, List.not_mem_nil, or_false] at hs
    rcases hs with rfl | rfl | rfl
    · rw [Slot.carried, hnull]
    · rfl
    · rfl
  constructor
  · rw [requestFromMessage_eq (partsOf_messageOfParts _), slots_partsBehind, List.cons_append,
      List.findSome?_cons, hnull]
    rfl
  · rw [firstObject, slots_partsBehind, findSome?_of_front hskipped rfl]
    rfl

end Gatekeeper.Agent
