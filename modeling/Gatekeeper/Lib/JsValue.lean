import Mathlib.Data.List.Lex
import Gatekeeper.Lib.Double
import Gatekeeper.Lib.Json

/-!
# ECMAScript values

The values `JSON.parse` makes, with `undefined`, and the operations of the language on them:
property reads, `??`, truthiness, `String(..)`, `BigInt(..)`, `Number(..)` of a big integer
and `JSON.stringify`. Texts are well-formed.
-/

namespace Js

/-- A double whose value is a whole number. The two zeros are one. -/
structure Whole where
  val : ℤ
  isDouble : Double.IsDouble val.natAbs
deriving DecidableEq

/-- A number: a whole one, or another double (a fraction, an infinity, NaN) by its text. -/
inductive Number where
  | whole (n : Whole)
  | other (text : String)
deriving DecidableEq

/-- A value. The members of an object stand in the order the engine lists them. -/
inductive Value where
  | undefined
  | null
  | bool (b : Bool)
  | number (x : Number)
  | string (s : String)
  | array (xs : List Value)
  | object (ms : List (String × Value))

/-- What is thrown: an `Error` with a message, or an error the language raises. -/
inductive Error where
  | error (message : String)
  | typeError
  | syntaxError
  | rangeError
deriving DecidableEq

/-! ## Property reads -/

/-- `v?.name`, for a name that no built-in object has. -/
def Value.get? : Value → String → Value
  | object ms, name => (ms.lookup name).getD undefined
  | _, _ => undefined

/-- `v.name`, for a name that no built-in object has. -/
def Value.get (v : Value) (name : String) : Except Error Value :=
  match v with
  | undefined | null => .error .typeError
  | v => .ok (v.get? name)

/-- `v ?? w`. -/
def Value.orElse (v w : Value) : Value :=
  match v with
  | undefined | null => w
  | v => v

/-- The value of a parameter that has a default. -/
def Value.ifUndefined (v w : Value) : Value :=
  match v with
  | undefined => w
  | v => v

/-- `Boolean(v)`. -/
def Value.truthy : Value → Bool
  | undefined | null => false
  | bool b => b
  | number (.whole n) => n.val ≠ 0
  | number (.other text) => text ≠ "NaN"
  | string s => s ≠ ""
  | array _ | object _ => true

/-- `v === s` for a text `s`. -/
def Value.isString (v : Value) (s : String) : Bool :=
  match v with
  | string t => t == s
  | _ => false

@[simp] theorem Value.isString_iff {v : Value} {s : String} :
    v.isString s = true ↔ v = string s := by
  cases v <;> simp [isString]

/-! ## Numbers as text -/

/-- The digits with a point after the first. -/
def mantissa : List Char → List Char
  | d :: e :: rest => d :: '.' :: e :: rest
  | ds => ds

/-- The number with these digits in scientific notation, without the zeros at its end. -/
def scientific (ds : List Char) : String :=
  String.ofList (mantissa (ds.reverse.dropWhile (· == '0')).reverse) ++ s!"e+{ds.length - 1}"

/-- `Number::toString` of the double `n`. -/
def wholeText (n : ℕ) : String :=
  if n < 10 ^ 21 then toString (Double.shortest n)
  else scientific (Nat.toDigits 10 (Double.shortest n))

def Number.text : Number → String
  | whole n => if n.val < 0 then "-" ++ wholeText n.val.natAbs else wholeText n.val.natAbs
  | other text => text

/-- `Number(n)` of a big integer that is not negative. -/
def Number.ofNat (n : ℕ) : Number :=
  if h : Nat.log2 (Double.round n) < 1024 then .whole ⟨Double.round n, Double.isDouble_round h⟩
  else .other "Infinity"

/-- The whole number that the text of the double nearest to `n` spells. -/
def printed (n : ℕ) : ℕ := Double.shortest (Double.round n)

example : (Number.ofNat (10 ^ 21)).text = "1e+21" := by decide +kernel

/-! ## `String(..)` -/

mutual

/-- `String(v)`. An object that has its own `toString` has no text. -/
def Value.text : Value → Except Error String
  | .undefined => .ok "undefined"
  | .null => .ok "null"
  | .bool true => .ok "true"
  | .bool false => .ok "false"
  | .number x => .ok x.text
  | .string s => .ok s
  | .array xs => (elementTexts xs).map (",".intercalate ·)
  | .object ms => if (ms.lookup "toString").isSome then .error .typeError else .ok "[object Object]"

/-- The texts that `join` puts between commas. -/
def elementTexts : List Value → Except Error (List String)
  | [] => .ok []
  | .undefined :: xs => (elementTexts xs).map ("" :: ·)
  | .null :: xs => (elementTexts xs).map ("" :: ·)
  | x :: xs => do
    let t ← x.text
    let ts ← elementTexts xs
    return t :: ts

end

/-! ## `BigInt(..)` -/

/-- `WhiteSpace` and `LineTerminator`. -/
def isWhite (c : Char) : Bool :=
  let n := c.toNat
  (9 ≤ n && n ≤ 13) || n == 0x20 || n == 0xA0 || n == 0x1680 || (0x2000 ≤ n && n ≤ 0x200A) ||
    n == 0x2028 || n == 0x2029 || n == 0x202F || n == 0x205F || n == 0x3000 || n == 0xFEFF

def trimWhite (cs : List Char) : List Char :=
  ((cs.dropWhile isWhite).reverse.dropWhile isWhite).reverse

def digitValue (c : Char) : Option ℕ :=
  if '0' ≤ c ∧ c ≤ '9' then some (c.toNat - '0'.toNat)
  else if 'a' ≤ c ∧ c ≤ 'f' then some (c.toNat - 'a'.toNat + 10)
  else if 'A' ≤ c ∧ c ≤ 'F' then some (c.toNat - 'A'.toNat + 10)
  else none

/-- The number these digits spell, after the digits read so far. -/
def digitsFrom (base : ℕ) : ℕ → List Char → Option ℕ
  | n, [] => some n
  | n, c :: cs =>
    match digitValue c with
    | some d => if d < base then digitsFrom base (n * base + d) cs else none
    | none => none

/-- The number that one or more digits spell. -/
def digits (base : ℕ) : List Char → Option ℕ
  | [] => none
  | cs => digitsFrom base 0 cs

/-- `StringToBigInt`. -/
def stringToBigInt (s : String) : Option ℤ :=
  match trimWhite s.toList with
  | [] => some 0
  | '0' :: 'x' :: cs | '0' :: 'X' :: cs => (digits 16 cs).map Int.ofNat
  | '0' :: 'o' :: cs | '0' :: 'O' :: cs => (digits 8 cs).map Int.ofNat
  | '0' :: 'b' :: cs | '0' :: 'B' :: cs => (digits 2 cs).map Int.ofNat
  | '+' :: cs => (digits 10 cs).map Int.ofNat
  | '-' :: cs => (digits 10 cs).map fun n => -(n : ℤ)
  | cs => (digits 10 cs).map Int.ofNat

def bigIntOfText (s : String) : Except Error ℤ :=
  match stringToBigInt s with
  | some n => .ok n
  | none => .error .syntaxError

/-- `BigInt(v)`. -/
def Value.toBigInt : Value → Except Error ℤ
  | .undefined | .null => .error .typeError
  | .bool b => .ok (if b then 1 else 0)
  | .number (.whole n) => .ok n.val
  | .number (.other _) => .error .rangeError
  | .string s => bigIntOfText s
  | v => v.text >>= bigIntOfText

example : (Value.string " 0x1F ").toBigInt = .ok 31 := by decide

/-! ## `JSON.stringify` -/

mutual

/-- The JSON text of a value that is not `undefined`. -/
def Value.writeJson : Value → List Char
  | .undefined | .null => "null".toList
  | .bool true => "true".toList
  | .bool false => "false".toList
  | .number (.whole n) => (Number.whole n).text.toList
  | .number (.other text) =>
    if text = "NaN" ∨ text = "Infinity" ∨ text = "-Infinity" then "null".toList else text.toList
  | .string s => Json.writeString s
  | .array xs => '[' :: writeElements xs
  | .object ms => '\x7b' :: writeMembers ms

def writeElements : List Value → List Char
  | [] => [']']
  | [x] => x.writeJson ++ [']']
  | x :: xs => x.writeJson ++ ',' :: writeElements xs

def writeMembers : List (String × Value) → List Char
  | [] => ['\x7d']
  | [(k, x)] => Json.writeString k ++ ':' :: x.writeJson ++ ['\x7d']
  | (k, x) :: ms => Json.writeString k ++ ':' :: x.writeJson ++ ',' :: writeMembers ms

end

/-- `JSON.stringify(v)`; a template shows the missing text of `undefined` as `undefined`. -/
def Value.json : Value → String
  | .undefined => "undefined"
  | v => String.ofList v.writeJson

mutual

/-- The value whose text `JSON.stringify` writes: members that are `undefined` are left out, and
such elements and the numbers JSON has no text for are `null`. -/
def Value.toJson : Value → Value
  | .number (.other text) =>
    if text = "NaN" ∨ text = "Infinity" ∨ text = "-Infinity" then .null else .number (.other text)
  | .array xs => .array (jsonElements xs)
  | .object ms => .object (jsonMembers ms)
  | v => v

def jsonElements : List Value → List Value
  | [] => []
  | .undefined :: xs => .null :: jsonElements xs
  | x :: xs => x.toJson :: jsonElements xs

def jsonMembers : List (String × Value) → List (String × Value)
  | [] => []
  | (_, .undefined) :: ms => jsonMembers ms
  | (k, x) :: ms => (k, x.toJson) :: jsonMembers ms

end

example : (Value.object [("a", .undefined), ("b", .array [.undefined])]).toJson.json =
    "\x7b\"b\":[null]\x7d" := by decide

/-! ## Code units -/

/-- The UTF-16 code units of a character. -/
def codeUnits (c : Char) : List ℕ :=
  if c.toNat < 0x10000 then [c.toNat]
  else [0xD800 + (c.toNat - 0x10000) / 0x400, 0xDC00 + (c.toNat - 0x10000) % 0x400]

def utf16 (s : String) : List ℕ := s.toList.flatMap codeUnits

/-- `JSON.stringify` of the text of one code unit, which escapes half of a character. -/
def unitJson (u : ℕ) : String :=
  if 0xD800 ≤ u ∧ u < 0xE000 then "\"\\u" ++ String.ofList (Nat.toDigits 16 u) ++ "\""
  else (Value.string (String.singleton (Char.ofNat u))).json

/-- The own keys of a value and the JSON text of what stands under each. -/
def Value.entries : Value → List (String × String)
  | .string s => (utf16 s).zipIdx.map fun (u, i) => (toString i, unitJson u)
  | .array xs => xs.zipIdx.map fun (x, i) => (toString i, x.toJson.json)
  | .object ms => ms.map fun (k, x) => (k, x.toJson.json)
  | _ => []

/-- The order of `sort`, by code units. -/
def textLe (s t : String) : Prop := utf16 s ≤ utf16 t

instance : DecidableRel textLe := fun s t => inferInstanceAs (Decidable (utf16 s ≤ utf16 t))

end Js
