import Mathlib

/-!
# The grammar of JSON texts

A text is a list of bytes.  `Valid text value` derives the value that a text stands for: whitespace,
tokens and nesting as RFC 8259 has them, bytes from `0x80` on inside strings taken as they are, and a
number kept as it is written, where leading zeros may stand.  No object has two members of one key, and a
surrogate is written only as one half of a pair.

* `IsNumber`, `IsString`, `IsValue` : the tokens, and what they stand for.
* `Valid` : a whole text.
-/

namespace Json

/-- A text, or a part of one. -/
abbrev Text := List UInt8

/-- What a text stands for.  A number is what is written. -/
inductive Value where
  | null
  | bool (value : Bool)
  | number (text : Text)
  | string (text : Text)
  | array (items : List Value)
  | object (fields : List (Text × Value))

/-! ## Bytes -/

abbrev quote : UInt8 := 0x22
abbrev backslash : UInt8 := 0x5c
abbrev comma : UInt8 := 0x2c
abbrev colon : UInt8 := 0x3a
abbrev minus : UInt8 := 0x2d
abbrev plus : UInt8 := 0x2b
abbrev point : UInt8 := 0x2e
abbrev openBracket : UInt8 := 0x5b
abbrev closeBracket : UInt8 := 0x5d
abbrev openBrace : UInt8 := 0x7b
abbrev closeBrace : UInt8 := 0x7d
abbrev letterU : UInt8 := 0x75

/-- `null`. -/
def nullToken : Text := [0x6e, 0x75, 0x6c, 0x6c]

/-- `true`. -/
def trueToken : Text := [0x74, 0x72, 0x75, 0x65]

/-- `false`. -/
def falseToken : Text := [0x66, 0x61, 0x6c, 0x73, 0x65]

/-- A byte of whitespace. -/
def IsSpace (byte : UInt8) : Prop := byte = 0x20 ∨ byte = 0x09 ∨ byte = 0x0a ∨ byte = 0x0d

/-- A decimal digit. -/
def IsDigit (byte : UInt8) : Prop := 0x30 ≤ byte ∧ byte ≤ 0x39

/-- Whitespace. -/
def Space (text : Text) : Prop := ∀ byte ∈ text, IsSpace byte

/-- One or more digits. -/
def Digits (text : Text) : Prop := text ≠ [] ∧ ∀ byte ∈ text, IsDigit byte

/-! ## Numbers -/

/-- The part of a number behind its point. -/
def Fraction (text : Text) : Prop := text = [] ∨ ∃ digits, Digits digits ∧ text = point :: digits

/-- The exponent of a number. -/
def Exponent (text : Text) : Prop :=
  text = [] ∨ ∃ mark sign digits, (mark = 0x65 ∨ mark = 0x45) ∧
    (sign = [] ∨ sign = [plus] ∨ sign = [minus]) ∧ Digits digits ∧ text = mark :: (sign ++ digits)

/-- A number: a sign, digits, a fraction and an exponent. -/
def IsNumber (text : Text) : Prop :=
  ∃ sign digits fraction exponent, (sign = [] ∨ sign = [minus]) ∧ Digits digits ∧
    Fraction fraction ∧ Exponent exponent ∧ text = sign ++ (digits ++ (fraction ++ exponent))

/-! ## Strings -/

/-- A hexadecimal digit and what it is worth. -/
def HexDigit (byte : UInt8) (value : ℕ) : Prop :=
  (0x30 ≤ byte ∧ byte ≤ 0x39 ∧ value = byte.toNat - 0x30) ∨
    (0x61 ≤ byte ∧ byte ≤ 0x66 ∧ value = byte.toNat - 0x61 + 10) ∨
    (0x41 ≤ byte ∧ byte ≤ 0x46 ∧ value = byte.toNat - 0x41 + 10)

/-- Four hexadecimal digits and the code unit they write. -/
def CodeUnit (text : Text) (unit : ℕ) : Prop :=
  ∃ a b c d u v w x, HexDigit a u ∧ HexDigit b v ∧ HexDigit c w ∧ HexDigit d x ∧
    text = [a, b, c, d] ∧ unit = 4096 * u + 256 * v + 16 * w + x

/-- What an escape of two bytes stands for. -/
inductive Escape : UInt8 → UInt8 → Prop where
  | quote : Escape 0x22 0x22
  | backslash : Escape 0x5c 0x5c
  | slash : Escape 0x2f 0x2f
  | backspace : Escape 0x62 0x08
  | formFeed : Escape 0x66 0x0c
  | lineFeed : Escape 0x6e 0x0a
  | carriageReturn : Escape 0x72 0x0d
  | tab : Escape 0x74 0x09

/-- The UTF-8 of a code point. -/
def utf8 (code : ℕ) : Text := String.utf8EncodeChar (Char.ofNat code)

/-- The inside of a string and what it stands for. -/
inductive Chars : Text → Text → Prop where
  | nil : Chars [] []
  | plain {byte rest decoded} : 0x20 ≤ byte → byte ≠ quote → byte ≠ backslash →
      Chars rest decoded → Chars (byte :: rest) (byte :: decoded)
  | escape {mark byte rest decoded} : Escape mark byte →
      Chars rest decoded → Chars (backslash :: mark :: rest) (byte :: decoded)
  | unicode {digits unit rest decoded} : CodeUnit digits unit → ¬(0xd800 ≤ unit ∧ unit ≤ 0xdfff) →
      Chars rest decoded → Chars (backslash :: letterU :: (digits ++ rest)) (utf8 unit ++ decoded)
  | pair {digits high more low rest decoded} : CodeUnit digits high →
      0xd800 ≤ high → high ≤ 0xdbff → CodeUnit more low → 0xdc00 ≤ low → low ≤ 0xdfff →
      Chars rest decoded →
      Chars (backslash :: letterU :: (digits ++ backslash :: letterU :: (more ++ rest)))
        (utf8 (0x10000 + (high - 0xd800) * 1024 + (low - 0xdc00)) ++ decoded)

/-- A string and what it stands for. -/
def IsString (text decoded : Text) : Prop :=
  ∃ chars, Chars chars decoded ∧ text = quote :: (chars ++ [quote])

/-! ## Values -/

mutual

/-- A value, without whitespace around it. -/
inductive IsValue : Text → Value → Prop where
  | null : IsValue nullToken .null
  | true : IsValue trueToken (.bool true)
  | false : IsValue falseToken (.bool false)
  | number {text} : IsNumber text → IsValue text (.number text)
  | string {text decoded} : IsString text decoded → IsValue text (.string decoded)
  | emptyArray {space} : Space space → IsValue (openBracket :: (space ++ [closeBracket])) (.array [])
  | array {text items} : Items text items →
      IsValue (openBracket :: (text ++ [closeBracket])) (.array items)
  | emptyObject {space} : Space space → IsValue (openBrace :: (space ++ [closeBrace])) (.object [])
  | object {text fields} : Members text fields → (fields.map Prod.fst).Nodup →
      IsValue (openBrace :: (text ++ [closeBrace])) (.object fields)

/-- The items of an array, at least one. -/
inductive Items : Text → List Value → Prop where
  | last {before text after value} : Space before → IsValue text value → Space after →
      Items (before ++ (text ++ after)) [value]
  | more {before text after value rest values} : Space before → IsValue text value → Space after →
      Items rest values → Items (before ++ (text ++ (after ++ comma :: rest))) (value :: values)

/-- The members of an object, at least one. -/
inductive Members : Text → List (Text × Value) → Prop where
  | last {before name key between lead text after value} : Space before → IsString name key →
      Space between → Space lead → IsValue text value → Space after →
      Members (before ++ (name ++ (between ++ colon :: (lead ++ (text ++ after))))) [(key, value)]
  | more {before name key between lead text after value rest fields} : Space before →
      IsString name key → Space between → Space lead → IsValue text value → Space after →
      Members rest fields →
      Members (before ++ (name ++ (between ++ colon :: (lead ++ (text ++ (after ++ comma :: rest))))))
        ((key, value) :: fields)

end

/-- A JSON text and the value it stands for. -/
def Valid (text : Text) (value : Value) : Prop :=
  ∃ before token after, Space before ∧ IsValue token value ∧ Space after ∧
    text = before ++ (token ++ after)

end Json
