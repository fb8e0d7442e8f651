import ApfsAccess.Library.JsonGrammar
import ApfsAccess.Library.Loops

/-!
# The JSON parser of the container manifest

`JsonParser` walks over the document with one cursor.  Here the cursor is what is left of the document
from it on, so that a test of the cursor against the end is a test whether something is left.  A read or a
step that has no such test in front of it is `peek` or `advance`, and fails with `pastEnd` when nothing is
left.  The recursion runs on fuel, and fails with `outOfFuel` when it runs out.

The fields of an object stand in the order in which they were read; `std::map` only finds them by name.

* `JsonParser.parse` : `JsonParser::Parse`.
-/

namespace ApfsAccess
namespace Manifest

open Json

/-- What the parser returns instead of a value. -/
inductive JsonError where
  | refused (text : String)
  | pastEnd
  | outOfFuel
  deriving DecidableEq, Repr

namespace JsonParser

/-- `text_[pos_]`. -/
def peek : Text → Except JsonError UInt8
  | [] => .error .pastEnd
  | ch :: _ => .ok ch

/-- `++pos_`. -/
def advance : Text → Except JsonError Text
  | [] => .error .pastEnd
  | _ :: rest => .ok rest

/-- `SkipSpace`. -/
def skipSpace : Text → Text
  | [] => []
  | ch :: rest =>
    if ch = 0x20 ∨ ch = 0x09 ∨ ch = 0x0a ∨ ch = 0x0d then skipSpace rest else ch :: rest

/-- `Expect`. -/
def expect (want : UInt8) : Text → Except JsonError Text
  | [] => .error (.refused "expected delimiter")
  | ch :: rest => if ch ≠ want then .error (.refused "expected delimiter") else .ok rest

section Strings

/-- The bytes of a code below `0x10000`, from `AppendUtf8`. -/
def appendUtf8 (code : ℕ) : Text :=
  if code < 0x80 then [UInt8.ofNat code]
  else if code < 0x800 then
    [UInt8.ofNat (0xc0 ||| (code >>> 6)), UInt8.ofNat (0x80 ||| (code &&& 0x3f))]
  else
    [UInt8.ofNat (0xe0 ||| (code >>> 12)), UInt8.ofNat (0x80 ||| ((code >>> 6) &&& 0x3f)),
      UInt8.ofNat (0x80 ||| (code &&& 0x3f))]

/-- The bytes of the code of a surrogate pair. -/
def pairUtf8 (full : ℕ) : Text :=
  [UInt8.ofNat (0xf0 ||| (full >>> 18)), UInt8.ofNat (0x80 ||| ((full >>> 12) &&& 0x3f)),
    UInt8.ofNat (0x80 ||| ((full >>> 6) &&& 0x3f)), UInt8.ofNat (0x80 ||| (full &&& 0x3f))]

/-- The value of a digit in `ParseHex4`. -/
def hexValue (ch : UInt8) : Option ℕ :=
  if 0x30 ≤ ch ∧ ch ≤ 0x39 then some (ch.toNat - 0x30)
  else if 0x61 ≤ ch ∧ ch ≤ 0x66 then some (ch.toNat - 0x61 + 10)
  else if 0x41 ≤ ch ∧ ch ≤ 0x46 then some (ch.toNat - 0x41 + 10)
  else none

/-- The loop of `ParseHex4`, for the digits that are left. -/
def hexLoop : ℕ → ℕ → Text → Except JsonError (ℕ × Text)
  | 0, word, text => .ok (word, text)
  | count + 1, word, text => do
    let ch ← peek text
    match hexValue ch with
    | none => .error (.refused "bad unicode escape")
    | some digit => do
      let rest ← advance text
      hexLoop count (word * 16 + digit) rest

/-- `ParseHex4`. -/
def parseHex4 (text : Text) : Except JsonError (ℕ × Text) :=
  if text.length < 4 then .error (.refused "bad unicode escape") else hexLoop 4 0 text

/-- The test for a second escape behind a high surrogate. -/
def startsEscape : Text → Bool
  | first :: second :: _ => first == backslash && second == letterU
  | _ => false

/-- The case `u` of `ParseString`: the bytes to append. -/
def parseUnicode (text : Text) : Except JsonError (Text × Text) := do
  let (word, rest) ← parseHex4 text
  if 0xd800 ≤ word ∧ word ≤ 0xdbff ∧ startsEscape rest then do
    let rest ← advance rest
    let rest ← advance rest
    let (low, rest) ← parseHex4 rest
    if low < 0xdc00 ∨ 0xdfff < low then .error (.refused "bad surrogate pair")
    else .ok (pairUtf8 (0x10000 + ((word - 0xd800) <<< 10) + (low - 0xdc00)), rest)
  else if 0xd800 ≤ word ∧ word ≤ 0xdfff then .error (.refused "lone surrogate")
  else .ok (appendUtf8 word, rest)

/-- The escapes of two bytes. -/
def simpleEscape (esc : UInt8) : Option UInt8 :=
  if esc = 0x22 then some 0x22
  else if esc = 0x5c then some 0x5c
  else if esc = 0x2f then some 0x2f
  else if esc = 0x62 then some 0x08
  else if esc = 0x66 then some 0x0c
  else if esc = 0x6e then some 0x0a
  else if esc = 0x72 then some 0x0d
  else if esc = 0x74 then some 0x09
  else none

/-- An escape, behind its backslash: the bytes to append. -/
def parseEscape : Text → Except JsonError (Text × Text)
  | [] => .error (.refused "unterminated string")
  | esc :: rest =>
    match simpleEscape esc with
    | some byte => .ok ([byte], rest)
    | none => if esc = letterU then parseUnicode rest else .error (.refused "bad escape")

/-- The loop of `ParseString`. -/
def stringLoop : ℕ → Text → Text → Except JsonError (Text × Text)
  | 0, _, _ => .error .outOfFuel
  | _ + 1, [], _ => .error (.refused "unterminated string")
  | fuel + 1, ch :: rest, text =>
    if ch = quote then .ok (text, rest)
    else if ch = backslash then do
      let (bytes, rest) ← parseEscape rest
      stringLoop fuel rest (text ++ bytes)
    else if ch < 0x20 then .error (.refused "unescaped control character")
    else stringLoop fuel rest (text ++ [ch])

/-- `ParseString`. -/
def parseString (text : Text) : Except JsonError (Text × Text) := do
  let rest ← advance text
  stringLoop (rest.length + 1) rest []

end Strings

section Scalars

/-- `ParseBool`. -/
def parseBool (text : Text) : Except JsonError (Value × Text) :=
  if text.take 4 = trueToken then .ok (.bool true, text.drop 4)
  else if text.take 5 = falseToken then .ok (.bool false, text.drop 5)
  else .error (.refused "bad literal")

/-- `ParseNull`. -/
def parseNull (text : Text) : Except JsonError (Value × Text) :=
  if text.take 4 = nullToken then .ok (.null, text.drop 4) else .error (.refused "bad literal")

/-- A loop over digits: what is left, and whether there was one. -/
def skipDigits : Text → Text × Bool
  | [] => ([], false)
  | ch :: rest => if 0x30 ≤ ch ∧ ch ≤ 0x39 then ((skipDigits rest).1, true) else (ch :: rest, false)

/-- The sign of a number. -/
def skipMinus : Text → Text
  | [] => []
  | ch :: rest => if ch = minus then rest else ch :: rest

/-- The digits that must stand. -/
def someDigits (text : Text) : Except JsonError Text :=
  if (skipDigits text).2 = false then .error (.refused "bad number") else .ok (skipDigits text).1

/-- The part of a number behind its point. -/
def skipFraction : Text → Except JsonError Text
  | [] => .ok []
  | ch :: rest => if ch = point then someDigits rest else .ok (ch :: rest)

/-- The sign of an exponent. -/
def skipSign : Text → Text
  | [] => []
  | ch :: rest => if ch = plus ∨ ch = minus then rest else ch :: rest

/-- The exponent of a number. -/
def skipExponent : Text → Except JsonError Text
  | [] => .ok []
  | ch :: rest => if ch = 0x65 ∨ ch = 0x45 then someDigits (skipSign rest) else .ok (ch :: rest)

/-- `ParseNumber`. -/
def parseNumber (text : Text) : Except JsonError (Value × Text) := do
  let rest ← someDigits (skipMinus text)
  let rest ← skipFraction rest
  let rest ← skipExponent rest
  .ok (.number (text.take (text.length - rest.length)), rest)

end Scalars

/-- What stands at the front. -/
def startsWith (want : UInt8) : Text → Bool
  | [] => false
  | ch :: _ => ch == want

mutual

/-- `ParseValue`. -/
def parseValue : ℕ → Text → Except JsonError (Value × Text)
  | 0, _ => .error .outOfFuel
  | _ + 1, [] => .error (.refused "unexpected end")
  | fuel + 1, ch :: rest =>
    if ch = openBrace then parseObject fuel (ch :: rest)
    else if ch = openBracket then parseArray fuel (ch :: rest)
    else if ch = quote then do
      let (text, rest) ← parseString (ch :: rest)
      .ok (.string text, rest)
    else if ch = 0x74 ∨ ch = 0x66 then parseBool (ch :: rest)
    else if ch = 0x6e then parseNull (ch :: rest)
    else if ch = minus ∨ (0x30 ≤ ch ∧ ch ≤ 0x39) then parseNumber (ch :: rest)
    else .error (.refused "unexpected character")

/-- `ParseObject`. -/
def parseObject : ℕ → Text → Except JsonError (Value × Text)
  | 0, _ => .error .outOfFuel
  | fuel + 1, text => do
    let rest ← advance text
    let rest := skipSpace rest
    if startsWith closeBrace rest then do
      let rest ← advance rest
      .ok (.object [], rest)
    else objectLoop fuel rest []

/-- The loop of `ParseObject`. -/
def objectLoop : ℕ → Text → List (Text × Value) → Except JsonError (Value × Text)
  | 0, _, _ => .error .outOfFuel
  | fuel + 1, text, fields =>
    let rest := skipSpace text
    if startsWith quote rest = false then .error (.refused "object key must be a string")
    else do
      let (key, rest) ← parseString rest
      let rest ← expect colon (skipSpace rest)
      let (member, rest) ← parseValue fuel (skipSpace rest)
      if key ∈ fields.map Prod.fst then .error (.refused "duplicate object key")
      else
        match skipSpace rest with
        | [] => .error (.refused "unterminated object")
        | ch :: rest =>
          if ch = comma then objectLoop fuel rest (fields ++ [(key, member)])
          else if ch = closeBrace then .ok (.object (fields ++ [(key, member)]), rest)
          else .error (.refused "expected ',' or '\x7d'")

/-- `ParseArray`. -/
def parseArray : ℕ → Text → Except JsonError (Value × Text)
  | 0, _ => .error .outOfFuel
  | fuel + 1, text => do
    let rest ← advance text
    let rest := skipSpace rest
    if startsWith closeBracket rest then do
      let rest ← advance rest
      .ok (.array [], rest)
    else arrayLoop fuel rest []

/-- The loop of `ParseArray`. -/
def arrayLoop : ℕ → Text → List Value → Except JsonError (Value × Text)
  | 0, _, _ => .error .outOfFuel
  | fuel + 1, text, items => do
    let (item, rest) ← parseValue fuel (skipSpace text)
    match skipSpace rest with
    | [] => .error (.refused "unterminated array")
    | ch :: rest =>
      if ch = comma then arrayLoop fuel rest (items ++ [item])
      else if ch = closeBracket then .ok (.array (items ++ [item]), rest)
      else .error (.refused "expected ',' or ']'")

end

/-- `JsonParser::Parse`, with the fuel that a text of its length can use up. -/
def parse (text : Text) : Except JsonError Value := do
  let (value, rest) ← parseValue (3 * text.length + 1) (skipSpace text)
  if skipSpace rest ≠ [] then .error (.refused "trailing content") else .ok value

end JsonParser

end Manifest
end ApfsAccess
