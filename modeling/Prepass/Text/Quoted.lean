import Prepass.Text.Printable

/-!
# Quoted text

The quoted form of a text, as notices and summaries show it. The text stands between apostrophes, or between double quotes when it
holds an apostrophe and no double quote. A backslash and the surrounding quote are escaped, line ends and tabs have their
short escapes, and every other character that is not printable is written by its code point.
-/

namespace Prepass.Text

/-- The apostrophe. -/
def apostrophe : Char := Char.ofNat 39

/-- The hexadecimal digit of a number below sixteen. -/
def hexDigit (n : Nat) : Char :=
  if n < 10 then Char.ofNat (0x30 + n) else Char.ofNat (0x57 + n)

/-- The last `width` hexadecimal digits of a number. -/
def hexDigits : Nat → Nat → List Char
  | 0, _ => []
  | width + 1, n => hexDigits width (n / 16) ++ [hexDigit (n % 16)]

/-- One character as it is written between the quotes `quote`. -/
def quotedChar (quote c : Char) : List Char :=
  if c = quote ∨ c = '\\' then ['\\', c]
  else if c = '\n' then ['\\', 'n']
  else if c = '\r' then ['\\', 'r']
  else if c = '\t' then ['\\', 't']
  else if isPrintable c then [c]
  else if c.toNat < 0x100 then '\\' :: 'x' :: hexDigits 2 c.toNat
  else if c.toNat < 0x10000 then '\\' :: 'u' :: hexDigits 4 c.toNat
  else '\\' :: 'U' :: hexDigits 8 c.toNat

/-- The quote that surrounds a text. -/
def surroundingQuote (cs : List Char) : Char :=
  if apostrophe ∈ cs ∧ '"' ∉ cs then '"' else apostrophe

/-- The quoted form of a text. -/
def quoted (text : String) : String :=
  let quote := surroundingQuote text.toList
  String.ofList ([quote] ++ text.toList.flatMap (quotedChar quote) ++ [quote])

/-- The quoted forms of several texts in square brackets. -/
def quotedList (texts : List String) : String :=
  "[" ++ String.intercalate ", " (texts.map quoted) ++ "]"

/-- The quoted forms of several texts in round brackets; a single text is followed by a comma. -/
def quotedTuple : List String → String
  | [text] => "(" ++ quoted text ++ ",)"
  | texts => "(" ++ String.intercalate ", " (texts.map quoted) ++ ")"

end Prepass.Text
