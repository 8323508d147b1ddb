import Prepass.ParseError
import Prepass.Text.Numeral
import Prepass.Word

/-!
# Constants

The numbers that integer constants and character constants stand for.
-/

namespace Prepass

/-- Why a constant or an expression has no value: its tokens are refused, its text is no numeral, its number does not fit into a signed
word, or a backslash has no character after it. -/
inductive EvalError where
  | parse (cause : ParseError)
  | notNumeral
  | outOfRange
  | noCharacter
  deriving DecidableEq, Repr

namespace Constant

/-- A letter of the suffix of an integer constant. -/
def isSuffix (c : Char) : Bool :=
  c = 'u' || c = 'U' || c = 'l' || c = 'L'

/-- A letter that makes an integer constant unsigned. -/
def isUnsignedSuffix (c : Char) : Bool :=
  c = 'u' || c = 'U'

/-- The base of an integer constant without suffix, and its text without the mark of the base. -/
def base : List Char → Nat × List Char
  | '0' :: m :: rest =>
    if m = 'x' ∨ m = 'X' then (16, rest)
    else if m = 'b' ∨ m = 'B' then (2, rest)
    else (8, '0' :: m :: rest)
  | cs => (10, cs)

/-- The word of an integer constant: unsigned when a suffix says so or the number is too great for a signed word. -/
def integer (text : String) : Except EvalError Word :=
  let backward := text.toList.reverse
  let unsigned := (backward.takeWhile isSuffix).any isUnsignedSuffix
  let (base, digits) := base (backward.dropWhile isSuffix).reverse
  match Text.integer? base digits with
  | none => .error (.parse (.notInteger text))
  | some n =>
    if unsigned ∨ Word.maxSigned < n then .ok (Word.ofIntUnsigned n)
    else match Word.ofInt? n with
      | some w => .ok w
      | none => .error .outOfRange

/-- The characters that the one-letter escapes stand for. -/
def escapes : List (Char × Nat) :=
  [('n', 10), ('t', 9), ('r', 13), ('0', 0), ('a', 7), ('b', 8), ('f', 12), ('v', 11), ('\\', 92), (Text.apostrophe, 39),
   ('"', 34), ('?', 63)]

/-- The word of a numeral in a character constant. -/
def numeral (base : Nat) (cs : List Char) : Except EvalError Word :=
  match Text.integer? base cs with
  | none => .error .notNumeral
  | some n =>
    match Word.ofInt? n with
    | some w => .ok w
    | none => .error .outOfRange

/-- The word of what follows a backslash in a character constant. -/
def escape (cs : List Char) : Except EvalError Word :=
  match cs with
  | [] => .error .noCharacter
  | c :: rest =>
    if c = 'x' ∨ c = 'X' then numeral 16 rest
    else if Text.isDigit c ∧ rest ≠ [] then numeral 8 cs
    else if rest = [] then .ok (Word.ofInt ((escapes.lookup c).getD c.toNat))
    else .ok (Word.ofInt c.toNat)

/-- The text of a character constant between its quotes; the last character counts as the closing quote. -/
def characterBody? (cs : List Char) : Option (List Char) :=
  match cs.dropWhile (· ≠ Text.apostrophe) with
  | [] => none
  | _ :: rest => some rest.dropLast

/-- The word of a character constant. -/
def character (text : String) : Except EvalError Word :=
  match characterBody? text.toList with
  | none => .error .notNumeral
  | some [] => .error (.parse .emptyCharacter)
  | some (c :: rest) => if c = '\\' then escape rest else .ok (Word.ofInt c.toNat)

end Constant

end Prepass
