/-!
# Texts

A character class is a sorted list of closed ranges of code points. The search in it stops at the first range that begins after the code
point, so characters at the low end are decided quickly. A blank is any white-space character: tab to carriage return, the
information separators, the space, and the separators of the other scripts. Texts are trimmed and cut into words at blanks.

Texts are compared character by character, by their code points: a text comes before every longer one that begins with it.
-/

namespace Prepass.Text

/-- Membership in a sorted list of closed ranges. -/
def inRanges : List (Nat × Nat) → Nat → Bool
  | [], _ => false
  | (first, last) :: rest, n => if n < first then false else n ≤ last || inRanges rest n

/-! ## Blanks -/

/-- The ranges of blanks, in increasing order. -/
def blankRanges : List (Nat × Nat) :=
  [(0x9, 0xD), (0x1C, 0x20), (0x85, 0x85), (0xA0, 0xA0), (0x1680, 0x1680), (0x2000, 0x200A), (0x2028, 0x2029),
   (0x202F, 0x202F), (0x205F, 0x205F), (0x3000, 0x3000)]

/-- A white-space character. -/
def isBlank (c : Char) : Bool :=
  inRanges blankRanges c.toNat

/-- The text without the blanks it begins with. -/
def trimStart (cs : List Char) : List Char :=
  cs.dropWhile isBlank

/-- The text without the blanks it ends with. -/
def trimEnd (cs : List Char) : List Char :=
  (cs.reverse.dropWhile isBlank).reverse

/-- The text without the blanks around it. -/
def trim (cs : List Char) : List Char :=
  trimEnd (trimStart cs)

/-- The text without the blanks around it. -/
def strip (text : String) : String :=
  String.ofList (trim text.toList)

/-! ## Pieces -/

/-- The pieces of a text between the characters that satisfy `cut`, empty pieces included. -/
def pieces (cut : Char → Bool) : List Char → List (List Char)
  | [] => [[]]
  | c :: rest =>
    if cut c then [] :: pieces cut rest
    else match pieces cut rest with
      | [] => [[c]]
      | piece :: more => (c :: piece) :: more

/-- The words of a text: its maximal runs of characters that are not blank. -/
def words (text : String) : List String :=
  ((pieces isBlank text.toList).filter (· ≠ [])).map String.ofList

/-- The texts one after another, with `spacer` between neighbours. -/
def join (spacer : String) : List String → String
  | [] => ""
  | [text] => text
  | text :: rest => text ++ spacer ++ join spacer rest

/-! ## Order -/

/-- Whether some characters come before others. -/
def charsBefore : List Char → List Char → Bool
  | _, [] => false
  | [], _ :: _ => true
  | a :: as, b :: bs => if a = b then charsBefore as bs else a.toNat < b.toNat

/-- Whether a text comes before another. -/
def before (a b : String) : Bool :=
  charsBefore a.toList b.toList

end Prepass.Text
