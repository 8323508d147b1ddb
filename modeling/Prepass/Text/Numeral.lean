import Prepass.Text.Basic
import Prepass.Text.Digit

/-!
# Numerals

Whole numbers written in a given base. Blanks may stand around a numeral, then come an optional sign, an optional mark of the base
(`0x`, `0o` or `0b`, where it is the mark of the given base) and the digits. Decimal digits of every script count, and a
single underscore may stand between two digits or after the mark. A numeral in a base that is no power of two may have
at most `digitLimit` digits.
-/

namespace Prepass.Text

/-- The most digits of a numeral in a base that is no power of two. -/
def digitLimit : Nat := 4300

/-- A blank that may stand around a numeral: any blank but the information separators. -/
def isPadding (c : Char) : Bool :=
  isBlank c && !(0x1C ≤ c.toNat && c.toNat ≤ 0x1F)

/-- The value of a digit in the bases up to thirty-six. -/
def digitValue? (c : Char) : Option Nat :=
  if 0x61 ≤ c.toNat ∧ c.toNat ≤ 0x7A then some (c.toNat - 0x57)
  else if 0x41 ≤ c.toNat ∧ c.toNat ≤ 0x5A then some (c.toNat - 0x37)
  else decimalValue? c

/-- The digits of a numeral without sign and mark. -/
def digits? (base : Nat) : List Char → Option (List Nat)
  | [] => none
  | c :: rest =>
    match (digitValue? c).filter (· < base) with
    | none => none
    | some d =>
      match rest with
      | [] => some [d]
      | '_' :: more => (digits? base more).map (d :: ·)
      | more => (digits? base more).map (d :: ·)

/-- The number that digits stand for. -/
def ofDigits (base : Nat) (ds : List Nat) : Nat :=
  ds.foldl (fun n d => n * base + d) 0

/-- The letters that mark a base after a zero. -/
def baseMarks : Nat → List Char
  | 16 => ['x', 'X']
  | 8 => ['o', 'O']
  | 2 => ['b', 'B']
  | _ => []

/-- The numeral without the mark of its base and an underscore after the mark. -/
def dropMark (base : Nat) : List Char → List Char
  | c :: m :: rest =>
    if digitValue? c = some 0 ∧ m ∈ baseMarks base then
      match rest with
      | '_' :: more => more
      | more => more
    else c :: m :: rest
  | cs => cs

/-- The number of a numeral without blanks and sign. -/
def natural? (base : Nat) (cs : List Char) : Option Nat :=
  match digits? base (dropMark base cs) with
  | none => none
  | some ds => if baseMarks base = [] ∧ digitLimit < ds.length then none else some (ofDigits base ds)

/-- The number of a numeral in the given base. -/
def integer? (base : Nat) (cs : List Char) : Option Int :=
  let body := ((cs.dropWhile isPadding).reverse.dropWhile isPadding).reverse
  match body with
  | '+' :: rest => (natural? base rest).map Int.ofNat
  | '-' :: rest => (natural? base rest).map fun n => -Int.ofNat n
  | rest => (natural? base rest).map Int.ofNat

end Prepass.Text
