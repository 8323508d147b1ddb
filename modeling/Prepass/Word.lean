/-!
# Numbers of preprocessor expressions

A number of an expression is a word of 64 bits that is read as signed or as unsigned. Sums, differences and products wrap around. A
division rounds toward the lower number, and the remainder has the sign of the divisor. When one operand is unsigned, both
are taken as unsigned.
-/

namespace Prepass

/-- A word of 64 bits, signed or unsigned. -/
structure Word where
  bits : BitVec 64
  unsigned : Bool := false
  deriving DecidableEq, Repr

namespace Word

/-- The least signed number. -/
def minSigned : Int := -9223372036854775808

/-- The greatest signed number. -/
def maxSigned : Int := 9223372036854775807

/-- The number that a word stands for. -/
def value (w : Word) : Int :=
  if w.unsigned then w.bits.toNat else w.bits.toInt

/-- Whether a word is not zero. -/
def truth (w : Word) : Bool :=
  w.bits != 0

/-- The signed word of a number, wrapped around. -/
def ofInt (n : Int) : Word :=
  { bits := BitVec.ofInt 64 n }

/-- The unsigned word of a number, wrapped around. -/
def ofIntUnsigned (n : Int) : Word :=
  { bits := BitVec.ofInt 64 n, unsigned := true }

/-- One for true and zero for false, signed. -/
def ofBool (b : Bool) : Word :=
  ofInt (if b then 1 else 0)

/-- The signed word of a number that fits. -/
def ofInt? (n : Int) : Option Word :=
  if minSigned ≤ n ∧ n ≤ maxSigned then some (ofInt n) else none

end Word

/-- The unary operators. -/
inductive UnaryOp where
  | minus
  | plus
  | not
  | complement
  deriving DecidableEq, Repr

namespace UnaryOp

/-- The operator with the given text. -/
def ofText? : String → Option UnaryOp
  | "-" => some .minus
  | "+" => some .plus
  | "!" => some .not
  | "~" => some .complement
  | _ => none

/-- The value of an operator at a word. -/
def apply : UnaryOp → Word → Word
  | .minus, w => { w with bits := -w.bits }
  | .plus, w => w
  | .not, w => Word.ofBool (!w.truth)
  | .complement, w => { w with bits := ~~~w.bits }

end UnaryOp

/-- The binary operators. -/
inductive BinaryOp where
  | or
  | and
  | bitOr
  | bitXor
  | bitAnd
  | eq
  | ne
  | lt
  | le
  | gt
  | ge
  | shiftLeft
  | shiftRight
  | add
  | sub
  | mul
  | div
  | mod
  deriving DecidableEq, Repr

namespace BinaryOp

/-- The operator with the given text. -/
def ofText? : String → Option BinaryOp
  | "||" => some .or
  | "&&" => some .and
  | "|" => some .bitOr
  | "^" => some .bitXor
  | "&" => some .bitAnd
  | "==" => some .eq
  | "!=" => some .ne
  | "<" => some .lt
  | "<=" => some .le
  | ">" => some .gt
  | ">=" => some .ge
  | "<<" => some .shiftLeft
  | ">>" => some .shiftRight
  | "+" => some .add
  | "-" => some .sub
  | "*" => some .mul
  | "/" => some .div
  | "%" => some .mod
  | _ => none

/-- How tightly an operator binds: the greater, the tighter. -/
def precedence : BinaryOp → Nat
  | .or => 2
  | .and => 3
  | .bitOr => 4
  | .bitXor => 5
  | .bitAnd => 6
  | .eq | .ne => 7
  | .lt | .le | .gt | .ge => 8
  | .shiftLeft | .shiftRight => 9
  | .add | .sub => 10
  | .mul | .div | .mod => 11

/-- A word shifted left; no bit is left when the count is the width or more. -/
def shiftedLeft (x : BitVec 64) (count : Nat) : BitVec 64 :=
  if count < 64 then x <<< count else 0

/-- A word shifted right; a signed one is filled up with its sign. -/
def shiftedRight (unsigned : Bool) (x : BitVec 64) (count : Nat) : BitVec 64 :=
  if unsigned then (if count < 64 then x >>> count else 0)
  else x.sshiftRight (min count 63)

/-- The quotient of two words, rounded toward the lower number. -/
def quotient (unsigned : Bool) (x y : BitVec 64) : BitVec 64 :=
  if unsigned then x / y else BitVec.ofInt 64 (Int.fdiv x.toInt y.toInt)

/-- The remainder of two words, with the sign of the divisor. -/
def remainder (unsigned : Bool) (x y : BitVec 64) : BitVec 64 :=
  if unsigned then x % y else BitVec.ofInt 64 (Int.fmod x.toInt y.toInt)

/-- Whether a word is less than another. -/
def less (unsigned : Bool) (x y : BitVec 64) : Bool :=
  if unsigned then x.ult y else x.slt y

/-- The value of an operator at two words; there is none for a division by zero. The logical operators leave their operands as they
are; the others take both as unsigned when one is. -/
def result? (op : BinaryOp) (a b : Word) : Option Word :=
  let unsigned := a.unsigned || b.unsigned
  let x := a.bits
  let y := b.bits
  match op with
  | .or => some (Word.ofBool (a.truth || b.truth))
  | .and => some (Word.ofBool (a.truth && b.truth))
  | .bitOr => some { bits := x ||| y, unsigned }
  | .bitXor => some { bits := x ^^^ y, unsigned }
  | .bitAnd => some { bits := x &&& y, unsigned }
  | .eq => some (Word.ofBool (x == y))
  | .ne => some (Word.ofBool (x != y))
  | .lt => some (Word.ofBool (less unsigned x y))
  | .le => some (Word.ofBool (!less unsigned y x))
  | .gt => some (Word.ofBool (less unsigned y x))
  | .ge => some (Word.ofBool (!less unsigned x y))
  | .shiftLeft => some { bits := shiftedLeft x y.toNat, unsigned }
  | .shiftRight => some { bits := shiftedRight unsigned x y.toNat, unsigned }
  | .add => some { bits := x + y, unsigned }
  | .sub => some { bits := x - y, unsigned }
  | .mul => some { bits := x * y, unsigned }
  | .div => if y = 0 then none else some { bits := quotient unsigned x y, unsigned }
  | .mod => if y = 0 then none else some { bits := remainder unsigned x y, unsigned }

end BinaryOp

end Prepass
