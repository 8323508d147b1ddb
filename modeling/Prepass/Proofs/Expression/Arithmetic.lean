import Mathlib
import Prepass.Proofs.Expression.Operands

/-!
# The arithmetic of C

C says what the operators of a constant expression come to by exact numbers: both operands are taken as unsigned when one is, an unsigned
result wraps around, a signed one has to fit, a quotient is rounded toward zero, a shift is as signed as its left operand, and
a conditional is unsigned when one of its branches is (`UnaryOp.standard?`, `BinaryOp.standard?`, `Tree.standard?`). Where this is defined,
the words of the evaluator are the same but for three kinds of node: a signed division with a remainder and a negative quotient, a shift
of a signed word by an unsigned count, and a conditional that chooses a signed branch beside an unsigned one (`Tree.Departs`). The evaluator
has the word of C at every node just when there is no such node (`evaluates_standard`).
-/

namespace Prepass

/-! ## Exact numbers -/

namespace Word

/-- The number that a word stands for when it is taken as unsigned or as signed. -/
def number (unsigned : Bool) (w : Word) : Int :=
  if unsigned then w.bits.toNat else w.bits.toInt

/-- The word of an exact number: an unsigned one wraps around, and a signed one has to fit. -/
def ofExact? (unsigned : Bool) (n : Int) : Option Word :=
  if unsigned then some (ofIntUnsigned n) else ofInt? n

theorem value_eq_number (w : Word) : w.value = w.number w.unsigned := rfl

/-- Bits are those of the number that they stand for. -/
theorem ofInt_toNat (bits : BitVec 64) : BitVec.ofInt 64 bits.toNat = bits := by
  rw [BitVec.ofInt_natCast, BitVec.ofNat_toNat, BitVec.setWidth_eq]

/-- A word has the bits of the number that it stands for, signed or not. -/
@[simp]
theorem ofInt_number (unsigned : Bool) (w : Word) : BitVec.ofInt 64 (w.number unsigned) = w.bits := by
  cases unsigned <;> simp [number]

/-- Words stand for the same number when they have the same bits. -/
theorem number_inj {unsigned : Bool} {a b : Word} : a.number unsigned = b.number unsigned ↔ a.bits = b.bits := by
  constructor
  · intro h
    rw [← ofInt_number unsigned a, h, ofInt_number]
  · intro h
    rw [number, number, h]

/-- Only the word without set bits stands for zero. -/
theorem number_eq_zero_iff {unsigned : Bool} {w : Word} : w.number unsigned = 0 ↔ w.bits = 0 := by
  have hzero : number unsigned { bits := 0 } = 0 := by cases unsigned <;> rfl
  rw [← hzero, number_inj]

/-- A word is true when it is not zero. -/
theorem truth_eq (w : Word) : w.truth = decide (w.value ≠ 0) := by
  have hzero : w.value ≠ 0 ↔ w.bits ≠ 0 := not_congr number_eq_zero_iff
  rw [truth, Bool.eq_iff_iff, bne_iff_ne, decide_eq_true_eq, hzero]

/-- The word of an exact number has its lowest bits. -/
theorem eq_of_ofExact? {unsigned : Bool} {n : Int} {w : Word} (h : ofExact? unsigned n = some w) :
    w = { bits := BitVec.ofInt 64 n, unsigned } := by
  unfold ofExact? at h
  cases unsigned with
  | true =>
    cases h
    rfl
  | false =>
    simp only [Bool.false_eq_true, if_false, ofInt?] at h
    split at h
    · cases h
      rfl
    · cases h

end Word

/-! ## Operators -/

/-- The word of a unary operator in C. -/
def UnaryOp.standard? (op : UnaryOp) (w : Word) : Option Word :=
  match op with
  | .minus => Word.ofExact? w.unsigned (-w.value)
  | .plus => some w
  | .not => some (.ofBool (w.value = 0))
  | .complement => Word.ofExact? w.unsigned (-w.value - 1)

namespace BinaryOp

/-- The word of a binary operator in C, if it is defined there. A shift multiplies or divides by a power of two, and a remainder is
defined when the quotient is. -/
def standard? (op : BinaryOp) (a b : Word) : Option Word :=
  let unsigned := a.unsigned || b.unsigned
  let x := a.number unsigned
  let y := b.number unsigned
  match op with
  | .or => some (.ofBool (a.value ≠ 0 ∨ b.value ≠ 0))
  | .and => some (.ofBool (a.value ≠ 0 ∧ b.value ≠ 0))
  | .bitOr => some { bits := a.bits ||| b.bits, unsigned }
  | .bitXor => some { bits := a.bits ^^^ b.bits, unsigned }
  | .bitAnd => some { bits := a.bits &&& b.bits, unsigned }
  | .eq => some (.ofBool (x = y))
  | .ne => some (.ofBool (x ≠ y))
  | .lt => some (.ofBool (x < y))
  | .le => some (.ofBool (x ≤ y))
  | .gt => some (.ofBool (y < x))
  | .ge => some (.ofBool (y ≤ x))
  | .shiftLeft => if 0 ≤ b.value ∧ b.value < 64 then Word.ofExact? a.unsigned (a.value * 2 ^ b.value.toNat) else none
  | .shiftRight => if 0 ≤ b.value ∧ b.value < 64 then Word.ofExact? a.unsigned (a.value / 2 ^ b.value.toNat) else none
  | .add => Word.ofExact? unsigned (x + y)
  | .sub => Word.ofExact? unsigned (x - y)
  | .mul => Word.ofExact? unsigned (x * y)
  | .div => if y = 0 then none else Word.ofExact? unsigned (x.tdiv y)
  | .mod => if y = 0 then none else (Word.ofExact? unsigned (x.tdiv y)).bind fun _ => Word.ofExact? unsigned (x.tmod y)

/-- The quotient of two numbers is negative and not exact, so that rounding down is not rounding toward zero. -/
def RoundsDown (x y : Int) : Prop :=
  ¬y ∣ x ∧ (x < 0 ↔ 0 < y)

instance (x y : Int) : Decidable (RoundsDown x y) := inferInstanceAs (Decidable (_ ∧ _))

/-- The evaluator departs from C: it rounds a signed quotient down, and it takes a word as unsigned that is shifted by an unsigned count. -/
def Departs (op : BinaryOp) (a b : Word) : Prop :=
  match op with
  | .div | .mod => a.unsigned = false ∧ b.unsigned = false ∧ RoundsDown a.value b.value
  | .shiftLeft | .shiftRight => a.unsigned = false ∧ b.unsigned = true
  | _ => False

end BinaryOp

/-! ## Where they agree -/

/-- The word of a unary operator is that of C. -/
theorem UnaryOp.apply_of_standard? {op : UnaryOp} {w r : Word} (h : op.standard? w = some r) : op.apply w = r := by
  cases op with
  | minus =>
    rw [Word.eq_of_ofExact? h, BitVec.ofInt_neg, Word.value_eq_number, Word.ofInt_number, apply]
  | plus => exact Option.some.inj h
  | not =>
    cases h
    simp [apply, Word.truth_eq]
  | complement =>
    rw [Word.eq_of_ofExact? h, Int.sub_eq_add_neg, BitVec.ofInt_add, BitVec.ofInt_neg, Word.value_eq_number, Word.ofInt_number, apply,
      BitVec.not_eq_neg_add, BitVec.sub_eq_add_neg]
    rfl

namespace BinaryOp

/-! ### Rounding -/

section

variable {x y : Int}

/-- Rounding down takes one off where it is not rounding toward zero. -/
theorem fdiv_eq_tdiv_add (hy : y ≠ 0) : x.fdiv y = x.tdiv y + if RoundsDown x y then -1 else 0 := by
  unfold RoundsDown
  rw [Int.fdiv_eq_tdiv]
  rcases Int.lt_or_gt_of_ne hy with hneg | hpos
  · have hsign := Int.sign_eq_neg_one_of_neg hneg
    split_ifs <;> grind
  · have hsign := Int.sign_eq_one_of_pos hpos
    split_ifs <;> grind

/-- The remainder of rounding down has the divisor added where it is not rounding toward zero. -/
theorem fmod_eq_tmod_add (hy : y ≠ 0) : x.fmod y = x.tmod y + if RoundsDown x y then y else 0 := by
  unfold RoundsDown
  rw [Int.fmod_eq_tmod]
  rcases Int.lt_or_gt_of_ne hy with hneg | hpos
  · split_ifs <;> grind
  · split_ifs <;> grind

/-- A number that is rounded has another word, unless it differs by zero. -/
theorem ofInt_add_ite_eq_iff {p : Prop} [Decidable p] (n : Int) {m : Int} (hm : BitVec.ofInt 64 m ≠ 0) :
    BitVec.ofInt 64 (n + if p then m else 0) = BitVec.ofInt 64 n ↔ ¬p := by
  by_cases hp : p
  · simpa [hp, BitVec.ofInt_add] using hm
  · simp [hp]

end

section

variable {unsigned : Bool} {a b w : Word}

/-- The quotient of words is that of their numbers, rounded down. -/
theorem quotient_eq (unsigned : Bool) (a b : Word) :
    quotient unsigned a.bits b.bits = BitVec.ofInt 64 ((a.number unsigned).fdiv (b.number unsigned)) := by
  cases unsigned with
  | false => rfl
  | true =>
    have hnat : ((a.bits / b.bits).toNat : Int) = (a.number true).fdiv (b.number true) := by
      rw [BitVec.toNat_udiv, Word.number, Word.number, if_pos rfl, if_pos rfl, Int.fdiv_eq_ediv_of_nonneg _ (Int.natCast_nonneg _)]
      rfl
    rw [← hnat, Word.ofInt_toNat]
    rfl

/-- The remainder of words is that of their numbers, with the sign of the divisor. -/
theorem remainder_eq (unsigned : Bool) (a b : Word) :
    remainder unsigned a.bits b.bits = BitVec.ofInt 64 ((a.number unsigned).fmod (b.number unsigned)) := by
  cases unsigned with
  | false => rfl
  | true =>
    have hnat : ((a.bits % b.bits).toNat : Int) = (a.number true).fmod (b.number true) := by
      rw [BitVec.toNat_umod, Word.number, Word.number, if_pos rfl, if_pos rfl, Int.fmod_eq_emod_of_nonneg _ (Int.natCast_nonneg _)]
      rfl
    rw [← hnat, Word.ofInt_toNat]
    rfl

/-- Unsigned quotients are not negative, so only those of two signed words are rounded down. -/
theorem roundsDown_number_iff (hy : b.number (a.unsigned || b.unsigned) ≠ 0) :
    RoundsDown (a.number (a.unsigned || b.unsigned)) (b.number (a.unsigned || b.unsigned)) ↔
    a.unsigned = false ∧ b.unsigned = false ∧ RoundsDown a.value b.value := by
  cases hunsigned : a.unsigned || b.unsigned with
  | false =>
    obtain ⟨ha, hb⟩ := Bool.or_eq_false_iff.mp hunsigned
    simp [Word.value_eq_number, ha, hb]
  | true =>
    constructor
    · rintro ⟨hdvd, hiff⟩
      have hx : 0 ≤ a.number true := Int.natCast_nonneg _
      have hpos : 0 ≤ b.number true := Int.natCast_nonneg _
      rw [hunsigned] at hy
      omega
    · rintro ⟨ha, hb, -⟩
      rw [ha, hb] at hunsigned
      cases hunsigned

/-! ### Shifts -/

/-- A count that is not negative is the same number in both readings. -/
theorem toNat_value (h : 0 ≤ b.value) : b.value.toNat = b.bits.toNat := by
  unfold Word.value at h ⊢
  split
  · exact Int.toNat_natCast _
  · rename_i hsigned
    rw [if_neg hsigned, BitVec.toInt_eq_toNat_cond] at h
    rw [BitVec.toInt_eq_toNat_cond]
    have := b.bits.isLt
    split at h <;> omega

/-- A shift to the left multiplies by a power of two. -/
theorem shiftedLeft_eq {count : Nat} (h : count < 64) (a : Word) :
    shiftedLeft a.bits count = BitVec.ofInt 64 (a.value * 2 ^ count) := by
  have htwo : BitVec.ofInt 64 (2 ^ count) = BitVec.twoPow 64 count := by
    apply BitVec.eq_of_toNat_eq
    rw [BitVec.toNat_twoPow, BitVec.toNat_ofInt]
    norm_cast
  rw [shiftedLeft, if_pos h, BitVec.shiftLeft_eq_mul_twoPow, BitVec.ofInt_mul, htwo, Word.value_eq_number, Word.ofInt_number]

/-- A shift to the right divides by a power of two, rounding down. -/
theorem shiftedRight_eq {count : Nat} (h : count < 64) (a : Word) :
    shiftedRight a.unsigned a.bits count = BitVec.ofInt 64 (a.value / 2 ^ count) := by
  unfold shiftedRight Word.value
  split
  · have hnat : (a.bits.toNat : Int) / 2 ^ count = ((a.bits >>> count).toNat : Int) := by
      rw [BitVec.toNat_ushiftRight, Nat.shiftRight_eq_div_pow]
      norm_cast
    rw [hnat, Word.ofInt_toNat]
  · have hint : a.bits.toInt / 2 ^ count = (a.bits.sshiftRight count).toInt := by
      rw [BitVec.toInt_sshiftRight, Int.shiftRight_eq_div_pow]
      norm_cast
    rw [hint, BitVec.ofInt_toInt, Nat.min_eq_left (by omega)]

/-! ### Comparisons -/

/-- Words are compared by the numbers that they stand for. -/
theorem less_eq (unsigned : Bool) (a b : Word) : less unsigned a.bits b.bits = decide (a.number unsigned < b.number unsigned) := by
  cases unsigned with
  | false => exact BitVec.slt_eq_decide
  | true => simp [less, Word.number, BitVec.ult_eq_decide]

/-- Words are equal when the numbers are that they stand for. -/
theorem beq_eq (unsigned : Bool) (a b : Word) : (a.bits == b.bits) = decide (a.number unsigned = b.number unsigned) := by
  rw [Bool.eq_iff_iff, beq_iff_eq, decide_eq_true_eq, Word.number_inj]

/-- Only the signedness that a shift takes from its count can differ. -/
theorem shifted_iff (bits : Bool → BitVec 64) {n : Int} (h : Word.ofExact? a.unsigned n = some w)
    (hbits : bits a.unsigned = BitVec.ofInt 64 n) :
    some ({ bits := bits (a.unsigned || b.unsigned), unsigned := a.unsigned || b.unsigned } : Word) = some w ↔
      ¬(a.unsigned = false ∧ b.unsigned = true) := by
  rw [Word.eq_of_ofExact? h, ← hbits, Option.some.injEq, Word.mk.injEq]
  cases a.unsigned <;> cases b.unsigned <;> simp

/-! ### All operators -/

/-- Where C defines a binary operator, its word is that of C unless the evaluator departs from C there. -/
theorem result?_eq_iff {op : BinaryOp} (h : op.standard? a b = some w) : op.result? a b = some w ↔ ¬op.Departs a b := by
  have hexact {n : Int} {unsigned : Bool} {bits : BitVec 64} (hn : Word.ofExact? unsigned n = some w) (hbits : bits = BitVec.ofInt 64 n) :
      some { bits, unsigned } = some w := by
    rw [hbits, Word.eq_of_ofExact? hn]
  unfold standard? at h
  unfold result? Departs
  cases op with
  | or | and => simpa [Word.truth_eq] using h
  | bitOr | bitXor | bitAnd => simpa using h
  | eq => simpa [beq_eq (a.unsigned || b.unsigned)] using h
  | ne => simpa [bne, beq_eq (a.unsigned || b.unsigned)] using h
  | lt | gt => simpa [less_eq] using h
  | le | ge => simpa [less_eq, ← decide_not] using h
  | add => simpa using hexact h (by rw [BitVec.ofInt_add, Word.ofInt_number, Word.ofInt_number])
  | sub =>
    have hbits : a.bits - b.bits = BitVec.ofInt 64 (a.number (a.unsigned || b.unsigned) - b.number (a.unsigned || b.unsigned)) := by
      rw [Int.sub_eq_add_neg, BitVec.ofInt_add, BitVec.ofInt_neg, Word.ofInt_number, Word.ofInt_number, BitVec.sub_eq_add_neg]
    simpa using hexact h hbits
  | mul => simpa using hexact h (by rw [BitVec.ofInt_mul, Word.ofInt_number, Word.ofInt_number])
  | shiftLeft =>
    dsimp only at h ⊢
    split at h
    · rename_i hcount
      have hvalue := toNat_value hcount.1
      rw [hvalue] at h
      exact shifted_iff (fun _ => shiftedLeft a.bits b.bits.toNat) h (shiftedLeft_eq (by omega) a)
    · cases h
  | shiftRight =>
    dsimp only at h ⊢
    split at h
    · rename_i hcount
      have hvalue := toNat_value hcount.1
      rw [hvalue] at h
      exact shifted_iff (fun unsigned => shiftedRight unsigned a.bits b.bits.toNat) h (shiftedRight_eq (by omega) a)
    · cases h
  | div =>
    dsimp only at h ⊢
    split at h
    · cases h
    · rename_i hy
      rw [if_neg (fun hzero => hy (Word.number_eq_zero_iff.mpr hzero)), quotient_eq, fdiv_eq_tdiv_add hy, Word.eq_of_ofExact? h,
        ← roundsDown_number_iff hy]
      simpa using ofInt_add_ite_eq_iff _ (by decide)
  | mod =>
    dsimp only at h ⊢
    split at h
    · cases h
    · rename_i hy
      obtain ⟨_, -, hmod⟩ := Option.bind_eq_some_iff.mp h
      have hbits : b.bits ≠ 0 := fun hzero => hy (Word.number_eq_zero_iff.mpr hzero)
      rw [if_neg hbits, remainder_eq, fmod_eq_tmod_add hy, Word.eq_of_ofExact? hmod, ← roundsDown_number_iff hy]
      simpa using ofInt_add_ite_eq_iff _ (by rwa [Word.ofInt_number])

end

end BinaryOp

/-! ## Trees -/

namespace Expression

namespace Tree

/-- The word of a tree in C, if all of its operations are defined there. -/
def standard? : Tree → Option Word
  | literal t => t.constant.toOption
  | name t => some (identifierWord t.value)
  | call _ => some (Word.ofInt 0)
  | unary op e => e.standard?.bind op.standard?
  | binary op l r => l.standard?.bind fun a => r.standard?.bind fun b => op.standard? a b
  | conditional c yes no =>
    c.standard?.bind fun w => yes.standard?.bind fun a => no.standard?.bind fun b =>
      some { bits := (if w.value ≠ 0 then a else b).bits, unsigned := a.unsigned || b.unsigned }

/-- A tree and the trees of all expressions in it. -/
def nodes : Tree → List Tree
  | literal t => [literal t]
  | name t => [name t]
  | call t => [call t]
  | unary op e => unary op e :: e.nodes
  | binary op l r => binary op l r :: (l.nodes ++ r.nodes)
  | conditional c yes no => conditional c yes no :: (c.nodes ++ (yes.nodes ++ no.nodes))

/-- At this node the evaluator departs from C: at a binary operator, or because the chosen branch of a conditional stays signed beside an
unsigned one. -/
def Departs : Tree → Prop
  | binary op l r => ∃ a b, l.standard? = some a ∧ r.standard? = some b ∧ op.Departs a b
  | conditional c yes no => ∃ w a b, c.standard? = some w ∧ yes.standard? = some a ∧ no.standard? = some b ∧
      (if w.value ≠ 0 then a else b).unsigned = false ∧ (a.unsigned || b.unsigned) = true
  | _ => False

/-- A tree is one of its own nodes. -/
theorem self_mem_nodes (e : Tree) : e ∈ e.nodes := by
  cases e <;> exact List.mem_cons_self

/-- The chosen branch has the signedness of both unless it is signed beside an unsigned one. -/
theorem chosen_eq_iff {p : Prop} [Decidable p] {a b : Word} :
    some (if p then a else b) = some { bits := (if p then a else b).bits, unsigned := a.unsigned || b.unsigned } ↔
      ¬((if p then a else b).unsigned = false ∧ (a.unsigned || b.unsigned) = true) := by
  have heta (w : Word) (unsigned : Bool) : some w = some { bits := w.bits, unsigned } ↔ w.unsigned = unsigned := by
    cases w
    simp
  rw [heta]
  split <;> cases a.unsigned <;> cases b.unsigned <;> simp

/-- Where a tree has a word in C, all of its nodes have the words that they have in C just when the evaluator departs from C at none. The
induction is on the tree: a node departs when its operands have their words of C and it has not. -/
theorem value?_eq_standard?_iff {e : Tree} {w : Word} (h : e.standard? = some w) :
    (∀ d ∈ e.nodes, d.value? = d.standard?) ↔ ∀ d ∈ e.nodes, ¬d.Departs := by
  induction e generalizing w with
  | literal t => simp [nodes, value?, standard?, Departs]
  | name t => simp [nodes, value?, standard?, Departs]
  | call t => simp [nodes, value?, standard?, Departs]
  | unary op e ih =>
    obtain ⟨a, ha, hw⟩ := Option.bind_eq_some_iff.mp h
    rw [nodes, List.forall_mem_cons, List.forall_mem_cons, ih ha]
    refine and_congr_left fun hnone => ?_
    have hvalue : e.value? = some a := ((ih ha).mpr hnone e e.self_mem_nodes).trans ha
    rw [h, value?, hvalue, Option.map_some, UnaryOp.apply_of_standard? hw]
    simp [Departs]
  | binary op l r ihl ihr =>
    obtain ⟨a, ha, hr⟩ := Option.bind_eq_some_iff.mp h
    obtain ⟨b, hb, hw⟩ := Option.bind_eq_some_iff.mp hr
    rw [nodes, List.forall_mem_cons, List.forall_mem_cons, List.forall_mem_append, List.forall_mem_append, ihl ha, ihr hb]
    refine and_congr_left fun hnone => ?_
    have hl : l.value? = some a := ((ihl ha).mpr hnone.1 l l.self_mem_nodes).trans ha
    have hr : r.value? = some b := ((ihr hb).mpr hnone.2 r r.self_mem_nodes).trans hb
    rw [h, value?, hl, hr, Option.bind_some, Option.bind_some, BinaryOp.result?_eq_iff hw]
    simp [Departs, ha, hb]
  | conditional c yes no ihc ihyes ihno =>
    obtain ⟨v, hv, hbranches⟩ := Option.bind_eq_some_iff.mp h
    obtain ⟨a, ha, hrest⟩ := Option.bind_eq_some_iff.mp hbranches
    obtain ⟨b, hb, hw⟩ := Option.bind_eq_some_iff.mp hrest
    rw [nodes, List.forall_mem_cons, List.forall_mem_cons, List.forall_mem_append, List.forall_mem_append, List.forall_mem_append,
      List.forall_mem_append, ihc hv, ihyes ha, ihno hb]
    refine and_congr_left fun hnone => ?_
    have hcondition : c.value? = some v := ((ihc hv).mpr hnone.1 c c.self_mem_nodes).trans hv
    have hyes : yes.value? = some a := ((ihyes ha).mpr hnone.2.1 yes yes.self_mem_nodes).trans ha
    have hno : no.value? = some b := ((ihno hb).mpr hnone.2.2 no no.self_mem_nodes).trans hb
    have hchosen : (if v.truth then a else b) = if v.value ≠ 0 then a else b := by simp [Word.truth_eq]
    rw [h, ← hw, value?, hcondition, hyes, hno, Option.bind_some, Option.bind_some, Option.bind_some, hchosen, chosen_eq_iff]
    simp [Departs, hv, ha, hb]

end Tree

/-- Where the tree of an expression has a word in C, all of its nodes have their words of C just when the evaluator departs from C at none.
The expression then evaluates to that word, and it is true when the word is not zero. -/
theorem evaluates_standard {ts : List Token} {e : Tree} {w : Word} (hts : Derives .conditional ts e) (hw : e.standard? = some w) :
    ((∀ d ∈ e.nodes, d.value? = d.standard?) ↔ ∀ d ∈ e.nodes, ¬d.Departs) ∧
    ((∀ d ∈ e.nodes, ¬d.Departs) → Evaluates ts w ∧ evaluate ts = .ok (decide (w.value ≠ 0))) := by
  refine ⟨Tree.value?_eq_standard?_iff hw, fun hnone => ?_⟩
  have hvalue : e.value? = some w := ((Tree.value?_eq_standard?_iff hw).mpr hnone e e.self_mem_nodes).trans hw
  have hread : Evaluates ts w := hts.evaluates_iff.mpr hvalue
  exact ⟨hread, evaluate_eq_ok_iff.mpr ⟨w, hread, w.truth_eq⟩⟩

/-- The tokens of an exact signed division in an unsigned comparison. -/
def comparison : List Token :=
  [mark "-", number "8", mark "/", number "2", mark "<", number "1u"]

/-- The tree of `comparison`. -/
def comparisonTree : Tree :=
  .binary .lt (.binary .div (.unary .minus (.literal (number "8"))) (.literal (number "2"))) (.literal (number "1u"))

/-- A number with a minus sign is derived wherever unary operators bind tightly enough. -/
theorem derives_negated (digits : String) {s : Stratum} (h : s.level ≤ unaryPrecedence) :
    Derives s [mark "-", number digits] (.unary .minus (.literal (number digits))) :=
  (Derives.unary rfl (derives_number digits)).loosen h

/-- The tokens of the comparison are derived with its tree. -/
theorem derives_comparison : Derives .conditional comparison comparisonTree := by
  have hquotient : Derives .multiplicative [mark "-", number "8", mark "/", number "2"] _ :=
    .binary (by decide) (derives_negated "8" (by decide)) rfl (derives_number "2")
  have hless : Derives .relational comparison comparisonTree := .binary (by decide) (hquotient.loosen (by decide)) rfl (derives_number "1u")
  exact hless.loosen (by decide)

/-- The division of the comparison is exact, so the evaluator departs from C nowhere, and the comparison is false in both. -/
theorem evaluates_standard_comparison :
    comparisonTree.standard? = some (.ofInt 0) ∧ (∀ d ∈ comparisonTree.nodes, d.value? = d.standard?) ∧
    Evaluates comparison (.ofInt 0) ∧ evaluate comparison = .ok false := by
  have hstandard : comparisonTree.standard? = some (.ofInt 0) := by cbv
  have height : Tree.standard? (.unary .minus (.literal (number "8"))) = some (.ofInt (-8)) := by cbv
  have htwo : Tree.standard? (.literal (number "2")) = some (.ofInt 2) := by cbv
  have hexact : ¬BinaryOp.RoundsDown (Word.ofInt (-8)).value (Word.ofInt 2).value := by decide
  have hnone : ∀ d ∈ comparisonTree.nodes, ¬d.Departs := by
    simp [comparisonTree, Tree.nodes, Tree.Departs, BinaryOp.Departs, height, htwo, hexact]
  obtain ⟨hiff, hevaluates⟩ := evaluates_standard derives_comparison hstandard
  obtain ⟨hread, htruth⟩ := hevaluates hnone
  exact ⟨hstandard, hiff.mpr hnone, hread, htruth⟩

/-- A signed quotient, a shift by an unsigned count and a conditional with an unsigned branch have other words than in C, when the quotient
is negative and not exact, and when the shifted word and the chosen branch are signed. -/
theorem division_shift_choice_depart :
    (Derives .conditional [mark "-", number "7", mark "/", number "2"]
        (.binary .div (.unary .minus (.literal (number "7"))) (.literal (number "2"))) ∧
      Tree.standard? (.binary .div (.unary .minus (.literal (number "7"))) (.literal (number "2"))) = some (.ofInt (-3)) ∧
      Evaluates [mark "-", number "7", mark "/", number "2"] (.ofInt (-4))) ∧
    (Derives .conditional [mark "-", number "8", mark ">>", number "1u"]
        (.binary .shiftRight (.unary .minus (.literal (number "8"))) (.literal (number "1u"))) ∧
      Tree.standard? (.binary .shiftRight (.unary .minus (.literal (number "8"))) (.literal (number "1u"))) = some (.ofInt (-4)) ∧
      Evaluates [mark "-", number "8", mark ">>", number "1u"] (.ofIntUnsigned 9223372036854775804)) ∧
    (Derives .conditional [number "1", mark "?", mark "-", number "1", mark ":", number "0u"]
        (.conditional (.literal (number "1")) (.unary .minus (.literal (number "1"))) (.literal (number "0u"))) ∧
      Tree.standard? (.conditional (.literal (number "1")) (.unary .minus (.literal (number "1"))) (.literal (number "0u"))) =
        some (.ofIntUnsigned (-1)) ∧
      Evaluates [number "1", mark "?", mark "-", number "1", mark ":", number "0u"] (.ofInt (-1))) := by
  have hquotient : Derives .multiplicative [mark "-", number "7", mark "/", number "2"] _ :=
    .binary (by decide) (derives_negated "7" (by decide)) rfl (derives_number "2")
  have hshift : Derives .shift [mark "-", number "8", mark ">>", number "1u"] _ :=
    .binary (by decide) (derives_negated "8" (by decide)) rfl (derives_number "1u")
  refine ⟨⟨hquotient.loosen (by decide), ?_, ?_⟩, ⟨hshift.loosen (by decide), ?_, ?_⟩, ?_, ?_, ?_⟩
  · cbv
  · unfold Evaluates
    cbv
  · cbv
  · unfold Evaluates
    cbv
  · exact Derives.conditional (derives_number "1") rfl (derives_negated "1" (by decide)) rfl (derives_number "0u")
  · cbv
  · unfold Evaluates
    cbv

end Expression

end Prepass
