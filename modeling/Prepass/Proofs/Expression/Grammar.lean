import Prepass.Proofs.Expression.Blame

/-!
# The grammar of expressions

The expressions of conditionals as the grammar of C has them, stratum by stratum: the conditional operator is loosest, then come ten
strata of binary operators, which group to the left, then the unary operators, and last the constants, names, calls and expressions
in parentheses (`Derives`). What a derivation makes of its tokens is a tree, and the value of a tree is found from the bottom up
(`Tree.value?`). It has one when its constants do and no divisor is zero (`Tree.exists_value?_iff`). What stands between the
parentheses of a call has no part in the tree.
-/

namespace Prepass

namespace Expression

/-! ## Trees and their values -/

/-- The tree of an expression. -/
inductive Tree where
  | literal (t : Token)
  | name (t : Token)
  | call (name : Token)
  | unary (op : UnaryOp) (e : Tree)
  | binary (op : BinaryOp) (l r : Tree)
  | conditional (c yes no : Tree)

namespace Tree

/-- The value of a tree. All operands are evaluated, also both of a conditional. -/
def value? : Tree → Option Word
  | literal t => t.constant.toOption
  | name t => some (identifierWord t.value)
  | call _ => some (Word.ofInt 0)
  | unary op e => e.value?.map op.apply
  | binary op l r => l.value?.bind fun a => r.value?.bind fun b => op.result? a b
  | conditional c yes no =>
    c.value?.bind fun w => yes.value?.bind fun a => no.value?.bind fun b => some (if w.truth then a else b)

/-- Every constant has a word. -/
def Convertible : Tree → Prop
  | literal t => ∃ w, t.constant = .ok w
  | name _ => True
  | call _ => True
  | unary _ e => e.Convertible
  | binary _ l r => l.Convertible ∧ r.Convertible
  | conditional c yes no => c.Convertible ∧ yes.Convertible ∧ no.Convertible

/-- No division and no remainder has a divisor that is zero. -/
def DivisorsNonzero : Tree → Prop
  | literal _ => True
  | name _ => True
  | call _ => True
  | unary _ e => e.DivisorsNonzero
  | binary op l r => l.DivisorsNonzero ∧ r.DivisorsNonzero ∧ (op = .div ∨ op = .mod → ∀ w, r.value? = some w → w.truth = true)
  | conditional c yes no => c.DivisorsNonzero ∧ yes.DivisorsNonzero ∧ no.DivisorsNonzero

end Tree

/-- An operator has no value at two words only when it divides by zero. -/
theorem exists_result?_iff {op : BinaryOp} {a b : Word} :
    (∃ w, op.result? a b = some w) ↔ (op = .div ∨ op = .mod → b.truth = true) := by
  cases op <;> simp [BinaryOp.result?, Word.truth]

/-- A tree has a value when its constants have words and no divisor is zero. -/
theorem Tree.exists_value?_iff (e : Tree) : (∃ w, e.value? = some w) ↔ e.Convertible ∧ e.DivisorsNonzero := by
  induction e with
  | literal t =>
    cases h : t.constant <;> simp [value?, Convertible, DivisorsNonzero, Except.toOption, h]
  | name t => simp [value?, Convertible, DivisorsNonzero]
  | call t => simp [value?, Convertible, DivisorsNonzero]
  | unary op e ih =>
    rw [Convertible, DivisorsNonzero, ← ih]
    cases h : e.value? <;> simp [value?, h]
  | binary op l r ihl ihr =>
    have hboth : (∃ w, (binary op l r).value? = some w) ↔
        (∃ a, l.value? = some a) ∧ ∃ b, r.value? = some b ∧ (op = .div ∨ op = .mod → b.truth = true) := by
      simp only [value?, Option.bind_eq_some_iff]
      constructor
      · rintro ⟨w, a, ha, b, hb, hw⟩
        exact ⟨⟨a, ha⟩, b, hb, exists_result?_iff.mp ⟨w, hw⟩⟩
      · rintro ⟨⟨a, ha⟩, b, hb, hzero⟩
        obtain ⟨w, hw⟩ := (exists_result?_iff (a := a)).mpr hzero
        exact ⟨w, a, ha, b, hb, hw⟩
    rw [hboth, ihl, Convertible, DivisorsNonzero]
    constructor
    · rintro ⟨⟨hlc, hld⟩, b, hb, hzero⟩
      obtain ⟨hrc, hrd⟩ := ihr.mp ⟨b, hb⟩
      refine ⟨⟨hlc, hrc⟩, hld, hrd, fun hop w hw => ?_⟩
      rw [hb] at hw
      cases hw
      exact hzero hop
    · rintro ⟨⟨hlc, hrc⟩, hld, hrd, hzero⟩
      obtain ⟨b, hb⟩ := ihr.mpr ⟨hrc, hrd⟩
      exact ⟨⟨hlc, hld⟩, b, hb, fun hop => hzero hop b hb⟩
  | conditional c yes no ihc ihyes ihno =>
    have hall : (∃ w, (conditional c yes no).value? = some w) ↔
        (∃ w, c.value? = some w) ∧ (∃ a, yes.value? = some a) ∧ ∃ b, no.value? = some b := by
      cases hc : c.value? <;> cases hyes : yes.value? <;> cases hno : no.value? <;> simp [value?, hc, hyes, hno]
    rw [hall, ihc, ihyes, ihno, Convertible, DivisorsNonzero]
    constructor
    · rintro ⟨⟨hcc, hcd⟩, ⟨hyc, hyd⟩, hnc, hnd⟩
      exact ⟨⟨hcc, hyc, hnc⟩, hcd, hyd, hnd⟩
    · rintro ⟨⟨hcc, hyc, hnc⟩, hcd, hyd, hnd⟩
      exact ⟨⟨hcc, hcd⟩, ⟨hyc, hyd⟩, hnc, hnd⟩

/-! ## Strata -/

/-- The strata of the grammar, loosest first. -/
inductive Stratum where
  | conditional
  | or
  | and
  | bitOr
  | bitXor
  | bitAnd
  | equality
  | relational
  | shift
  | additive
  | multiplicative
  | unary
  | primary

namespace Stratum

/-- The stratum that binds next more tightly. -/
def tighter : Stratum → Stratum
  | conditional => or
  | or => and
  | and => bitOr
  | bitOr => bitXor
  | bitXor => bitAnd
  | bitAnd => equality
  | equality => relational
  | relational => shift
  | shift => additive
  | additive => multiplicative
  | multiplicative => unary
  | unary => primary
  | primary => primary

/-- The binary operators of a stratum. -/
def operators : Stratum → List BinaryOp
  | or => [.or]
  | and => [.and]
  | bitOr => [.bitOr]
  | bitXor => [.bitXor]
  | bitAnd => [.bitAnd]
  | equality => [.eq, .ne]
  | relational => [.lt, .le, .gt, .ge]
  | shift => [.shiftLeft, .shiftRight]
  | additive => [.add, .sub]
  | multiplicative => [.mul, .div, .mod]
  | conditional | unary | primary => []

end Stratum

/-- Tokens in which parentheses are balanced. -/
inductive Balanced : List Token → Prop
  | nil : Balanced []
  | token {t : Token} {more : List Token} (hopen : t.value ≠ "(") (hclose : t.value ≠ ")") (hmore : Balanced more) :
    Balanced (t :: more)
  | group {o c : Token} {inner more : List Token} (ho : o.value = "(") (hinner : Balanced inner) (hc : c.value = ")")
    (hmore : Balanced more) : Balanced (o :: inner ++ c :: more)

/-- The tokens that a stratum derives, with their tree. -/
inductive Derives : Stratum → List Token → Tree → Prop
  | tighter {s : Stratum} {ts : List Token} {e : Tree} (h : Derives s.tighter ts e) : Derives s ts e
  | conditional {cs ys ns : List Token} {question colon : Token} {c yes no : Tree} (hc : Derives .or cs c)
    (hquestion : isPunctuator "?" question = true) (hyes : Derives .conditional ys yes) (hcolon : isPunctuator ":" colon = true)
    (hno : Derives .conditional ns no) : Derives .conditional (cs ++ question :: (ys ++ colon :: ns)) (.conditional c yes no)
  | binary {s : Stratum} {ls rs : List Token} {t : Token} {op : BinaryOp} {l r : Tree} (hop : op ∈ s.operators)
    (hl : Derives s ls l) (ht : binaryOp? t = some op) (hr : Derives s.tighter rs r) : Derives s (ls ++ t :: rs) (.binary op l r)
  | unary {t : Token} {op : UnaryOp} {ts : List Token} {e : Tree} (ht : unaryOp? t = some op) (h : Derives .unary ts e) :
    Derives .unary (t :: ts) (.unary op e)
  | group {o c : Token} {ts : List Token} {e : Tree} (ho : isPunctuator "(" o = true) (h : Derives .conditional ts e)
    (hc : isPunctuator ")" c = true) : Derives .primary (o :: (ts ++ [c])) e
  | number {t : Token} (ht : t.kind = .numberLiteral) : Derives .primary [t] (.literal t)
  | character {t : Token} (ht : t.kind = .characterLiteral) : Derives .primary [t] (.literal t)
  | name {t : Token} (ht : t.kind = .identifier) : Derives .primary [t] (.name t)
  | call {t o c : Token} {inner : List Token} (ht : t.kind = .identifier) (ho : isPunctuator "(" o = true) (hinner : Balanced inner)
    (hc : c.value = ")") : Derives .primary (t :: o :: (inner ++ [c])) (.call t)

/-! ## How tightly a stratum binds -/

namespace Stratum

/-- The precedence of a stratum. -/
def level : Stratum → Nat
  | conditional => conditionalPrecedence
  | or => 2
  | and => 3
  | bitOr => 4
  | bitXor => 5
  | bitAnd => 6
  | equality => 7
  | relational => 8
  | shift => 9
  | additive => 10
  | multiplicative => 11
  | unary => unaryPrecedence
  | primary => 13

theorem one_le_level (s : Stratum) : 1 ≤ s.level := by
  cases s <;> decide

theorem eq_of_level_eq {s s' : Stratum} (h : s.level = s'.level) : s = s' := by
  cases s <;> cases s' <;> first | rfl | exact absurd h (by decide)

/-- Only the last stratum has none that binds more tightly. -/
theorem level_tighter {s s' : Stratum} (h : s.level < s'.level) : s.tighter.level = s.level + 1 := by
  cases s <;> first | rfl | (cases s' <;> exact absurd h (by decide))

/-- The operators of a stratum are those of its precedence. -/
theorem mem_operators_iff {s : Stratum} {op : BinaryOp} : op ∈ s.operators ↔ op.precedence = s.level := by
  cases s <;> cases op <;> decide

/-- Every operator has a stratum. -/
theorem exists_mem_operators (op : BinaryOp) : ∃ s : Stratum, op ∈ s.operators := by
  cases op with
  | or => exact ⟨or, by decide⟩
  | and => exact ⟨and, by decide⟩
  | bitOr => exact ⟨bitOr, by decide⟩
  | bitXor => exact ⟨bitXor, by decide⟩
  | bitAnd => exact ⟨bitAnd, by decide⟩
  | eq | ne => exact ⟨equality, by decide⟩
  | lt | le | gt | ge => exact ⟨relational, by decide⟩
  | shiftLeft | shiftRight => exact ⟨shift, by decide⟩
  | add | sub => exact ⟨additive, by decide⟩
  | mul | div | mod => exact ⟨multiplicative, by decide⟩

end Stratum

/-- Binary operators bind more tightly than the conditional operator and less tightly than the unary ones. -/
theorem precedence_bounds (op : BinaryOp) : conditionalPrecedence < op.precedence ∧ op.precedence < unaryPrecedence := by
  cases op <;> decide

/-- What a stratum derives, every stratum that binds less tightly derives too. -/
theorem Derives.loosen {p q : Stratum} {ts : List Token} {e : Tree} (h : Derives q ts e) (hle : p.level ≤ q.level) : Derives p ts e := by
  induction hn : q.level - p.level generalizing p with
  | zero =>
    have heq : p = q := Stratum.eq_of_level_eq (by omega)
    exact heq ▸ h
  | succ n ih =>
    have htighter : p.tighter.level = p.level + 1 := Stratum.level_tighter (show p.level < q.level by omega)
    exact .tighter (ih (by omega) (by omega))

end Expression

end Prepass
