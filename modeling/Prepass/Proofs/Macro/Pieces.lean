import Mathlib
import Prepass.Proofs.Macro.Faultless
import Prepass.Proofs.Macro.Silence

/-!
# Pieces of a body

Between the arguments that take the place of parameters stand the paste operators of the body. Pieces keep the two apart (`Piece`), so that it
can be said which of them are to be joined: those with an operator of the body between them, where an omitted argument is an empty
operand (`joined`). Pasting only sees the tokens that are kept of the pieces, and takes every token that reads as an operator for one. It joins
the same pieces just when no argument reads as an operator, and no token stands beside an operator only because an omitted argument
between the two is gone (`paste_kept_eq_iff`).
-/

namespace Prepass

namespace Substitution

/-- A piece of a body with its arguments in place: a paste operator of the body, a token, the place of an omitted argument, which may have
taken a comma and a paste operator before it along, or a paste operator with an omitted argument on its right. -/
inductive Piece where
  | operator (t : Token) (ht : Paste.isOperator t = true)
  | token (t : Token)
  | omitted
  | cancelled

namespace Piece

/-- The tokens that are kept of a piece. -/
def kept : Piece → List Token
  | operator t _ => [t]
  | token t => [t]
  | omitted => []
  | cancelled => []

/-- The token that a piece is, if it is no operator. -/
def token? : Piece → Option Token
  | token t => some t
  | _ => none

/-- Whether a piece is an operator or a token, so that no argument is omitted there. -/
def isGiven : Piece → Bool
  | operator _ _ => true
  | token _ => true
  | _ => false

/-- Whether a piece that is no operator does not read as one either. -/
def isPlain : Piece → Bool
  | token t => !Paste.isOperator t
  | _ => true

end Piece

/-! ## Joining pieces -/

/-- The operands so far, latest first, with the last one joined to another. -/
def joinLatest : List (Option Token) → Option Token → List (Option Token)
  | [], right => [right]
  | left :: earlier, right => Paste.concatenate left right :: earlier

/-- The operands so far, latest first, with one more, which an operator may have been waiting for. -/
def place (waiting : Bool) (latest : List (Option Token)) (operand : Option Token) : List (Option Token) :=
  if waiting then joinLatest latest operand else operand :: latest

/-- The operands after those in `latest`, which are latest first, with those joined that have an operator between them; `waiting` tells
whether an operator waits for the operand on its right. -/
def joinFrom (latest : List (Option Token)) (waiting : Bool) : List Piece → List (Option Token)
  | [] => latest.reverse
  | .operator _ _ :: rest => joinFrom latest true rest
  | .token t :: rest => joinFrom (place waiting latest (some t)) false rest
  | .omitted :: rest => joinFrom (place waiting latest none) false rest
  | .cancelled :: rest => joinFrom (joinLatest latest none) false rest

/-- The tokens of pieces, of which those are joined that have an operator of the body between them. -/
def joined (ps : List Piece) : List Token :=
  (joinFrom [] false ps).filterMap id

/-! ## Where pasting joins them -/

/-- What stands on the left: no token so far, a token, or an empty operand after some token. -/
inductive Left where
  | nothing
  | token
  | empty
  deriving DecidableEq, Repr

/-- Whether an operator stands before the next operand: none does, one does, or one stood before an omitted argument. -/
inductive Link where
  | apart
  | due
  | stale
  deriving DecidableEq, Repr

/-- What stands on the left after an omitted argument, which is an empty operand unless an operator joins it to the operand on its left. -/
def Left.skip : Left → Link → Left
  | .nothing, _ => .nothing
  | left, .due => left
  | _, _ => .empty

namespace Link

/-- After an omitted argument no operator is due. -/
def skip : Link → Link
  | apart => apart
  | _ => stale

/-- Whether an operator joins the next token to the tokens on its left, as pasting does, and that is wrong: the operator stood elsewhere, or
it has an empty operand on its left. -/
def misplaced : Left → Link → Bool
  | .token, stale => true
  | .empty, stale => true
  | .empty, due => true
  | _, _ => false

end Link

/-- Whether no token of the pieces is joined to one that it has no operator of the body between. -/
def linkedFrom (left : Left) (link : Link) : List Piece → Bool
  | [] => true
  | .operator _ _ :: rest => linkedFrom left .due rest
  | .token _ :: rest => !Link.misplaced left link && linkedFrom .token .apart rest
  | .omitted :: rest => linkedFrom (left.skip link) link.skip rest
  | .cancelled :: rest => linkedFrom left link.skip rest

/-- No argument reads as an operator, and operators have the operands on their sides that the body gives them. -/
structure Clear (ps : List Piece) : Prop where
  plain : ∀ p ∈ ps, p.isPlain = true
  linked : linkedFrom .nothing .apart ps = true

/-- The tokens that pasting has so far and the operands so far, both latest first, in step with each other. -/
inductive Abreast : Left → List Token → List (Option Token) → Prop
  | nothing {operands : List (Option Token)} (h : operands.filterMap id = []) : Abreast .nothing [] operands
  | token (t : Token) (earlier : List (Option Token)) : Abreast .token (t :: earlier.filterMap id) (some t :: earlier)
  | empty {latest : List Token} {earlier : List (Option Token)} (hne : latest ≠ []) (h : latest = earlier.filterMap id) :
    Abreast .empty latest (none :: earlier)

section

variable {t : Token} {latest : List Token} {operands : List (Option Token)} {waiting waiting' : Bool} {ps : List Piece} {left : Left}
  {link : Link}

/-- An empty operand on the right leaves the left one. -/
theorem concatenate_none (left : Option Token) : Paste.concatenate left none = left := by
  cases left <;> rfl

/-- An empty operand adds no token. -/
theorem filterMap_joinLatest_none : (joinLatest operands none).filterMap id = operands.filterMap id := by
  cases operands with
  | nil => rfl
  | cons left earlier => rw [joinLatest, concatenate_none]

/-- An empty operand adds no token. -/
theorem filterMap_place_none : (place waiting operands none).filterMap id = operands.filterMap id := by
  cases waiting
  · rfl
  · exact filterMap_joinLatest_none

/-- One more token does not make the tokens fewer. -/
theorem length_le_place : (operands.filterMap id).length ≤ ((place waiting operands (some t)).filterMap id).length := by
  cases waiting with
  | false => exact Nat.le_succ _
  | true =>
    match operands with
    | [] => exact Nat.zero_le _
    | none :: earlier => exact Nat.le_succ _
    | some left :: earlier => exact Nat.le_refl _

/-- Tokens that are fewer already stay fewer, because pasting waits whenever an operator of the body does. -/
theorem length_pasteFrom_lt (hplain : ∀ p ∈ ps, p.isPlain = true) (hne : latest ≠ [])
    (hlt : latest.length < (operands.filterMap id).length) (hwaiting : waiting' = true → waiting = true) :
    (Paste.pasteFrom latest waiting (ps.flatMap Piece.kept)).length < ((joinFrom operands waiting' ps).filterMap id).length := by
  induction ps generalizing latest operands waiting waiting' with
  | nil => simpa [Paste.pasteFrom, joinFrom, List.filterMap_reverse] using hlt
  | cons p ps ih =>
    obtain ⟨hp, hrest⟩ := List.forall_mem_cons.mp hplain
    cases p with
    | operator t ht =>
      simp only [List.flatMap_cons, Piece.kept, List.singleton_append, Paste.pasteFrom, ht, if_true, joinFrom]
      exact ih hrest hne hlt fun _ => rfl
    | token t =>
      have ht : Paste.isOperator t = false := by simpa [Piece.isPlain] using hp
      simp only [List.flatMap_cons, Piece.kept, List.singleton_append, Paste.pasteFrom, ht, Bool.false_eq_true, if_false, joinFrom]
      cases waiting with
      | true =>
        obtain ⟨left, earlier, rfl⟩ := List.exists_cons_of_ne_nil hne
        exact ih hrest (List.cons_ne_nil _ _) (Nat.lt_of_lt_of_le hlt length_le_place) id
      | false =>
        obtain rfl : waiting' = false := Bool.eq_false_iff.mpr fun h => Bool.noConfusion (hwaiting h)
        exact ih hrest (List.cons_ne_nil _ _) (Nat.succ_lt_succ hlt) id
    | omitted =>
      simp only [List.flatMap_cons, Piece.kept, List.nil_append, joinFrom]
      exact ih hrest hne (by rwa [filterMap_place_none]) nofun
    | cancelled =>
      simp only [List.flatMap_cons, Piece.kept, List.nil_append, joinFrom]
      exact ih hrest hne (by rwa [filterMap_joinLatest_none]) nofun

namespace Abreast

/-- The tokens so far are the operands that are not empty. -/
theorem latest_eq (h : Abreast left latest operands) : latest = operands.filterMap id := by
  cases h with
  | nothing h => exact h.symm
  | token => rfl
  | empty _ h => exact h

/-- An empty operand on the right of an operator changes nothing. -/
theorem skip (h : Abreast left latest operands) : Abreast left latest (joinLatest operands none) := by
  cases operands with
  | nil =>
    cases h
    exact .nothing rfl
  | cons left earlier =>
    rw [joinLatest, concatenate_none]
    exact h

/-- An omitted argument is an empty operand, which stands alone where no operator is due. -/
theorem gap (h : Abreast left latest operands) (link : Link) :
    Abreast (left.skip link) latest (place (link = .due) operands none) := by
  cases link with
  | due =>
    have hleft : left.skip .due = left := by cases left <;> rfl
    rw [hleft]
    exact h.skip
  | apart | stale =>
    cases h with
    | nothing h => exact .nothing h
    | token t earlier => exact .empty (List.cons_ne_nil _ _) rfl
    | empty hne h => exact .empty hne h

/-- A token that no operator joins comes after those so far. -/
theorem push (h : Abreast left latest operands) (t : Token) : Abreast .token (t :: latest) (some t :: operands) := by
  rw [h.latest_eq]
  exact .token t operands

/-- A token is joined to the one that it belongs to, unless the operator has an empty operand on its left. -/
theorem join (h : Abreast left latest operands) (hleft : left ≠ .empty) (t : Token) :
    Abreast .token (Paste.glueLatest latest t) (joinLatest operands (some t)) := by
  cases h with
  | nothing h =>
    match operands, h with
    | [], _ => exact .token t []
    | none :: earlier, h =>
      have hnone : earlier.filterMap id = [] := h
      have hone := Abreast.token t earlier
      rwa [hnone] at hone
  | token u earlier => exact .token (Paste.glue u t) earlier
  | empty => exact absurd rfl hleft

/-- A token that is joined to one it does not belong to is missing afterwards. -/
theorem misplaced (h : Abreast left latest operands) (hwrong : Link.misplaced left link = true) (t : Token) :
    latest ≠ [] ∧ (Paste.glueLatest latest t).length < ((place (link = .due) operands (some t)).filterMap id).length := by
  cases h with
  | nothing => cases link <;> cases hwrong
  | token u earlier =>
    cases link with
    | stale => exact ⟨List.cons_ne_nil _ _, Nat.lt_succ_self _⟩
    | apart | due => cases hwrong
  | @empty latest earlier hne h =>
    refine ⟨hne, ?_⟩
    obtain ⟨u, rest, rfl⟩ := List.exists_cons_of_ne_nil hne
    have hplaced : (place (link = .due) (none :: earlier) (some t)).filterMap id = t :: earlier.filterMap id := by
      cases link with
      | stale | due => rfl
      | apart => cases hwrong
    rw [hplaced, ← h]
    exact Nat.lt_succ_self _

end Abreast

/-- Only a token that is joined can be joined wrongly. -/
theorem Link.ne_apart_of_misplaced (h : Link.misplaced left link = true) : link ≠ .apart := by
  rintro rfl
  cases left <;> cases h

/-- Gluing leaves a token. -/
theorem glueLatest_ne_nil (latest : List Token) (t : Token) : Paste.glueLatest latest t ≠ [] := by
  cases latest <;> exact List.cons_ne_nil _ _

/-- An omitted argument leaves an operator before it in sight. -/
theorem Link.skip_ne_apart (link : Link) : decide (link.skip ≠ .apart) = decide (link ≠ .apart) := by
  cases link <;> rfl

theorem Link.skip_ne_due : decide (link.skip = .due) = false := by
  cases link <;> rfl

/-- Pasting joins the pieces that have an operator of the body between them just when no token is misplaced. By induction on the pieces; once a
token is joined to one that it does not belong to, there are fewer tokens than there are to be. -/
theorem pasteFrom_eq_iff (link : Link) (hplain : ∀ p ∈ ps, p.isPlain = true) (h : Abreast left latest operands) :
    Paste.pasteFrom latest (link ≠ .apart) (ps.flatMap Piece.kept) = (joinFrom operands (link = .due) ps).filterMap id ↔
      linkedFrom left link ps = true := by
  induction ps generalizing left link latest operands with
  | nil => simp [Paste.pasteFrom, joinFrom, linkedFrom, List.filterMap_reverse, h.latest_eq]
  | cons p ps ih =>
    obtain ⟨hp, hrest⟩ := List.forall_mem_cons.mp hplain
    cases p with
    | operator t ht =>
      simp only [List.flatMap_cons, Piece.kept, List.singleton_append, Paste.pasteFrom, ht, if_true, joinFrom, linkedFrom]
      exact ih .due hrest h
    | token t =>
      have ht : Paste.isOperator t = false := by simpa [Piece.isPlain] using hp
      simp only [List.flatMap_cons, Piece.kept, List.singleton_append, Paste.pasteFrom, ht, Bool.false_eq_true, if_false, joinFrom, linkedFrom]
      cases hwrong : Link.misplaced left link with
      | true =>
        obtain ⟨hne, hlt⟩ := h.misplaced hwrong t
        have happart : link ≠ .apart := Link.ne_apart_of_misplaced hwrong
        have hless := @length_pasteFrom_lt _ _ false false ps hrest (glueLatest_ne_nil latest t) hlt id
        rw [if_pos (decide_eq_true happart)]
        exact iff_of_false (fun heq => absurd (congrArg List.length heq) (Nat.ne_of_lt hless)) (by simp)
      | false =>
        rw [Bool.not_false, Bool.true_and]
        cases link with
        | apart => exact ih .apart hrest (h.push t)
        | due =>
          have hleft : left ≠ .empty := by
            rintro rfl
            cases hwrong
          exact ih .apart hrest (h.join hleft t)
        | stale =>
          cases h with
          | nothing h => exact ih .apart hrest ((Abreast.nothing h).push t)
          | token | empty => cases hwrong
    | omitted =>
      simp only [List.flatMap_cons, Piece.kept, List.nil_append, joinFrom, linkedFrom, ← Link.skip_ne_apart link]
      have hskip := ih link.skip hrest (h.gap link)
      rwa [Link.skip_ne_due] at hskip
    | cancelled =>
      simp only [List.flatMap_cons, Piece.kept, List.nil_append, joinFrom, linkedFrom, ← Link.skip_ne_apart link]
      have hskip := ih link.skip hrest h.skip
      rwa [Link.skip_ne_due] at hskip

/-! ### Arguments that read as operators -/

/-- The number of characters in tokens. -/
def size (ts : List Token) : Nat :=
  (ts.map (·.value.length)).sum

theorem size_cons (t : Token) (ts : List Token) : size (t :: ts) = t.value.length + size ts := rfl

/-- Tokens have as many characters in either order. -/
theorem size_reverse (ts : List Token) : size ts.reverse = size ts := by
  rw [size, List.map_reverse, List.sum_reverse]
  rfl

/-- Gluing loses no character. -/
theorem size_glueLatest (latest : List Token) (t : Token) : size (Paste.glueLatest latest t) = t.value.length + size latest := by
  cases latest with
  | nil => rfl
  | cons left earlier =>
    simp only [Paste.glueLatest, size_cons, Paste.glue, String.length_append]
    omega

/-- Pasting drops the operators and keeps all other characters. -/
theorem size_pasteFrom (latest : List Token) (waiting : Bool) (ts : List Token) :
    size (Paste.pasteFrom latest waiting ts) = size latest + size (ts.filter fun t => !Paste.isOperator t) := by
  fun_induction Paste.pasteFrom latest waiting ts with
  | case1 latest waiting => rw [size_reverse]; rfl
  | case2 latest waiting t rest ht ih => simpa [ht] using ih
  | case3 latest t rest ht ih =>
    rw [ih, size_glueLatest, List.filter_cons_of_pos (by simpa using ht), size_cons]
    omega
  | case4 latest waiting t rest ht _ ih =>
    rw [ih, size_cons, List.filter_cons_of_pos (by simpa using ht), size_cons]
    omega

/-- Placing a token loses no character. -/
theorem size_place (waiting : Bool) (operands : List (Option Token)) (t : Token) :
    size ((place waiting operands (some t)).filterMap id) = t.value.length + size (operands.filterMap id) := by
  cases waiting with
  | false => rfl
  | true =>
    match operands with
    | [] => rfl
    | none :: earlier => rfl
    | some left :: earlier => exact size_glueLatest (left :: earlier.filterMap id) t

/-- Joining keeps all characters of all tokens. -/
theorem size_joinFrom (operands : List (Option Token)) (waiting : Bool) (ps : List Piece) :
    size ((joinFrom operands waiting ps).filterMap id) = size (operands.filterMap id) + size (ps.filterMap Piece.token?) := by
  induction ps generalizing operands waiting with
  | nil =>
    rw [joinFrom, List.filterMap_reverse, size_reverse]
    rfl
  | cons p ps ih =>
    cases p with
    | operator t ht => exact ih operands true
    | token t =>
      have hcons : (Piece.token t :: ps).filterMap Piece.token? = t :: ps.filterMap Piece.token? := rfl
      rw [joinFrom, ih, size_place, hcons, size_cons]
      omega
    | omitted =>
      rw [joinFrom, ih, filterMap_place_none]
      rfl
    | cancelled =>
      rw [joinFrom, ih, filterMap_joinLatest_none]
      rfl

/-- The tokens kept of pieces that do not read as operators are the tokens of the pieces that do not. -/
theorem filter_kept (ps : List Piece) : (ps.flatMap Piece.kept).filter (fun t => !Paste.isOperator t) =
    (ps.filterMap Piece.token?).filter fun t => !Paste.isOperator t := by
  induction ps with
  | nil => rfl
  | cons p ps ih =>
    rw [List.flatMap_cons, List.filter_append, ih]
    cases p with
    | operator t ht =>
      rw [List.filterMap_cons_none rfl, Piece.kept, List.filter_cons_of_neg (by simp [ht])]
      rfl
    | token t =>
      rw [Piece.kept, ← List.filter_append]
      rfl
    | omitted | cancelled => rfl

/-- Tokens that are left out leave fewer characters. -/
theorem size_filter_le (f : Token → Bool) (ts : List Token) : size (ts.filter f) ≤ size ts := by
  induction ts with
  | nil => exact Nat.le_refl _
  | cons t ts ih =>
    rw [List.filter_cons, size_cons]
    split
    · rw [size_cons]
      omega
    · omega

/-- Tokens that read as operators have characters. -/
theorem size_filter_lt {ts : List Token} (ht : t ∈ ts) (hoperator : Paste.isOperator t = true) :
    size (ts.filter fun t => !Paste.isOperator t) < size ts := by
  induction ts with
  | nil => cases ht
  | cons u ts ih =>
    have hle := size_filter_le (fun t => !Paste.isOperator t) ts
    rw [List.filter_cons, size_cons]
    rcases List.mem_cons.mp ht with rfl | ht
    · have hlength : t.value.length = 2 := by rw [of_decide_eq_true hoperator]; rfl
      rw [hoperator]
      simp only [Bool.not_true, Bool.false_eq_true, if_false]
      omega
    · have hlt := ih ht
      split
      · rw [size_cons]
        omega
      · omega

/-- Pasting the tokens that are kept of pieces joins those that have an operator of the body between them just when the pieces are clear. -/
theorem paste_kept_eq_iff (ps : List Piece) : Paste.paste (ps.flatMap Piece.kept) = joined ps ↔ Clear ps := by
  by_cases hplain : ∀ p ∈ ps, p.isPlain = true
  · exact (pasteFrom_eq_iff .apart hplain (.nothing rfl)).trans ⟨fun h => ⟨hplain, h⟩, fun h => h.linked⟩
  · refine iff_of_false (fun heq => ?_) fun h => hplain h.plain
    obtain ⟨p, hp, hoperator⟩ : ∃ p ∈ ps, ¬p.isPlain = true := by simpa using hplain
    cases p with
    | token t =>
      have ht : t ∈ ps.filterMap Piece.token? := List.mem_filterMap.mpr ⟨_, hp, rfl⟩
      have hlt := size_filter_lt ht (by simpa [Piece.isPlain] using hoperator)
      have hsize := congrArg size heq
      rw [Paste.paste, joined, size_pasteFrom, size_joinFrom, filter_kept] at hsize
      exact absurd hsize (by simpa [size] using Nat.ne_of_lt hlt)
    | operator | omitted | cancelled => exact hoperator rfl

/-- Without omitted arguments no operator is misplaced: operators and tokens have the operands that the body gives them. -/
theorem linkedFrom_of_isGiven (h : ∀ p ∈ ps, p.isGiven = true) (hleft : left ≠ .empty) (hlink : link ≠ .stale) :
    linkedFrom left link ps = true := by
  induction ps generalizing left link with
  | nil => rfl
  | cons p ps ih =>
    obtain ⟨hp, hrest⟩ := List.forall_mem_cons.mp h
    cases p with
    | operator t ht => exact ih hrest hleft (by decide)
    | token t =>
      have hright : Link.misplaced left link = false := by
        cases link with
        | apart => cases left <;> rfl
        | due => cases left <;> first | rfl | exact absurd rfl hleft
        | stale => exact absurd rfl hlink
      rw [linkedFrom, hright, Bool.not_false, Bool.true_and]
      exact ih hrest (by decide) (by decide)
    | omitted | cancelled => cases hp

end

end Substitution

end Prepass
