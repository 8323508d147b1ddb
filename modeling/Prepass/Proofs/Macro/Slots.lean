import Mathlib
import Prepass.Proofs.Macro.Invocation

/-!
# What an argument list is

Reading an argument list keeps a depth, a group and the arguments so far. What it comes to is said here without them. The nesting of tokens
is the number of opening parentheses among them less that of closing ones, and the list ends at the first place where the nesting of all
tokens up to there is back at zero (`Arguments.Closes`). What stands between the two parentheses is split at the commas that have nesting
zero in front of them, and each slot that is not empty is an argument (`Arguments.read_slots`). Where the first parenthesis is not closed
there is no argument list.

The depth at which a token is read is the nesting of what stands between the first parenthesis and the token.
-/

namespace Prepass.Arguments

/-! ## Nesting and slots -/

/-- The number of opening parentheses less the number of closing ones. -/
def nesting (tokens : List Token) : Int :=
  tokens.countP (·.value = "(") - tokens.countP (·.value = ")")

/-- At a level of nesting in front of them, the tokens come to level zero at a place for the first time, and none of them up to there is a
stop. -/
structure ClosesFrom (stop : Token → Bool) (level : Int) (tokens : List Token) (k : Nat) : Prop where
  lt_length : k < tokens.length
  not_stop : ∀ t ∈ tokens.take (k + 1), stop t = false
  closed : level + nesting (tokens.take (k + 1)) = 0
  first : ∀ j < k, level + nesting (tokens.take (j + 1)) ≠ 0

/-- The tokens begin with an opening parenthesis, which is not a stop. -/
def Opens (stop : Token → Bool) (tokens : List Token) : Prop :=
  ∃ t ∈ tokens.head?, stop t = false ∧ t.value = "("

/-- The tokens begin with an opening parenthesis that is closed at a place. -/
structure Closes (stop : Token → Bool) (tokens : List Token) (k : Nat) : Prop where
  opens : Opens stop tokens
  closesFrom : ClosesFrom stop 0 tokens k

/-- The tokens, split at the commas in front of which the level of nesting is zero, where it is `level` in front of all. -/
def slotsFrom (level : Int) (tokens : List Token) : List (List Token) :=
  let levels := tokens.scanl (fun level t => level + nesting [t]) level
  ((tokens.zip levels).splitOnP fun (t, level) => decide (t.value = "," ∧ level = 0)).map (List.map Prod.fst)

/-- The tokens, split at the commas outside of parentheses. -/
def slots (tokens : List Token) : List (List Token) :=
  slotsFrom 0 tokens

/-- The argument that a slot is, if it is not empty: its texts with spaces between them, without the blanks around, at the place of its
first token. -/
def slotArgument? (slot : List Token) : Option Token :=
  slot.head?.map fun first =>
    { value := Text.strip (Text.join " " (slot.map Token.value)), kind := .stringLiteral, line := first.line, column := first.column,
      uri := first.uri, generated := true }

section

variable {stop : Token → Bool} {level : Int} {t : Token} {tokens rest : List Token} {k : Nat}

theorem nesting_nil : nesting [] = 0 := rfl

/-- Nesting adds up token by token. -/
theorem nesting_cons (t : Token) (rest : List Token) : nesting (t :: rest) = nesting [t] + nesting rest := by
  simp only [nesting, List.countP_cons, List.countP_nil]
  omega

/-- An opening parenthesis is one level. -/
theorem nesting_opening (h : t.value = "(") : nesting [t] = 1 := by
  simp [nesting, h]

/-- A closing parenthesis takes a level back. -/
theorem nesting_closing (h : t.value = ")") : nesting [t] = -1 := by
  simp [nesting, h]

/-- Any other token leaves the level as it is. -/
theorem nesting_other (hopen : t.value ≠ "(") (hclose : t.value ≠ ")") : nesting [t] = 0 := by
  simp [nesting, hopen, hclose]

theorem slotsFrom_nil (level : Int) : slotsFrom level [] = [[]] := rfl

/-- A comma at level zero is where the tokens are split. -/
theorem slotsFrom_comma (h : t.value = ",") (rest : List Token) : slotsFrom 0 (t :: rest) = [] :: slotsFrom 0 rest := by
  have hlevel : nesting [t] = 0 := nesting_other (by simp [h]) (by simp [h])
  simp [slotsFrom, List.scanl_cons, List.splitOnP_cons_eq_if_modifyHead, h, hlevel]

/-- Any other token belongs to the first slot. -/
theorem slotsFrom_cons (h : ¬(t.value = "," ∧ level = 0)) (rest : List Token) :
    slotsFrom level (t :: rest) = (slotsFrom (level + nesting [t]) rest).modifyHead (t :: ·) := by
  simp only [slotsFrom, List.scanl_cons, List.zip_cons_cons, List.splitOnP_cons_eq_if_modifyHead, h, decide_false, Bool.false_eq_true,
    if_false]
  generalize (rest.zip (rest.scanl (fun level t => level + nesting [t]) (level + nesting [t]))).splitOnP _ = pieces
  cases pieces <;> rfl

/-- The first token closes when it takes the level back to zero. -/
theorem closesFrom_zero : ClosesFrom stop level (t :: rest) 0 ↔ stop t = false ∧ level + nesting [t] = 0 := by
  constructor
  · rintro ⟨-, hstop, hclosed, -⟩
    exact ⟨hstop t (by simp), by simpa using hclosed⟩
  · rintro ⟨hstop, hclosed⟩
    exact ⟨by simp, by simpa using hstop, by simpa using hclosed, nofun⟩

/-- A later token closes when the first one does not, and it does from the level after the first one. -/
theorem closesFrom_succ : ClosesFrom stop level (t :: rest) (k + 1) ↔
    stop t = false ∧ level + nesting [t] ≠ 0 ∧ ClosesFrom stop (level + nesting [t]) rest k := by
  have htake (j : Nat) : level + nesting ((t :: rest).take (j + 1)) = level + nesting [t] + nesting (rest.take j) := by
    rw [List.take_succ_cons, nesting_cons]
    omega
  constructor
  · rintro ⟨hlt, hstop, hclosed, hfirst⟩
    obtain ⟨ht, hrest⟩ := List.forall_mem_cons.mp hstop
    refine ⟨ht, ?_, by simpa using hlt, hrest, (htake (k + 1)).symm.trans hclosed, fun j hj => ?_⟩
    · simpa using hfirst 0 (by omega)
    · rw [← htake]
      exact hfirst (j + 1) (by omega)
  · rintro ⟨ht, hopen, hlt, hrest, hclosed, hfirst⟩
    refine ⟨by simpa using hlt, List.forall_mem_cons.mpr ⟨ht, hrest⟩, (htake (k + 1)).trans hclosed, fun j hj => ?_⟩
    rw [htake]
    cases j with
    | zero => simpa [nesting_nil] using hopen
    | succ j => exact hfirst j (by omega)

end

/-! ## Reading -/

section

variable {stop : Token → Bool} {consumed depth : Nat} {arguments group rest : List Token} {t : Token}

/-- Reading an argument list ends at a stop before the list is closed. -/
theorem readFrom_stop (h : stop t = true) : readFrom stop consumed arguments group depth (t :: rest) = .unclosed := by
  rw [readFrom, if_pos h]

/-- The parenthesis that closes the list ends the last slot. -/
theorem readFrom_last (hstop : stop t = false) (hclosed : (depth : Int) + 1 + nesting [t] = 0) :
    readFrom stop consumed arguments group depth (t :: rest) =
      .list (consumed + 1) (arguments.reverse ++ ofGroup group.reverse) := by
  have hclose : t.value = ")" := by
    by_contra hclose
    by_cases hopen : t.value = "("
    · rw [nesting_opening hopen] at hclosed
      omega
    · rw [nesting_other hopen hclose] at hclosed
      omega
  rw [nesting_closing hclose] at hclosed
  have hdepth : depth = 0 := by omega
  simp [readFrom, hstop, hdepth, hclose, reverse_ofGroup]

/-- Any other token is read at one less than the level, and only a comma outside of inner parentheses ends a slot. -/
theorem readFrom_inside (consumed : Nat) (arguments group rest : List Token) (hstop : stop t = false) (hopen : (depth : Int) + 1 + nesting [t] ≠ 0) :
    ∃ depth' : Nat, (depth' : Int) = depth + nesting [t] ∧
      readFrom stop consumed arguments group depth (t :: rest) =
        if t.value = "," ∧ (depth : Int) = 0 then readFrom stop (consumed + 1) (ofGroup group.reverse ++ arguments) [] depth' rest
        else readFrom stop (consumed + 1) arguments (t :: group) depth' rest := by
  by_cases hopening : t.value = "("
  · refine ⟨depth + 1, by rw [nesting_opening hopening]; rfl, ?_⟩
    simp [readFrom, hstop, hopening]
  by_cases hclosing : t.value = ")"
  · rw [nesting_closing hclosing] at hopen ⊢
    have hdepth : depth ≠ 0 := by omega
    refine ⟨depth - 1, by omega, ?_⟩
    simp [readFrom, hstop, hclosing, hdepth]
  · refine ⟨depth, by rw [nesting_other hopening hclosing, add_zero], ?_⟩
    by_cases hcomma : t.value = "," ∧ (depth : Int) = 0
    · obtain ⟨hvalue, hdepth⟩ := hcomma
      have hzero : depth = 0 := by omega
      simp [readFrom, hstop, hvalue, hzero]
    · have hnot : ¬(depth = 0 ∧ t.value = ",") := fun h => hcomma ⟨h.2, by omega⟩
      rw [if_neg hcomma]
      simp [readFrom, hstop, hopening, hclosing, hnot]

/-- With no group so far, the slots are as they are. -/
theorem modifyHead_nil_append (pieces : List (List Token)) : pieces.modifyHead (([] : List Token).reverse ++ ·) = pieces := by
  cases pieces <;> rfl

/-- From the depth at which a list is open until it is closed, the slots are collected: the group so far belongs to the first one. The
induction is on the tokens, and the depth is one less than the level. -/
theorem readFrom_of_closesFrom {tokens : List Token} {k : Nat} (h : ClosesFrom stop (depth + 1) tokens k) :
    readFrom stop consumed arguments group depth tokens =
      .list (consumed + (k + 1)) (arguments.reverse ++
        ((slotsFrom depth (tokens.take k)).modifyHead (group.reverse ++ ·)).flatMap ofGroup) := by
  induction tokens generalizing consumed arguments group depth k with
  | nil => exact absurd h.lt_length (Nat.not_lt_zero k)
  | cons t rest ih =>
    cases k with
    | zero =>
      obtain ⟨hstop, hclosed⟩ := closesFrom_zero.mp h
      rw [readFrom_last hstop hclosed]
      simp [slotsFrom_nil]
    | succ k =>
      obtain ⟨hstop, hopen, hrest⟩ := closesFrom_succ.mp h
      obtain ⟨depth', hdepth, hread⟩ := readFrom_inside consumed arguments group rest hstop hopen
      have hlevel : (depth : Int) + 1 + nesting [t] = depth' + 1 := by omega
      rw [hlevel] at hrest
      rw [hread, List.take_succ_cons, show consumed + (k + 1 + 1) = consumed + 1 + (k + 1) by omega]
      by_cases hcomma : t.value = "," ∧ (depth : Int) = 0
      · have hzero : (depth' : Int) = 0 := by
          have hlevel : nesting [t] = 0 := nesting_other (by simp [hcomma.1]) (by simp [hcomma.1])
          omega
        rw [if_pos hcomma, ih hrest, hcomma.2, hzero, slotsFrom_comma hcomma.1, modifyHead_nil_append]
        simp [reverse_ofGroup]
      · rw [if_neg hcomma, ih hrest, slotsFrom_cons hcomma, hdepth, List.modifyHead_modifyHead]
        simp [Function.comp_def]

/-- While the list is not closed, reading comes to no list. -/
theorem readFrom_of_not_closesFrom {tokens : List Token} (h : ∀ k, ¬ClosesFrom stop (depth + 1) tokens k) :
    readFrom stop consumed arguments group depth tokens = .unclosed := by
  induction tokens generalizing consumed arguments group depth with
  | nil => rfl
  | cons t rest ih =>
    cases hstop : stop t with
    | true => exact readFrom_stop hstop
    | false =>
      have hopen : (depth : Int) + 1 + nesting [t] ≠ 0 := fun hclosed => h 0 (closesFrom_zero.mpr ⟨hstop, hclosed⟩)
      obtain ⟨depth', hdepth, hread⟩ := readFrom_inside consumed arguments group rest hstop hopen
      have hlevel : (depth : Int) + 1 + nesting [t] = depth' + 1 := by omega
      have hrest (k : Nat) : ¬ClosesFrom stop (depth' + 1) rest k := by
        rw [← hlevel]
        exact fun hcloses => h (k + 1) (closesFrom_succ.mpr ⟨hstop, hopen, hcloses⟩)
      rw [hread, ih hrest, ih hrest, ite_self]

end

/-! ## Argument lists -/

section

variable {stop : Token → Bool} {tokens : List Token} {k : Nat}

/-- Only the tokens up to the place count. -/
theorem Closes.take_append (h : Closes stop tokens k) (rest : List Token) : Closes stop (tokens.take (k + 1) ++ rest) k := by
  obtain ⟨⟨t, ht, hopens⟩, hlt, hstop, hclosed, hfirst⟩ := h
  have hlength : (tokens.take (k + 1)).length = k + 1 := by
    rw [List.length_take]
    omega
  have htake (j : Nat) (hj : j ≤ k) : (tokens.take (k + 1) ++ rest).take (j + 1) = tokens.take (j + 1) := by
    rw [List.take_append_of_le_length (by omega), List.take_take, Nat.min_eq_left (by omega)]
  refine ⟨⟨t, ?_, hopens⟩, ?_, ?_, ?_, fun j hj => ?_⟩
  · rw [List.head?_append, List.head?_take, if_neg (Nat.succ_ne_zero k)]
    rw [Option.mem_def.mp ht]
    rfl
  · rw [List.length_append]
    omega
  · rwa [htake k (Nat.le_refl k)]
  · rwa [htake k (Nat.le_refl k)]
  · rw [htake j (Nat.le_of_lt hj)]
    exact hfirst j hj

/-- A group of tokens is the argument of its slot, if there is one. -/
theorem ofGroup_eq_toList (slot : List Token) : ofGroup slot = (slotArgument? slot).toList := by
  cases slot <;> rfl

/-- The list is open after the first parenthesis, at depth zero. -/
theorem closes_cons {t : Token} {rest : List Token} (hstop : stop t = false) (hopen : t.value = "(") :
    Closes stop (t :: rest) (k + 1) ↔ ClosesFrom stop ((0 : Nat) + 1) rest k := by
  have hlevel : (0 : Int) + nesting [t] = (0 : Nat) + 1 := by rw [nesting_opening hopen]; rfl
  constructor
  · intro h
    exact hlevel ▸ (closesFrom_succ.mp h.closesFrom).2.2
  · intro h
    refine ⟨⟨t, rfl, hstop, hopen⟩, closesFrom_succ.mpr ⟨hstop, ?_, hlevel ▸ h⟩⟩
    rw [hlevel]
    decide

/-- After the opening parenthesis reading is inside of the list. -/
theorem read_cons {t : Token} {rest : List Token} (hstop : stop t = false) (hopen : t.value = "(") :
    read stop (t :: rest) = readFrom stop 1 [] [] 0 rest := by
  simp [read, hstop, hopen]

/-- The list between the parentheses is read into its slots. -/
theorem read_of_closes (h : Closes stop tokens k) :
    read stop tokens = .list (k + 1) ((slots ((tokens.take k).drop 1)).filterMap slotArgument?) := by
  obtain ⟨t, ht, hstop, hopen⟩ := h.opens
  obtain ⟨rest, rfl⟩ := List.head?_eq_some_iff.mp ht
  cases k with
  | zero =>
    have hclosed := (closesFrom_zero.mp h.closesFrom).2
    rw [nesting_opening hopen] at hclosed
    exact absurd hclosed (by decide)
  | succ k =>
    have harguments (slots : List (List Token)) : slots.flatMap ofGroup = slots.filterMap slotArgument? := by
      rw [List.filterMap_eq_flatMap_toList]
      exact congrArg (slots.flatMap ·) (funext ofGroup_eq_toList)
    rw [read_cons hstop hopen, readFrom_of_closesFrom ((closes_cons hstop hopen).mp h), modifyHead_nil_append, harguments,
      Nat.add_comm 1 (k + 1)]
    rfl

/-- Where the first parenthesis is not closed, there is no argument list. -/
theorem read_of_not_closes (h : ∀ k, ¬Closes stop tokens k) :
    (Opens stop tokens → read stop tokens = .unclosed) ∧ (¬Opens stop tokens → read stop tokens = .absent) := by
  constructor
  · rintro ⟨t, ht, hstop, hopen⟩
    obtain ⟨rest, rfl⟩ := List.head?_eq_some_iff.mp ht
    rw [read_cons hstop hopen]
    exact readFrom_of_not_closesFrom fun k hcloses => h (k + 1) ((closes_cons hstop hopen).mpr hcloses)
  · intro hopens
    cases tokens with
    | nil => rfl
    | cons t rest =>
      have hnot : ¬(stop t = false ∧ t.value = "(") := fun ht => hopens ⟨t, rfl, ht⟩
      rw [read, if_neg (by simpa using hnot)]

/-- Tokens whose first parenthesis is closed at a place are an argument list up to there, whatever follows, and its arguments are its slots
that are not empty, in order. Any other tokens are no argument list: they do not begin with a parenthesis, or it is not closed. -/
theorem read_slots (stop : Token → Bool) (tokens : List Token) :
    (∀ k, Closes stop tokens k →
      read stop tokens = .list (k + 1) ((slots ((tokens.take k).drop 1)).filterMap slotArgument?) ∧
      ∀ rest, read stop (tokens.take (k + 1) ++ rest) = read stop tokens) ∧
    ((∀ k, ¬Closes stop tokens k) →
      (Opens stop tokens → read stop tokens = .unclosed) ∧ (¬Opens stop tokens → read stop tokens = .absent)) := by
  refine ⟨fun k h => ⟨read_of_closes h, fun rest => ?_⟩, read_of_not_closes⟩
  have htake : (tokens.take (k + 1) ++ rest).take k = tokens.take k := by
    rw [List.take_append_of_le_length (by rw [List.length_take]; have := h.closesFrom.lt_length; omega), List.take_take,
      Nat.min_eq_left (Nat.le_succ k)]
  rw [read_of_closes (h.take_append rest), read_of_closes h, htake]

/-- An argument list with an empty slot, and a name after it. -/
def nestedList : List Token :=
  [.sign "(", .word "a", .sign ",", .sign "(", .word "b", .sign ",", .word "c", .sign ")", .sign ",", .sign ")", .word "rest"]

/-- The list with an empty slot has two arguments, whatever follows it, and has none without the parenthesis that closes it. -/
theorem read_slots_nested :
    Closes (fun _ => false) nestedList 9 ∧
    (∃ found, read (fun _ => false) nestedList = .list 10 found ∧ found.map Token.value = ["a", "( b , c )"] ∧
      read (fun _ => false) (nestedList.take 10 ++ [.sign ")", .sign ","]) = .list 10 found) ∧
    (∀ k, ¬Closes (fun _ => false) (nestedList.take 8) k) ∧ read (fun _ => false) (nestedList.take 8) = .unclosed := by
  have hcloses : Closes (fun _ => false) nestedList 9 := ⟨⟨_, rfl, rfl, rfl⟩, by decide, by decide, by decide, by decide⟩
  have hnot (k : Nat) : ¬Closes (fun _ => false) (nestedList.take 8) k := by
    intro h
    have hopen : ∀ j < 8, 0 + nesting ((nestedList.take 8).take (j + 1)) ≠ 0 := by decide
    exact hopen k h.closesFrom.lt_length h.closesFrom.closed
  obtain ⟨hlist, hany⟩ := (read_slots (fun _ => false) nestedList).1 9 hcloses
  refine ⟨hcloses, ⟨_, hlist, by cbv, (hany _).trans hlist⟩, hnot, ?_⟩
  exact ((read_slots (fun _ => false) (nestedList.take 8)).2 hnot).1 ⟨_, rfl, rfl, rfl⟩

end

end Prepass.Arguments
