import Mathlib
import Prepass.Proofs.Macro.Identity
import Prepass.Proofs.Token.Adjacent
import Prepass.Proofs.Token.Stream

/-!
# Invocations

An invocation is a name before arguments in parentheses, with commas between them. An argument is a group of tokens in which parentheses
balance and commas stand inside parentheses only. Reading an invocation gives each argument as one token that holds its spelling
(`Arguments.read_invocation`), and the arguments beyond the last parameter are joined to one text with commas between. A comma is a lexeme
wherever it stands, so lexing that text gives the tokens of the arguments and of the commas (`Token.saySame_ofText_separated`). Each
parameter is thus bound to tokens that its argument is lexed as, and an omitted argument leaves the last one bound to
nothing (`Macro.binds_arguments`).
-/

namespace Prepass

/-! ## Arguments -/

/-- Arguments with commas between them. -/
def Token.separated (args : List (List Token)) : List Token :=
  [sign ","].intercalate args

/-- A name before arguments in parentheses. -/
def Arguments.invocation (name : Token) (args : List (List Token)) : List Token :=
  name :: .sign "(" :: (Token.separated args ++ [.sign ")"])

namespace Arguments

/-- The depth of parentheses after tokens. There is none when a parenthesis is closed that was not opened, or when a comma stands outside of
parentheses. -/
def depthAfter : Nat → List Token → Option Nat
  | depth, [] => some depth
  | depth, t :: rest =>
    if t.value = "(" then depthAfter (depth + 1) rest
    else if depth = 0 ∧ t.value ∈ [")", ","] then none
    else depthAfter (if t.value = ")" then depth - 1 else depth) rest

/-- An argument: lexed tokens with balanced parentheses and no comma outside of them. No quote stands alone among them, and they are not
just a paste operator. -/
structure Group (tokens : List Token) : Prop where
  ne_nil : tokens ≠ []
  balanced : depthAfter 0 tokens = some 0
  lexed : ∀ t ∈ tokens, t.Lexed ∧ ¬t.LoneQuote
  not_paste : tokens.map Token.value ≠ ["##"]

end Arguments

namespace Token

theorem separated_singleton (a : List Token) : separated [a] = a := by
  simp [separated, List.intercalate]

/-- Two arguments have a comma between them. -/
theorem separated_cons_cons (a b : List Token) (rest : List (List Token)) :
    separated (a :: b :: rest) = a ++ sign "," :: separated (b :: rest) := by
  simp [separated, List.intercalate]

/-- Arguments with commas between them have no other tokens than these. -/
theorem mem_separated {t : Token} {args : List (List Token)} (h : t ∈ separated args) : (∃ a ∈ args, t ∈ a) ∨ t = sign "," := by
  induction args with
  | nil => cases h
  | cons a rest ih =>
    cases rest with
    | nil => exact .inl ⟨a, List.mem_cons_self, by rwa [separated_singleton] at h⟩
    | cons b rest =>
      rw [separated_cons_cons] at h
      rcases List.mem_append.mp h with h | h
      · exact .inl ⟨a, List.mem_cons_self, h⟩
      · rcases List.mem_cons.mp h with h | h
        · exact .inr h
        · obtain ⟨c, hc, ht⟩ | ht := ih h
          · exact .inl ⟨c, List.mem_cons_of_mem a hc, ht⟩
          · exact .inr ht

/-- A comma is a lexed token. -/
theorem lexed_comma : (sign ",").Lexed :=
  lexed_of_lexeme rfl (by decide) (by decide)

end Token

/-! ## Reading them -/

namespace Arguments

/-- Tokens with parentheses that do not close below the start become part of the group. -/
theorem readFrom_balanced {tokens : List Token} {depth depth' : Nat} (h : depthAfter depth tokens = some depth')
    (hkind : ∀ t ∈ tokens, t.kind ≠ .eof) (consumed : Nat) (arguments group tail : List Token) :
    readFrom (·.kind = .eof) consumed arguments group depth (tokens ++ tail) =
      readFrom (·.kind = .eof) (consumed + tokens.length) arguments (tokens.reverse ++ group) depth' tail := by
  induction tokens generalizing depth consumed group with
  | nil =>
    cases h
    rfl
  | cons t rest ih =>
    obtain ⟨ht, hrest⟩ := List.forall_mem_cons.mp hkind
    have hlength : consumed + (t :: rest).length = consumed + 1 + rest.length := by
      rw [List.length_cons]
      omega
    rw [depthAfter] at h
    rw [List.cons_append, readFrom, if_neg (by simpa using ht), hlength, List.reverse_cons, List.append_assoc]
    by_cases hopen : t.value = "("
    · rw [if_pos hopen] at h
      simp only [hopen, if_true, String.reduceEq, and_false, if_false]
      exact ih h hrest ..
    · rw [if_neg hopen] at h
      split at h
      · cases h
      · rename_i hinside
        have hclose : ¬(depth = 0 ∧ t.value = ")") := fun hall => hinside ⟨hall.1, by simp [hall.2]⟩
        have hcomma : ¬(depth = 0 ∧ t.value = ",") := fun hall => hinside ⟨hall.1, by simp [hall.2]⟩
        rw [if_neg hclose, if_neg hcomma, if_neg hopen]
        exact ih h hrest ..

/-- A group is one argument at most, so its order does not matter. -/
theorem reverse_ofGroup (tokens : List Token) : (ofGroup tokens).reverse = ofGroup tokens := by
  cases tokens <;> rfl

namespace Group

variable {tokens : List Token}

/-- An argument has no end mark. -/
theorem kind_ne (h : Group tokens) : ∀ t ∈ tokens, t.kind ≠ .eof :=
  fun t ht => (h.lexed t ht).1.kind_ne.1

/-- An argument is given as a token that holds its spelling. -/
theorem saySame_ofGroup (h : Group tokens) : SaySame (ofGroup tokens) [.standIn tokens] := by
  have hstrip := Token.strip_spell fun t ht => (h.lexed t ht).1
  obtain ⟨first, rest, rfl⟩ := List.exists_cons_of_ne_nil h.ne_nil
  rw [ofGroup, hstrip]
  rfl

end Group

/-- A comma outside of parentheses ends an argument, and the next one begins. -/
theorem readFrom_comma (consumed : Nat) (arguments group tail : List Token) :
    readFrom (·.kind = .eof) consumed arguments group 0 (.sign "," :: tail) =
      readFrom (·.kind = .eof) (consumed + 1) (ofGroup group.reverse ++ arguments) [] 0 tail := by
  simp [readFrom, Token.sign]

/-- A closing parenthesis outside of others ends the list. -/
theorem readFrom_closing (consumed : Nat) (arguments group tail : List Token) :
    readFrom (·.kind = .eof) consumed arguments group 0 (.sign ")" :: tail) =
      .list (consumed + 1) (arguments.reverse ++ ofGroup group.reverse) := by
  simp [readFrom, Token.sign, reverse_ofGroup]

/-- Arguments with commas between them and a closing parenthesis after them are read one by one. -/
theorem readFrom_separated {args : List (List Token)} (h : ∀ a ∈ args, Group a) (consumed : Nat) (arguments tail : List Token) :
    readFrom (·.kind = .eof) consumed arguments [] 0 (Token.separated args ++ .sign ")" :: tail) =
      .list (consumed + (Token.separated args).length + 1) (arguments.reverse ++ args.flatMap ofGroup) := by
  induction args generalizing consumed arguments with
  | nil => exact readFrom_closing ..
  | cons a rest ih =>
    obtain ⟨ha, hrest⟩ := List.forall_mem_cons.mp h
    cases rest with
    | nil =>
      rw [Token.separated_singleton, readFrom_balanced ha.balanced ha.kind_ne, readFrom_closing]
      simp
    | cons b rest =>
      rw [Token.separated_cons_cons, List.append_assoc, List.cons_append, readFrom_balanced ha.balanced ha.kind_ne, readFrom_comma,
        ih hrest]
      refine congrArg₂ Found.list ?_ ?_
      · simp only [List.length_append, List.length_cons]
        omega
      · simp [reverse_ofGroup]

/-- An invocation is read to its closing parenthesis, wherever its tokens stand. -/
theorem read_invocation {name head : Token} {args : List (List Token)} {inside : List Token} (h : ∀ a ∈ args, Group a)
    (hwindow : SaySame (head :: inside) (invocation name args)) (rest : List Token) :
    ∃ found, read (·.kind = .eof) (inside ++ rest) = .list inside.length found ∧ SaySame found (args.map Token.standIn) := by
  have hinside : SaySame inside (.sign "(" :: (Token.separated args ++ [.sign ")"])) := (List.cons.inj hwindow).2
  have hgroups : SaySame (args.flatMap ofGroup) (args.map Token.standIn) := by
    clear hwindow hinside
    induction args with
    | nil => exact .refl []
    | cons a more ih =>
      obtain ⟨ha, hmore⟩ := List.forall_mem_cons.mp h
      exact ha.saySame_ofGroup.append (ih hmore)
  have hread : read (·.kind = .eof) (.sign "(" :: (Token.separated args ++ [.sign ")"]) ++ rest) =
      .list inside.length (args.flatMap ofGroup) := by
    have hlength : 1 + (Token.separated args).length + 1 = inside.length := by
      rw [hinside.length_eq, List.length_cons, List.length_append, List.length_singleton]
      omega
    have hlist := readFrom_separated h 1 [] rest
    rw [hlength] at hlist
    rw [List.cons_append, List.append_assoc]
    exact hlist
  have hsame := read_same (hinside.append (.refl rest))
  rw [hread] at hsame
  generalize hfound : read (·.kind = .eof) (inside ++ rest) = found at hsame
  cases hsame with
  | list _ hsame => exact ⟨_, rfl, hsame.trans hgroups⟩

end Arguments

/-! ## Joining them -/

namespace Token

/-- Before a comma, lexed tokens are lexed as they were, and the comma is a token of its own. -/
theorem content_scan_comma {ts : List Token} (h : ∀ t ∈ ts, t.Lexed ∧ ¬t.LoneQuote) (tail : List Char) :
    (Lexer.scan 1 "" 0 false ((spell ts).toList ++ ',' :: tail)).map content =
      ts.map content ++ (sign ",").content :: (Lexer.scan 1 "" 0 false tail).map content := by
  have hseparator : ',' ∈ Lexer.separators := by decide
  have hcomma := (Lexer.starts_separator hseparator tail).content_scan
  rw [List.singleton_append] at hcomma
  rw [content_scan_spell h, hcomma]
  · rfl
  · intro t ht
    obtain ⟨hlexed, hlone⟩ := h t (List.mem_of_getLast? ht)
    exact hlexed.starts_before_separator hlone hseparator tail

/-- The spellings of arguments, joined with commas, are lexed as the tokens of the arguments and the commas. -/
theorem saySame_ofText_separated {args : List (List Token)} (h : ∀ a ∈ args, ∀ t ∈ a, t.Lexed ∧ ¬t.LoneQuote) :
    SaySame (ofText (spell (args.map standIn) ",")) (separated args) := by
  induction args with
  | nil => exact congrArg _ Lexer.scan_nil
  | cons a rest ih =>
    obtain ⟨ha, hrest⟩ := List.forall_mem_cons.mp h
    cases rest with
    | nil =>
      rw [separated_singleton]
      exact saySame_ofText_spell ha
    | cons b rest =>
      have htext : (spell ((a :: b :: rest).map standIn) ",").toList =
          (spell a).toList ++ ',' :: (spell ((b :: rest).map standIn) ",").toList := by
        simp [spell, Text.join, standIn]
      have hscan := content_scan_comma ha (spell ((b :: rest).map standIn) ",").toList
      rw [← htext] at hscan
      have hmore := (ih hrest).map_eq
      have hjoined : (separated (a :: b :: rest)).map content =
          a.map content ++ (sign ",").content :: (ofText (spell ((b :: rest).map standIn) ",")).map content := by
        rw [separated_cons_cons, List.map_append, List.map_cons, hmore]
      exact hscan.trans hjoined.symm

/-- Only a paste operator alone is spelled as one. -/
theorem spell_ne_paste {ts : List Token} (h : ts.map value ≠ ["##"]) : spell ts ≠ "##" := by
  intro hspell
  match ts with
  | [] => exact absurd hspell (by decide)
  | [t] => exact h (by simpa [spell, Text.join] using hspell)
  | t :: u :: rest =>
    have hspace : ' ' ∈ (spell (t :: u :: rest)).toList := by simp [toList_spell_cons]
    rw [hspell] at hspace
    revert hspace
    decide

end Token

/-! ## Binding parameters -/

namespace Arguments

/-- A token that holds an argument is lexed as the tokens of the argument, which are not just a paste operator. -/
structure Tells (argument : Token) (tokens : List Token) : Prop where
  ne_nil : tokens ≠ []
  reads : SaySame (Token.ofText argument.value) tokens
  not_paste : Token.spell tokens ≠ "##"

/-- Parameters, the tokens that hold their arguments, and what the parameters stand for. The argument of the last parameter may be
omitted. -/
inductive Binds : List String → List Token → List (String × List Token) → Prop
  | done : Binds [] [] []
  | given (param : String) {params : List String} {argument : Token} {arguments tokens : List Token}
    {bindings : List (String × List Token)} (h : Tells argument tokens) (hrest : Binds params arguments bindings) :
    Binds (param :: params) (argument :: arguments) ((param, tokens) :: bindings)
  | omitted (param : String) : Binds [param] [] [(param, [])]

/-- A parameter has an argument that tells what it stands for, or is omitted and stands for nothing. -/
theorem Binds.lookup {params : List String} {arguments : List Token} {bindings : List (String × List Token)}
    (h : Binds params arguments bindings) (text : String) :
    (params.idxOf? text = none ∧ bindings.lookup text = none) ∨
    ∃ index, params.idxOf? text = some index ∧ ((arguments[index]? = none ∧ bindings.lookup text = some []) ∨
      ∃ argument tokens, arguments[index]? = some argument ∧ bindings.lookup text = some tokens ∧ Tells argument tokens) := by
  induction h with
  | done => exact .inl ⟨rfl, rfl⟩
  | given param h _ ih =>
    by_cases hparam : text = param
    · subst hparam
      exact .inr ⟨0, by simp [List.idxOf?_cons], .inr ⟨_, _, rfl, by simp, h⟩⟩
    · have hbeq : (text == param) = false := beq_false_of_ne hparam
      have hbeq' : (param == text) = false := beq_false_of_ne (Ne.symm hparam)
      simp only [List.idxOf?_cons, hbeq', List.lookup_cons, hbeq]
      obtain ⟨hnone, hlookup⟩ | ⟨index, hindex, hfound⟩ := ih
      · exact .inl ⟨by simp [hnone], hlookup⟩
      · exact .inr ⟨index + 1, by simp [hindex], by simpa using hfound⟩
  | omitted param =>
    by_cases hparam : text = param
    · subst hparam
      exact .inr ⟨0, by simp [List.idxOf?_cons], .inl ⟨rfl, by simp⟩⟩
    · have hbeq : (text == param) = false := beq_false_of_ne hparam
      have hbeq' : (param == text) = false := beq_false_of_ne (Ne.symm hparam)
      exact .inl ⟨by simp [List.idxOf?_cons, hbeq'], by simp [List.lookup_cons, hbeq]⟩

/-- The token that holds an argument tells its tokens. -/
theorem Group.tells {tokens : List Token} (h : Group tokens) {argument : Token}
    (hargument : argument.content = (Token.standIn tokens).content) : Tells argument tokens where
  ne_nil := h.ne_nil
  reads := by
    rw [Token.value_of_content hargument]
    exact Token.saySame_ofText_spell h.lexed
  not_paste := Token.spell_ne_paste h.not_paste

/-- Arguments that are joined tell the tokens of all of them, with commas between. -/
theorem tells_separated {a b : List Token} {rest : List (List Token)} (h : ∀ c ∈ a :: b :: rest, Group c) {argument : Token}
    (hvalue : argument.value = Token.spell ((a :: b :: rest).map Token.standIn) ",") :
    Tells argument (Token.separated (a :: b :: rest)) where
  ne_nil := by simp [Token.separated_cons_cons]
  reads := by
    rw [hvalue]
    exact Token.saySame_ofText_separated fun c hc => (h c hc).lexed
  not_paste := by
    refine Token.spell_ne_paste fun hvalues => ?_
    have hlength := congrArg List.length hvalues
    have hpos := List.length_pos_iff.mpr (h a List.mem_cons_self).ne_nil
    simp only [Token.separated_cons_cons, List.length_map, List.length_append, List.length_cons, List.length_nil] at hlength
    omega

/-- Where at least two parameters are left, the first argument is one of its own. -/
theorem fold_cons (params : Nat) (argument : Token) (arguments : List Token) :
    fold (params + 2) (argument :: arguments) = argument :: fold (params + 1) arguments := by
  have hle : (argument :: arguments).length ≤ params + 2 ↔ arguments.length ≤ params + 1 := by
    rw [List.length_cons]
    omega
  simp only [fold, hle, Nat.add_sub_cancel, List.drop_succ_cons, List.take_succ_cons, show params + 2 - 1 = params + 1 by omega]
  split
  · rfl
  · split <;> rfl

/-- Where there are enough parameters, nothing is folded. -/
theorem fold_of_length_le {params : Nat} {arguments : List Token} (h : arguments.length ≤ params) : fold params arguments = arguments :=
  if_pos h

/-- As many arguments as parameters are bound one to one. -/
theorem binds_zip {params : List String} {args : List (List Token)} {found : List Token} (h : ∀ a ∈ args, Group a)
    (hfound : SaySame found (args.map Token.standIn)) (hlength : args.length = params.length) : Binds params found (params.zip args) := by
  induction params generalizing args found with
  | nil =>
    obtain rfl := List.length_eq_zero_iff.mp hlength
    obtain rfl := hfound.eq_nil_iff.mpr rfl
    exact .done
  | cons param params ih =>
    obtain ⟨a, rest, rfl⟩ := List.exists_cons_of_length_eq_add_one hlength
    obtain ⟨ha, hrest⟩ := List.forall_mem_cons.mp h
    rcases hfound.cases with ⟨-, hnil⟩ | ⟨argument, more, _, _, rfl, heq, hargument, hmore⟩
    · cases hnil
    · cases heq
      exact .given param (ha.tells hargument) (ih hrest hmore (by simpa using hlength))

/-- The last parameter of a variadic macro is bound to all arguments that are left. -/
theorem binds_rest (last : String) {args : List (List Token)} {found : List Token} (h : ∀ a ∈ args, Group a)
    (hfound : SaySame found (args.map Token.standIn)) : Binds [last] (fold 1 found) [(last, Token.separated args)] := by
  match args with
  | [] =>
    obtain rfl := hfound.eq_nil_iff.mpr rfl
    exact .omitted last
  | [a] =>
    obtain ⟨argument, rfl⟩ := List.length_eq_one_iff.mp hfound.length_eq
    rw [fold_of_length_le (Nat.le_refl 1), Token.separated_singleton]
    exact .given last ((h a List.mem_cons_self).tells (List.cons.inj hfound).1) .done
  | a :: b :: rest =>
    obtain ⟨first, second, more, rfl⟩ : ∃ first second more, found = first :: second :: more := by
      match found, hfound.length_eq with
      | first :: second :: more, _ => exact ⟨first, second, more, rfl⟩
    have hfold : fold 1 (first :: second :: more) = [{ first with value := Token.spell (first :: second :: more) "," }] := by
      simp [fold]
    rw [hfold]
    exact .given last (tells_separated h (Token.spell_congr hfound ",")) .done

/-- At least as many arguments as parameters before the last are bound one to one, and the last parameter to those that are left. -/
theorem binds_fold {params : List String} (last : String) {args : List (List Token)} {found : List Token} (h : ∀ a ∈ args, Group a)
    (hfound : SaySame found (args.map Token.standIn)) (hlength : params.length ≤ args.length) :
    Binds (params ++ [last]) (fold (params.length + 1) found)
      (params.zip args ++ [(last, Token.separated (args.drop params.length))]) := by
  induction params generalizing args found with
  | nil => exact binds_rest last h hfound
  | cons param params ih =>
    have hpos : 0 < args.length := Nat.lt_of_lt_of_le (Nat.succ_pos params.length) hlength
    obtain ⟨a, rest, rfl⟩ := List.exists_cons_of_length_pos hpos
    obtain ⟨ha, hrest⟩ := List.forall_mem_cons.mp h
    rcases hfound.cases with ⟨-, hnil⟩ | ⟨argument, more, _, _, rfl, heq, hargument, hmore⟩
    · cases hnil
    · cases heq
      rw [List.length_cons, fold_cons]
      exact .given param (ha.tells hargument) (ih hrest hmore (by simpa using hlength))

end Arguments

namespace Macro

/-- What the parameters of a macro stand for in an invocation: the last parameter of a variadic one for all arguments that are left, with
commas between them. -/
def bindings (m : Macro) (args : List (List Token)) : List (String × List Token) :=
  match m.shape with
  | .object => []
  | .function params => params.zip args
  | .variadic params last => params.zip args ++ [(last, Token.separated (args.drop params.length))]

/-- The body of a macro with its parameters replaced by what they stand for. -/
def substituted (m : Macro) (args : List (List Token)) : List Token :=
  m.body.flatMap fun t => ((m.bindings args).lookup t.value).getD [t]

/-- The arguments that a macro accepts are bound to its parameters. -/
theorem binds_arguments {m : Macro} {params : List String} {args : List (List Token)} {found : List Token}
    (h : ∀ a ∈ args, Arguments.Group a) (hfound : SaySame found (args.map Token.standIn)) (hparams : m.params? = some params)
    (haccepts : m.accepts args.length = true) : Arguments.Binds params (Arguments.fold params.length found) (m.bindings args) := by
  obtain ⟨name, shape, body⟩ := m
  cases shape with
  | object => cases hparams
  | function params =>
    cases hparams
    have hlength : args.length = params.length := by simpa [accepts] using haccepts
    have hle : found.length ≤ params.length := by rw [hfound.length_eq, List.length_map, hlength]
    rw [Arguments.fold_of_length_le hle]
    exact Arguments.binds_zip h hfound hlength
  | variadic params last =>
    cases hparams
    rw [List.length_append, List.length_singleton]
    exact Arguments.binds_fold last h hfound (by simpa [accepts] using haccepts)

/-- A token of what a parameter stands for is one of an argument or a comma. -/
theorem mem_of_lookup_bindings {m : Macro} {args : List (List Token)} {text : String} {tokens : List Token}
    (h : (m.bindings args).lookup text = some tokens) {t : Token} (ht : t ∈ tokens) : (∃ a ∈ args, t ∈ a) ∨ t = .sign "," := by
  obtain ⟨before, after, heq, -⟩ := List.lookup_eq_some_iff.mp h
  have hmem : (text, tokens) ∈ m.bindings args := by simp [heq]
  unfold bindings at hmem
  split at hmem
  · cases hmem
  · exact .inl ⟨tokens, (List.of_mem_zip hmem).2, ht⟩
  · rcases List.mem_append.mp hmem with hmem | hmem
    · exact .inl ⟨tokens, (List.of_mem_zip hmem).2, ht⟩
    · cases List.mem_singleton.mp hmem
      obtain ⟨a, ha, hta⟩ | hcomma := Token.mem_separated ht
      · exact .inl ⟨a, List.mem_of_mem_drop ha, hta⟩
      · exact .inr hcomma

/-- A token of the body with its parameters replaced is one of the body or of an argument, or a comma. -/
theorem mem_substituted {m : Macro} {args : List (List Token)} {t : Token} (h : t ∈ m.substituted args) :
    t ∈ m.body ∨ (∃ a ∈ args, t ∈ a) ∨ t = .sign "," := by
  obtain ⟨u, hu, ht⟩ := List.mem_flatMap.mp h
  cases hlookup : (m.bindings args).lookup u.value with
  | none =>
    rw [hlookup] at ht
    rw [List.mem_singleton.mp ht]
    exact .inl hu
  | some tokens =>
    rw [hlookup] at ht
    exact .inr (mem_of_lookup_bindings hlookup ht)

end Macro

end Prepass
