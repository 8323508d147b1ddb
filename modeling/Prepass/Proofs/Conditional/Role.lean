import Prepass.Proofs.Directive.Keyword
import Prepass.Proofs.Token.Lexeme
import Prepass.Session.Process

/-!
# Roles of tokens

What a token is to conditional compilation is told by its kind and, for a directive, by the word after its number sign: a directive opens a
conditional, begins a further or the last branch of it, closes it, or is no conditional at all. The role is read off the text alone. The
statements here say how it bears on parsing: a directive that is parsed says what its role is, and of those that are not parsed the
session still knows the ones that open a conditional or begin a further branch.
-/

namespace Prepass

/-- What a token is to conditional compilation. -/
inductive Token.Role where
  | text
  | plain
  | opening
  | further
  | last
  | closing
  deriving DecidableEq, Repr

/-- The role of a directive with the given keyword. -/
def Token.Role.ofKeyword (keyword : String) : Token.Role :=
  if keyword ∈ ["if", "ifdef", "ifndef"] then .opening
  else if keyword = "elif" then .further
  else if keyword = "else" then .last
  else if keyword = "endif" then .closing
  else .plain

namespace Token

/-- The role of a token. The end mark has none, and neither has a directive whose text does not begin with a number sign. -/
def role? (t : Token) : Option Role :=
  match t.kind with
  | .eof => none
  | .directive =>
    match ofText t.value with
    | [] => none
    | sign :: rest => if sign.value = "#" then some ((rest.head?.map fun t => Role.ofKeyword t.value).getD .plain) else none
  | _ => some .text

/-- The directive line that a directive token is, if it can be parsed. -/
def line? (t : Token) : Option DirectiveLine :=
  match DirectiveLine.ofText t.value t.line t.uri with
  | .ok l _ => some l
  | .error _ _ => none

/-- What parsing a token gives to tell; only directives are parsed. -/
def told (t : Token) : List Notice :=
  if t.kind = .directive then
    match DirectiveLine.ofText t.value t.line t.uri with
    | .ok _ c => c.notices
    | .error e c => c.notices ++ [.unparsable t.value e.message]
  else []

/-! ## The text of a directive -/

/-- A token with the role of a directive is one, and its text is a number sign and what its role is read off. -/
theorem sign_of_role {t : Token} {r : Role} (h : t.role? = some r) (hr : r ≠ .text) :
    t.kind = .directive ∧ ∃ sign rest, ofText t.value = sign :: rest ∧ sign.value = "#" ∧
      r = (rest.head?.map fun t => Role.ofKeyword t.value).getD .plain := by
  unfold role? at h
  split at h
  · nomatch h
  · rename_i hkind
    split at h
    · nomatch h
    · rename_i sign rest htext
      split at h
      · rename_i hsign
        cases h
        exact ⟨hkind, sign, rest, htext, hsign, rfl⟩
      · nomatch h
  · cases h
    exact absurd rfl hr

theorem kind_of_role {t : Token} {r : Role} (h : t.role? = some r) (hr : r ≠ .text) : t.kind = .directive :=
  (sign_of_role h hr).1

/-- A token with the role of text is neither a directive nor the end mark. -/
theorem kind_of_text {t : Token} (h : t.role? = some .text) : t.kind ≠ .directive ∧ t.kind ≠ .eof := by
  constructor
  · intro hkind
    simp only [role?, hkind] at h
    split at h
    · cases h
    · rename_i rest _
      split at h
      · rename_i sign _ _
        have hnot (keyword : String) : Role.ofKeyword keyword ≠ .text := by
          unfold Role.ofKeyword
          repeat' split
          all_goals decide
        cases hrest : rest.head? with
        | none => simp [hrest] at h
        | some keyword =>
          simp only [hrest, Option.map_some, Option.getD_some, Option.some.injEq] at h
          exact hnot _ h
      · cases h
  · intro hkind
    simp [role?, hkind] at h

/-- At the place of a token its text begins with the same number sign and keyword, as far as texts go; the kinds are those of a number
sign and of a word. -/
theorem ofText_of_role {t : Token} {r : Role} (h : t.role? = some r) (hr : r ≠ .text) :
    ∃ sign rest, ofText t.value t.line t.uri = sign :: rest ∧ sign.kind = .punctuator ∧ sign.value = "#" ∧
      r = (rest.head?.map fun t => Role.ofKeyword t.value).getD .plain ∧
      (ofText t.value)[1]?.map (·.value) = rest.head?.map (·.value) := by
  obtain ⟨-, sign, rest, htext, hsign, hrole⟩ := sign_of_role h hr
  have hplace := ofText_place t.value t.line t.uri
  rw [htext] at hplace
  cases hother : ofText t.value t.line t.uri with
  | nil =>
    rw [hother] at hplace
    nomatch hplace
  | cons sign' rest' =>
    rw [hother, List.map_cons, List.map_cons, List.cons.injEq, Prod.mk.injEq] at hplace
    obtain ⟨⟨hvalue, -⟩, hrest⟩ := hplace
    have hvalue' : sign'.value = "#" := hvalue.trans hsign
    have hvalues : rest'.head?.map (·.value) = rest.head?.map (·.value) := by
      have hheads := congrArg (fun l => l.head?.map Prod.fst) hrest
      simp only [List.head?_map, Option.map_map] at hheads
      exact hheads
    refine ⟨sign', rest', rfl, kind_numberSign (by rw [hother]; simp) hvalue', hvalue', ?_, ?_⟩
    · have hroles := congrArg (fun v => (v.map Role.ofKeyword).getD .plain) hvalues
      simp only [Option.map_map] at hroles
      exact hrole.trans hroles.symm
    · rw [htext, hvalues]
      cases rest <;> rfl

/-- The keywords of conditionals. -/
theorem Role.mem_of_ofKeyword {keyword : String} (h : Role.ofKeyword keyword ≠ .plain) :
    keyword ∈ ["if", "ifdef", "ifndef", "elif", "else", "endif"] := by
  refine Decidable.byContradiction fun hnot => ?_
  simp only [List.mem_cons, List.not_mem_nil, or_false, not_or] at hnot
  obtain ⟨hif, hifdef, hifndef, helif, helse, hendif⟩ := hnot
  exact h (by simp [Role.ofKeyword, hif, hifdef, hifndef, helif, helse, hendif])

/-- A keyword of a conditional is an identifier, because its first letter marks no literal. -/
theorem kind_keyword {text : String} {line : Int} {uri : String} {t : Token} (h : t ∈ ofText text line uri)
    (hrole : Role.ofKeyword t.value ≠ .plain) : t.kind = .identifier ∧ t.value ∈ Parse.keywords := by
  have hmem := Role.mem_of_ofKeyword hrole
  have hfirst : ∀ keyword ∈ ["if", "ifdef", "ifndef", "elif", "else", "endif"],
      keyword ∈ Parse.keywords ∧ (keyword.toList.head? = some 'i' ∨ keyword.toList.head? = some 'e') := by decide
  obtain ⟨hknown, hi | he⟩ := hfirst _ hmem
  · exact ⟨kind_word h hi (by decide) (by decide) (by decide), hknown⟩
  · exact ⟨kind_word h he (by decide) (by decide) (by decide), hknown⟩

end Token

/-! ## What parsing makes of a directive -/

/-- The role of a directive line that says this. -/
def Directive.role : Directive → Token.Role
  | .ifdef .. | .ifLine _ => .opening
  | .elifLine _ => .further
  | .elseLine => .last
  | .endifLine => .closing
  | _ => .plain

theorem Directive.ofKeyword_eq_role {d : Directive} {keyword : String} (h : keyword ∈ d.keywords) :
    Token.Role.ofKeyword keyword = d.role := by
  revert keyword
  cases d <;> (simp only [keywords, role]; decide)

namespace Token

/-- A directive that is parsed says what its role is. -/
theorem role_of_line {t : Token} {r : Role} (h : t.role? = some r) (hr : r ≠ .text) {l : DirectiveLine} (hl : t.line? = some l) :
    l.directive.role = r := by
  obtain ⟨sign, rest, htext, hkind, hvalue, rfl, -⟩ := ofText_of_role h hr
  have hparse : ∃ c, Parse.directiveLine { tokens := sign :: rest } = .ok l c := by
    unfold line? DirectiveLine.ofText at hl
    rw [htext] at hl
    split at hl
    · rename_i c hok
      cases hl
      exact ⟨c, hok⟩
    · nomatch hl
  obtain ⟨c, hparse⟩ := hparse
  rcases Parse.keyword_of_directiveLine hkind hvalue hparse with ⟨key, hhead, -, hkey⟩ | ⟨hunknown, hnone⟩
  · rw [hhead, Option.map_some, Option.getD_some, Directive.ofKeyword_eq_role hkey]
  · rw [hunknown]
    cases hhead : rest.head? with
    | none => rfl
    | some key =>
      rw [Option.map_some, Option.getD_some]
      refine Decidable.byContradiction fun hplain => ?_
      have hmem : key ∈ ofText t.value t.line t.uri := by
        rw [htext]
        exact List.mem_cons_of_mem _ (List.mem_of_mem_head? hhead)
      exact hnone key hhead (kind_keyword hmem (Ne.symm hplain))

/-- The last branch and the end of a conditional are always parsed. -/
theorem exists_line {t : Token} {r : Role} (h : t.role? = some r) (hr : r = .last ∨ r = .closing) : ∃ l, t.line? = some l := by
  have hnot : r ≠ .text := by rcases hr with rfl | rfl <;> decide
  obtain ⟨sign, rest, htext, hkind, hvalue, hrole, -⟩ := ofText_of_role h hnot
  cases hhead : rest.head? with
  | none =>
    rw [hhead] at hrole
    rcases hr with rfl | rfl <;> nomatch hrole
  | some key =>
    rw [hhead, Option.map_some, Option.getD_some] at hrole
    have hmem : key ∈ ofText t.value t.line t.uri := by
      rw [htext]
      exact List.mem_cons_of_mem _ (List.mem_of_mem_head? hhead)
    have hplain : Role.ofKeyword key.value ≠ .plain := by
      rw [← hrole]
      rcases hr with rfl | rfl <;> decide
    have hkind' := (kind_keyword hmem hplain).1
    have hwords := Role.mem_of_ofKeyword hplain
    have hform : ∃ form ∈ Parse.forms, ∀ c, c.peek? = some key → ∃ d c', form c = .ok d c' := by
      rcases hr with rfl | rfl
      · have hword : ∀ word ∈ ["if", "ifdef", "ifndef", "elif", "else", "endif"], .last = Role.ofKeyword word → word = "else" := by
          decide
        refine ⟨Parse.elseLine, by simp [Parse.forms], fun c hpeek => ⟨_, _, Parse.elseLine_of_peek hpeek hkind' ?_⟩⟩
        exact hword _ hwords hrole
      · have hword : ∀ word ∈ ["if", "ifdef", "ifndef", "elif", "else", "endif"], .closing = Role.ofKeyword word → word = "endif" := by
          decide
        refine ⟨Parse.endifLine, by simp [Parse.forms], fun c hpeek => ⟨_, _, Parse.endifLine_of_peek hpeek hkind' ?_⟩⟩
        exact hword _ hwords hrole
    obtain ⟨form, hmemForm, hform⟩ := hform
    obtain ⟨l, c, hparse⟩ := Parse.directiveLine_of_form hkind hvalue hhead hmemForm hform
    exact ⟨l, by simp only [line?, DirectiveLine.ofText, htext, hparse]⟩

end Token

/-! ## Carrying out a directive -/

namespace SessionM

/-- A directive token is told, and then its line is carried out, or what is known of a line that cannot be parsed. -/
theorem handleDirective_eq (files : FileAccess) {t : Token} (h : t.kind = .directive) (place : Place) :
    handleDirective files t place = (do
      noteAll t.told
      match t.line? with
      | some l => handleLine files l t place
      | none => handleMalformed t) := by
  funext s
  unfold Token.told Token.line? handleDirective DirectiveLine.ofText
  rw [if_pos h]
  cases hparse : Parse.directiveLine { tokens := Token.ofText t.value t.line t.uri } with
  | ok l c =>
    have hp : parse Parse.directiveLine (Token.ofText t.value t.line t.uri) s = .ok (.ok l) (s.noteAll c.notices) := by
      simp only [parse, hparse]
    rw [bind_of_ok hp]
    rfl
  | error e c =>
    have hp : parse Parse.directiveLine (Token.ofText t.value t.line t.uri) s = .ok (.error e) (s.noteAll c.notices) := by
      simp only [parse, hparse]
    rw [bind_of_ok hp]
    have hnote : s.noteAll (c.notices ++ [.unparsable t.value e.message]) =
        (s.noteAll c.notices).note (.unparsable t.value e.message) := by
      simp [Logged.noteAll, Logged.note]
    have hall : noteAll (c.notices ++ [.unparsable t.value e.message]) s =
        .ok () ((s.noteAll c.notices).note (.unparsable t.value e.message)) := by rw [noteAll, hnote]
    rw [bind_of_ok hall]
    rfl

/-- What a directive that cannot be parsed does to the state of conditionals. -/
def malformed : Token.Role → Conditional → Conditional
  | .opening => Conditional.openMalformed
  | .further => Conditional.branchMalformed
  | _ => id

/-- A directive that cannot be parsed changes the state of conditionals as its role says. -/
theorem handleMalformed_eq {t : Token} {r : Token.Role} (h : t.role? = some r) (hr : r ≠ .text) :
    handleMalformed t = updateConditional (malformed r) := by
  obtain ⟨-, sign, rest, htext, -, rfl⟩ := Token.sign_of_role h hr
  unfold handleMalformed
  rw [htext]
  cases rest with
  | nil => rfl
  | cons keyword more =>
    simp only [List.getElem?_cons_succ, List.getElem?_cons_zero, List.head?_cons, Option.map_some, Option.getD_some]
    unfold Token.Role.ofKeyword
    repeat' split
    all_goals rfl

end SessionM

end Prepass
