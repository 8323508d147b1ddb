import Prepass.Proofs.Macro.Identity
import Prepass.Proofs.Macro.Pieces

/-!
# Substitution as a rewriting of the body

Substitution looks back from a parameter and takes signs off the tokens so far (`TakesOff`). Rewriting looks ahead from a token instead and takes
nothing back (`rewritten`): a number sign and the parameter after it make one piece, and so does an omitted argument with the paste operator
before it, and with the comma before that (`group?`). Both come to the same, whatever expands the arguments, and stop only where an argument
cannot be expanded (`substitute_rewrites`). The induction is on the groups of tokens: a token that no group goes on into takes nothing off.
-/

namespace Prepass

open Expand

namespace Substitution

/-! ## Groups of tokens -/

/-- The piece that a token of a body makes together with tokens after it, and the number of these: a number sign and a parameter make a literal,
and an omitted argument takes a paste operator before it along, together with a comma before that. -/
def group? (params : List String) (arguments : List Token) (t : Token) : List Token → Option (Piece × Nat)
  | [] => none
  | p :: more =>
    if t.value = "#" then (binding? params arguments p).map fun argument => (.token (literal p argument), 1)
    else if t.value = "##" then if binding? params arguments p = some none then some (.cancelled, 1) else none
    else if t.value = "," ∧ p.value = "##" then
      match more with
      | [] => none
      | q :: _ => if binding? params arguments q = some none then some (.omitted, 2) else none
    else none

section

variable (expand : List Token → Expand (List Token)) (params : List String) (arguments : List Token)

/-! ## The rewriting -/

/-- What is put in the place of a token that is in no group; one that is no parameter is kept. -/
def alone (pasted : Bool) (t : Token) (rest : List Token) : Expand (List Token) :=
  match binding? params arguments t with
  | none => pure [t]
  | some binding => inserted expand (pasted || textIs rest[0]? "##") binding

/-- The body rewritten from left to right, group by group (`group?`), and the tokens that are in no group one by one; `pasted` tells whether
a paste operator stands before the body. -/
def rewritten (pasted : Bool) : List Token → Expand (List Token)
  | [] => pure []
  | t :: rest =>
    match group? params arguments t rest with
    | some (piece, more) => do
      let after ← rewritten false (rest.drop more)
      return piece.kept ++ after
    | none => do
      let new ← alone expand params arguments pasted t rest
      let after ← rewritten (Paste.isOperator t) rest
      return new ++ after
termination_by body => body.length
decreasing_by
  · simp only [List.length_drop, List.length_cons]; omega
  · simp

end

section

variable {expand : List Token → Expand (List Token)} {params : List String} {arguments before out rest body : List Token} {t : Token}
  {s s₁ s' : Logged Expander} {pasted : Bool}

/-! ## Tokens in groups -/

/-- The groups that a token can begin: the tokens after it, the piece, and the number of these tokens in the group. -/
inductive Grouped (params : List String) (arguments : List Token) (t : Token) : List Token → Piece → Nat → Prop
  | literal {p : Token} {binding : Option Token} (hsharp : t.value = "#") (hp : binding? params arguments p = some binding)
      (rest : List Token) : Grouped params arguments t (p :: rest) (.token (literal p binding)) 1
  | cancelled {p : Token} (hpaste : t.value = "##") (hp : binding? params arguments p = some none) (rest : List Token) :
      Grouped params arguments t (p :: rest) .cancelled 1
  | swallowed {p q : Token} (hcomma : t.value = ",") (hpaste : p.value = "##") (hq : binding? params arguments q = some none)
      (rest : List Token) : Grouped params arguments t (p :: q :: rest) .omitted 2

theorem grouped_of_group? {piece : Piece} {more : Nat} (h : group? params arguments t rest = some (piece, more)) :
    Grouped params arguments t rest piece more := by
  cases rest with
  | nil => cases h
  | cons p rest =>
    simp only [group?] at h
    split at h
    · obtain ⟨binding, hp, heq⟩ := Option.map_eq_some_iff.mp h
      cases heq
      exact .literal ‹_› hp rest
    · split at h
      · split at h
        · cases h
          exact .cancelled ‹_› ‹_› rest
        · cases h
      · split at h
        · rename_i hcomma
          cases rest with
          | nil => cases h
          | cons q rest =>
            dsimp only at h
            split at h
            · cases h
              exact .swallowed hcomma.1 hcomma.2 ‹_› rest
            · cases h
        · cases h

/-- A parameter is no operator and begins no group. -/
theorem group?_of_mem (hplain : PlainParams params) (h : t.value ∈ params) (rest : List Token) :
    group? params arguments t rest = none ∧ Paste.isOperator t = false := by
  have hne (sign : String) (hsign : sign ∈ ["#", "##", ","]) : t.value ≠ sign := by
    rintro rfl
    exact hplain _ hsign h
  have hsharp := hne "#" (by decide)
  have hpaste := hne "##" (by decide)
  have hcomma := hne "," (by decide)
  refine ⟨?_, decide_eq_false hpaste⟩
  cases rest with
  | nil => rfl
  | cons p more => simp [group?, hsharp, hpaste, hcomma]

theorem substituteFrom_cons {out' : List Token} (h : substituteAt expand params arguments t before rest out = pure out') :
    substituteFrom expand params arguments before out (t :: rest) s = substituteFrom expand params arguments (t :: before) out' rest s := by
  rw [substituteFrom, h]
  exact bind_of_ok rfl

/-- The tokens of a group come to what is kept of its piece, and the last of them is a parameter. -/
theorem substituteFrom_group (expand : List Token → Expand (List Token)) (out : List Token) (s : Logged Expander) (hplain : PlainParams params)
    (hbefore : ∀ u ∈ before.head?, group? params arguments u (t :: rest) = none)
    {piece : Piece} {more : Nat} (h : group? params arguments t rest = some (piece, more)) :
    ∃ last earlier, last.value ∈ params ∧ substituteFrom expand params arguments before out (t :: rest) s =
      substituteFrom expand params arguments (last :: earlier) (piece.kept.reverse ++ out) (rest.drop more) s := by
  have hkept {u : Token} {sign : String} (hsign : sign ∈ ["#", "##", ","]) (hu : u.value = sign) (before after out : List Token) :
      substituteAt expand params arguments u before after out = pure (u :: out) :=
    substituteAt_none (binding?_eq_none (hu ▸ hplain sign hsign)) before after out
  cases grouped_of_group? h with
  | @literal p _ hsharp hp rest =>
    refine ⟨p, t :: before, mem_of_binding? hp, ?_⟩
    rw [substituteFrom_cons (hkept (by decide) hsharp ..), substituteFrom_cons (substituteAt_literal hp hsharp _)]
    rfl
  | @cancelled p hpaste hp rest =>
    have hcomma : ∀ u ∈ before.head?, u.value ≠ "," := by
      intro u hu hvalue
      have hnone := hbefore u hu
      simp [group?, hvalue, hpaste, hp] at hnone
    refine ⟨p, t :: before, mem_of_binding? hp, ?_⟩
    rw [substituteFrom_cons (hkept (by decide) hpaste ..), substituteFrom_cons (substituteAt_cancelled hp hpaste hcomma _)]
    rfl
  | @swallowed p q hcomma hpaste hq rest =>
    refine ⟨q, p :: t :: before, mem_of_binding? hq, ?_⟩
    rw [substituteFrom_cons (hkept (by decide) hcomma ..), substituteFrom_cons (hkept (by decide) hpaste ..),
      substituteFrom_cons (substituteAt_swallowed hq hpaste hcomma _)]
    rfl

/-- A sign that begins a group with a token does not stand before it when no group goes on into it. -/
theorem textIs_eq_false_of_group? (hbefore : ∀ u ∈ before.head?, group? params arguments u (t :: rest) = none) {sign : String}
    (hsign : ∀ u : Token, u.value = sign → group? params arguments u (t :: rest) ≠ none) : textIs before[0]? sign = false := by
  cases before with
  | nil => rfl
  | cons u earlier => exact decide_eq_false fun hvalue => hsign u hvalue (hbefore u rfl)

/-! ## The rewriting comes to the same -/

/-- A token that no group goes on into takes nothing off, and adds what is put in its place. -/
theorem alone_of_group? (expand : List Token → Expand (List Token))
    (hbefore : ∀ u ∈ before.head?, group? params arguments u (t :: rest) = none) :
    takenOff params arguments before t = [] ∧
      added expand params arguments before t rest = alone expand params arguments (textIs before[0]? "##") t rest := by
  cases hbinding : binding? params arguments t with
  | none => simp [takenOff, added, alone, hbinding]
  | some binding =>
    have hsharp : textIs before[0]? "#" = false :=
      textIs_eq_false_of_group? hbefore fun u hu => by simp [group?, hu, hbinding]
    refine ⟨?_, by rw [added_of_not_sharp hbinding hsharp, alone, hbinding]⟩
    cases binding with
    | some argument => exact takenOff_of_given hbinding hsharp
    | none =>
      have hpaste : textIs before[0]? "##" = false :=
        textIs_eq_false_of_group? hbefore fun u hu => by simp [group?, hu, hbinding]
      rw [takenOff_of_omitted hbinding hsharp, hpaste]
      rfl

/-- Substituting in the rest of a body adds the rest rewritten. By induction on the groups: no group goes on from what stands before into the
rest of the body. -/
theorem substituteFrom_eq_rewritten (expand : List Token → Expand (List Token)) (hplain : PlainParams params)
    (h : Trailing params before out) (hbefore : ∀ u ∈ before.head?, group? params arguments u body = none) (s : Logged Expander) :
    substituteFrom expand params arguments before out body s =
      ((out.reverse ++ ·) <$> rewritten expand params arguments (textIs before[0]? "##") body) s := by
  generalize hpasted : textIs before[0]? "##" = pasted
  fun_induction rewritten expand params arguments pasted body generalizing before out s with
  | case1 pasted => simp [substituteFrom]
  | case2 pasted t rest piece more hgroup ih =>
    obtain ⟨last, earlier, hlast, hcome⟩ := substituteFrom_group expand out s hplain hbefore hgroup
    obtain ⟨hnone, hoperator⟩ := group?_of_mem hplain hlast (rest.drop more)
    rw [hcome, ih (trailing_of_mem hlast earlier _) (by simpa using hnone) s hoperator]
    simp
  | case3 pasted t rest hgroup ih =>
    obtain ⟨hnil, halone⟩ := alone_of_group? expand hbefore
    obtain ⟨earlier, hout, hat⟩ := (takesOff_of_trailing expand arguments hplain h t rest).leaves
    obtain rfl : out = earlier := by rw [hout, hnil]; rfl
    rw [halone, hpasted] at hat
    rw [substituteFrom, hat, bind_map_left, map_bind]
    refine bind_eq_bind rfl fun new s₁ hnew => ?_
    have htrailing : Trailing params (t :: before) (new.reverse ++ out) := by
      have hleft : substituteAt expand params arguments t before rest out s = .ok (new.reverse ++ out) s₁ := by
        rw [hat, map_eq_pure_bind]
        exact bind_of_ok hnew
      exact trailing_substituteAt h hleft
    rw [ih htrailing (by simpa using hgroup) s₁ rfl]
    simp

/-- Substituting arguments in a body comes to the body rewritten. -/
theorem substitute_eq_rewritten (hplain : PlainParams params) :
    substitute expand params arguments body = rewritten expand params arguments false body := by
  funext s
  have hbefore : ∀ u ∈ ([] : List Token).head?, group? params arguments u body = none := by simp
  simpa [substitute, textIs] using substituteFrom_eq_rewritten expand hplain (trailing_nil params) hbefore s

/-- What is put in the place of a token can only be missing where an argument cannot be expanded. -/
theorem error_of_alone {err : ExpandError} (h : alone expand params arguments pasted t rest s = .error err s') :
    ∃ argument ∈ arguments, ∃ s₁, expand (Token.ofText argument.value argument.line argument.uri) s₁ = .error err s' := by
  cases hbinding : binding? params arguments t with
  | none =>
    rw [alone, hbinding] at h
    cases h
  | some binding =>
    rw [alone, hbinding] at h
    cases binding with
    | none => cases h
    | some argument =>
      obtain ⟨index, -, hget⟩ := Option.map_eq_some_iff.mp hbinding
      cases hbeside : pasted || textIs rest[0]? "##" with
      | true =>
        rw [hbeside] at h
        cases h
      | false =>
        rw [hbeside] at h
        rcases exists_of_bind_error h with h | ⟨expanded, s₁, -, h⟩
        · exact ⟨argument, List.mem_of_getElem? hget, s, h⟩
        · cases h

/-- The rewriting stops only where an argument cannot be expanded. -/
theorem error_of_rewritten {err : ExpandError} (h : rewritten expand params arguments pasted body s = .error err s') :
    ∃ argument ∈ arguments, ∃ s₁, expand (Token.ofText argument.value argument.line argument.uri) s₁ = .error err s' := by
  fun_induction rewritten expand params arguments pasted body generalizing s with
  | case1 pasted => cases h
  | case2 pasted t rest piece more hgroup ih =>
    rcases exists_of_bind_error h with h | ⟨after, s₁, -, h⟩
    · exact ih h
    · cases h
  | case3 pasted t rest hgroup ih =>
    rcases exists_of_bind_error h with h | ⟨new, s₁, -, h⟩
    · exact error_of_alone h
    · rcases exists_of_bind_error h with h | ⟨after, s₂, -, h⟩
      · exact ih h
      · cases h

/-- At every place of a run, from where the run goes on, a token takes off signs that are there, and only those that stand right before it in
the body: a parameter a number sign, and one whose argument is omitted a paste operator, with a comma before that. The run stops only where an
argument cannot be expanded, and it comes to the body rewritten from left to right. -/
theorem substitute_rewrites (hplain : PlainParams params) (expand : List Token → Expand (List Token)) (arguments body : List Token) :
    (∀ s before out t rest s₁, Passes expand params arguments body s before out (t :: rest) s₁ →
      before.reverse ++ t :: rest = body ∧
      substitute expand params arguments body s = substituteFrom expand params arguments before out (t :: rest) s₁ ∧
      TakesOff expand params arguments before out t rest) ∧
    (∀ s err s', substitute expand params arguments body s = .error err s' →
      ∃ argument ∈ arguments, ∃ s₁, expand (Token.ofText argument.value argument.line argument.uri) s₁ = .error err s') ∧
    substitute expand params arguments body = rewritten expand params arguments false body := by
  refine ⟨fun s before out t rest s₁ h => ?_, fun s err s' h => ?_, substitute_eq_rewritten hplain⟩
  · obtain ⟨hbody, htrailing, hrun⟩ := h.invariant
    exact ⟨hbody, hrun, takesOff_of_trailing expand arguments hplain htrailing t rest⟩
  · rw [substitute_eq_rewritten hplain] at h
    exact error_of_rewritten h

end

/-- A body that pastes a parameter after a comma, spells one and expands one. -/
def restBody : List Token :=
  [.sign ",", .sign "##", .word "rest", .sign "#", .word "x", .word "x"]

/-- An argument that names a macro. -/
def namingArgument : Token :=
  { value := "one", kind := .stringLiteral, column := 2, generated := true }

/-- An expander with this macro. -/
def naming : Logged Expander :=
  { state := { table := { user := [("one", { name := "one", shape := .object, body := [{ value := "1", kind := .numberLiteral }] })] } } }

theorem substitute_rewrites_rest :
    PlainParams ["x", "rest"] ∧
    Passes Expand.all ["x", "rest"] [namingArgument] restBody naming [.sign "##", .sign ","] [.sign "##", .sign ","]
      [.word "rest", .sign "#", .word "x", .word "x"] naming ∧
    takenOff ["x", "rest"] [namingArgument] [.sign "##", .sign ","] (.word "rest") = [.sign "##", .sign ","] ∧
    TakesOff Expand.all ["x", "rest"] [namingArgument] [.sign "##", .sign ","] [.sign "##", .sign ","] (.word "rest")
      [.sign "#", .word "x", .word "x"] ∧
    ((substitute Expand.all ["x", "rest"] [namingArgument] restBody).run' naming).map (·.map Token.value) = some ["\"one\"", "1"] := by
  have hplain : PlainParams ["x", "rest"] := by unfold PlainParams; decide
  have hpasses : Passes Expand.all ["x", "rest"] [namingArgument] restBody naming [.sign "##", .sign ","] [.sign "##", .sign ","]
      [.word "rest", .sign "#", .word "x", .word "x"] naming := .step (.step .start rfl) rfl
  obtain ⟨hplaces, -, heq⟩ := substitute_rewrites hplain Expand.all [namingArgument] restBody
  refine ⟨hplain, hpasses, rfl, (hplaces _ _ _ _ _ _ hpasses).2.2, ?_⟩
  rw [heq]
  cbv

end Substitution

end Prepass
