import Prepass.Macro.Substitution
import Prepass.Proofs.Outcome

/-!
# Signs before parameters

Substitution looks back from a parameter and takes signs off the tokens so far: a number sign, or a paste operator with a comma before it. A
token of the body that is no parameter is kept, so at every place that substitution passes (`Passes`) the tokens so far end as the body before
the place does, back to the last parameter (`Trailing`). As long as the signs are no parameters themselves (`PlainParams`), those that are
taken off are there and stand right before the parameter (`TakesOff`), and what a token adds does not depend on the tokens so far.
-/

namespace Prepass

/-- No parameter is an operator of substitution, or a comma. -/
def PlainParams (params : List String) : Prop :=
  ∀ sign ∈ ["#", "##", ","], sign ∉ params

/-- The tokens so far begin with the tokens of the body right before, back to the last parameter. All lists are latest first. -/
def Trailing (params : List String) (before out : List Token) : Prop :=
  before.takeWhile (·.value ∉ params) <+: out

section

variable {params : List String} {before out : List Token}

/-- Before the first token of the body there is nothing to begin with. -/
theorem trailing_nil (params : List String) : Trailing params [] [] :=
  List.prefix_refl []

/-- A token of the body right before that is no parameter is the latest of the tokens so far. -/
theorem Trailing.exists_latest (h : Trailing params before out) {sign : String} (hsign : sign ∉ params)
    (hbefore : Substitution.textIs before[0]? sign = true) :
    ∃ latest before' earlier, before = latest :: before' ∧ latest.value = sign ∧ out = latest :: earlier ∧
      Trailing params before' earlier := by
  cases before with
  | nil => cases hbefore
  | cons b before =>
    have hb : b.value = sign := by simpa [Substitution.textIs] using hbefore
    rw [Trailing, List.takeWhile_cons_of_pos (by simpa [hb] using hsign)] at h
    obtain ⟨more, rfl⟩ := h
    exact ⟨b, before, _, rfl, hb, rfl, List.prefix_append _ _⟩

/-- Right after a parameter nothing is asked of the tokens so far. -/
theorem trailing_of_mem {t : Token} (h : t.value ∈ params) (before out : List Token) : Trailing params (t :: before) out := by
  rw [Trailing, List.takeWhile_cons_of_neg (by simpa using h)]
  exact List.nil_prefix

end

namespace Substitution

/-! ## What a token takes off and adds -/

/-- What the parameter that a token of a body names stands for: an argument, or nothing where the argument is omitted. -/
def binding? (params : List String) (arguments : List Token) (t : Token) : Option (Option Token) :=
  (params.idxOf? t.value).map (arguments[·]?)

/-- The string literal of an argument, or of an omitted one. -/
def literal (parameter : Token) : Option Token → Token
  | none => emptyLiteral parameter
  | some argument => inPlace argument (Stringize.literal argument.value)

section

variable (expand : List Token → Expand (List Token)) (params : List String) (arguments : List Token)

/-- What is put in the place of a parameter that no number sign stands before: nothing for an omitted argument, an argument as it stands beside
a paste operator, and elsewhere what it is expanded to. -/
def inserted (pasted : Bool) : Option Token → Expand (List Token)
  | none => pure []
  | some argument =>
    if pasted then pure [inPlace argument argument.value]
    else do
      let expanded ← expand (Token.ofText argument.value argument.line argument.uri)
      return [inPlace argument (Token.spell expanded)]

/-- The signs that a token takes off, where `before` holds the body before it; both are latest first. A parameter takes off a number sign, and
one whose argument is omitted a paste operator, with a comma before that. -/
def takenOff (before : List Token) (t : Token) : List Token :=
  match binding? params arguments t with
  | none => []
  | some binding =>
    if textIs before[0]? "#" then before.take 1
    else if binding = none ∧ textIs before[0]? "##" then before.take (if textIs before[1]? "," then 2 else 1)
    else []

/-- What a token of a body adds when it has taken off what it takes off. -/
def added (before : List Token) (t : Token) (rest : List Token) : Expand (List Token) :=
  match binding? params arguments t with
  | none => pure [t]
  | some binding =>
    if textIs before[0]? "#" then pure [literal t binding]
    else inserted expand (textIs before[0]? "##" || textIs rest[0]? "##") binding

/-- A token takes off signs that stand right before it in the body and are the latest of the tokens so far, and nothing else. -/
structure TakesOff (before out : List Token) (t : Token) (rest : List Token) : Prop where
  stand : takenOff params arguments before t <+: before
  signs : (takenOff params arguments before t).map Token.value ∈ [[], ["#"], ["##"], ["##", ","]]
  leaves : ∃ earlier, out = takenOff params arguments before t ++ earlier ∧
    substituteAt expand params arguments t before rest out =
      (fun new => new.reverse ++ earlier) <$> added expand params arguments before t rest

/-- The places that substitution in a body passes: the body before a place and what it came to, both latest first, and the rest of the body. -/
inductive Passes (body : List Token) (s : Logged Expander) : List Token → List Token → List Token → Logged Expander → Prop
  | start : Passes body s [] [] body s
  | step {before out rest out' : List Token} {t : Token} {s₁ s₂ : Logged Expander} (h : Passes body s before out (t :: rest) s₁)
      (hat : substituteAt expand params arguments t before rest out s₁ = .ok out' s₂) : Passes body s (t :: before) out' rest s₂

end

section

variable {expand : List Token → Expand (List Token)} {params : List String} {arguments before out rest body : List Token} {t : Token}
  {s s₁ s' : Logged Expander}

/-! ## Single tokens -/

/-- Only a parameter stands for an argument. -/
theorem binding?_eq_none (h : t.value ∉ params) : binding? params arguments t = none := by
  have hindex : params.idxOf? t.value = none := by simpa using h
  rw [binding?, hindex]
  rfl

/-- What stands for an argument is a parameter. -/
theorem mem_of_binding? {binding : Option Token} (h : binding? params arguments t = some binding) : t.value ∈ params := by
  by_cases ht : t.value ∈ params
  · exact ht
  · rw [binding?_eq_none ht] at h
    cases h

/-- A token that is no parameter comes to itself. -/
theorem substituteAt_none (h : binding? params arguments t = none) (before after out : List Token) :
    substituteAt expand params arguments t before after out = pure (t :: out) := by
  have hindex : params.idxOf? t.value = none := Option.map_eq_none_iff.mp h
  rw [substituteAt, hindex]

/-- A parameter without an argument comes to what a missing argument does. -/
theorem substituteAt_omitted (h : binding? params arguments t = some none) (before after out : List Token) :
    substituteAt expand params arguments t before after out = omitted t before out := by
  obtain ⟨index, hindex, hnone⟩ := Option.map_eq_some_iff.mp h
  simp only [substituteAt, hindex, hnone]

/-- A parameter with an argument comes to what the argument does. -/
theorem substituteAt_given {argument : Token} (h : binding? params arguments t = some (some argument)) (before after out : List Token) :
    substituteAt expand params arguments t before after out = given expand argument before after out := by
  obtain ⟨index, hindex, hsome⟩ := Option.map_eq_some_iff.mp h
  simp only [substituteAt, hindex, hsome]

/-- After a number sign an argument is spelled as a literal in its place. -/
theorem substituteAt_literal {binding : Option Token} (h : binding? params arguments t = some binding) {sign : Token}
    (hsign : sign.value = "#") (after : List Token) :
    substituteAt expand params arguments t (sign :: before) after (sign :: out) = pure (literal t binding :: out) := by
  have htext : textIs (sign :: before)[0]? "#" = true := decide_eq_true hsign
  cases binding with
  | none =>
    rw [substituteAt_omitted h, omitted, if_pos htext]
    rfl
  | some argument =>
    rw [substituteAt_given h, given, if_pos htext]
    rfl

/-- An omitted argument takes off a paste operator before it, and a comma before that. -/
theorem substituteAt_cancelled (h : binding? params arguments t = some none) {sign : Token} (hsign : sign.value = "##")
    (hcomma : ∀ u ∈ before.head?, u.value ≠ ",") (after : List Token) :
    substituteAt expand params arguments t (sign :: before) after (sign :: out) = pure out := by
  have hsharp : textIs (sign :: before)[0]? "#" = false := decide_eq_false (by simp [hsign])
  have hpaste : textIs (sign :: before)[0]? "##" = true := decide_eq_true hsign
  have hnone : textIs (sign :: before)[1]? "," = false := by
    cases before with
    | nil => rfl
    | cons u _ => exact decide_eq_false (hcomma u rfl)
  rw [substituteAt_omitted h, omitted, hsharp, hpaste, hnone]
  rfl

/-- A missing argument takes the paste operator before it along, and the comma before that. -/
theorem substituteAt_swallowed (h : binding? params arguments t = some none) {sign comma : Token} (hsign : sign.value = "##")
    (hcomma : comma.value = ",") (after : List Token) :
    substituteAt expand params arguments t (sign :: comma :: before) after (sign :: comma :: out) = pure out := by
  have hsharp : textIs (sign :: comma :: before)[0]? "#" = false := decide_eq_false (by simp [hsign])
  have hpaste : textIs (sign :: comma :: before)[0]? "##" = true := decide_eq_true hsign
  have hsecond : textIs (sign :: comma :: before)[1]? "," = true := decide_eq_true hcomma
  rw [substituteAt_omitted h, omitted, hsharp, hpaste, hsecond]
  rfl

/-- A parameter after a number sign takes the sign off. -/
theorem takenOff_of_sharp {binding : Option Token} (h : binding? params arguments t = some binding) (hsharp : textIs before[0]? "#" = true) :
    takenOff params arguments before t = before.take 1 := by
  simp only [takenOff, h, hsharp, if_true]

/-- A parameter with an argument and without a number sign takes nothing off. -/
theorem takenOff_of_given {argument : Token} (h : binding? params arguments t = some (some argument))
    (hsharp : textIs before[0]? "#" = false) : takenOff params arguments before t = [] := by
  simp only [takenOff, h, hsharp, Bool.false_eq_true, if_false, reduceCtorEq, false_and]

/-- A parameter without an argument takes a paste operator off, and the comma before it. -/
theorem takenOff_of_omitted (h : binding? params arguments t = some none) (hsharp : textIs before[0]? "#" = false) :
    takenOff params arguments before t =
      if textIs before[0]? "##" then before.take (if textIs before[1]? "," then 2 else 1) else [] := by
  simp only [takenOff, h, hsharp, Bool.false_eq_true, if_false, true_and]

/-- A parameter after a number sign adds a string literal. -/
theorem added_of_sharp {binding : Option Token} (h : binding? params arguments t = some binding) (hsharp : textIs before[0]? "#" = true) :
    added expand params arguments before t rest = pure [literal t binding] := by
  simp only [added, h, hsharp, if_true]

/-- A parameter without a number sign adds its argument, as it stands beside a paste operator and expanded elsewhere. -/
theorem added_of_not_sharp {binding : Option Token} (h : binding? params arguments t = some binding)
    (hsharp : textIs before[0]? "#" = false) :
    added expand params arguments before t rest = inserted expand (textIs before[0]? "##" || textIs rest[0]? "##") binding := by
  simp only [added, h, hsharp, Bool.false_eq_true, if_false]

/-- A token that takes nothing off leaves the tokens so far as they are. -/
theorem TakesOff.of_nil (h : takenOff params arguments before t = [])
    (hat : substituteAt expand params arguments t before rest out =
      (fun new => new.reverse ++ out) <$> added expand params arguments before t rest) :
    TakesOff expand params arguments before out t rest :=
  ⟨h ▸ List.nil_prefix, by simp [h], out, by rw [h]; rfl, hat⟩

/-- After a number sign a parameter takes the sign off. -/
theorem takesOff_sharp (hplain : PlainParams params) (h : Trailing params before out) {binding : Option Token}
    (hbinding : binding? params arguments t = some binding) (hsharp : textIs before[0]? "#" = true) :
    TakesOff expand params arguments before out t rest := by
  obtain ⟨sign, before, earlier, rfl, hsign, rfl, -⟩ := h.exists_latest (hplain "#" (by simp)) hsharp
  have htaken : takenOff params arguments (sign :: before) t = [sign] := takenOff_of_sharp hbinding hsharp
  refine ⟨by simp [htaken], by simp [htaken, hsign], earlier, by rw [htaken]; rfl, ?_⟩
  rw [substituteAt_literal hbinding hsign, added_of_sharp hbinding hsharp]
  rfl

/-- Elsewhere a parameter whose argument is not omitted takes nothing off. -/
theorem takesOff_given {argument : Token} (hbinding : binding? params arguments t = some (some argument))
    (hsharp : textIs before[0]? "#" = false) : TakesOff expand params arguments before out t rest := by
  refine .of_nil (takenOff_of_given hbinding hsharp) ?_
  rw [substituteAt_given hbinding, given, hsharp, added_of_not_sharp hbinding hsharp, inserted, if_neg Bool.false_ne_true]
  split
  · rfl
  · rw [map_bind]
    rfl

/-- A parameter whose argument is omitted takes off a paste operator, with a comma before that. -/
theorem takesOff_omitted (hplain : PlainParams params) (h : Trailing params before out)
    (hbinding : binding? params arguments t = some none) (hsharp : textIs before[0]? "#" = false) :
    TakesOff expand params arguments before out t rest := by
  cases hpaste : textIs before[0]? "##" with
  | false =>
    refine .of_nil (by rw [takenOff_of_omitted hbinding hsharp, hpaste]; rfl) ?_
    rw [substituteAt_omitted hbinding, omitted, hsharp, hpaste, added_of_not_sharp hbinding hsharp]
    rfl
  | true =>
    obtain ⟨sign, before, earlier, rfl, hsign, rfl, hearlier⟩ := h.exists_latest (hplain "##" (by simp)) hpaste
    cases hcomma : textIs before[0]? "," with
    | true =>
      obtain ⟨comma, before, earlier, rfl, hvalue, rfl, -⟩ := hearlier.exists_latest (hplain "," (by simp)) hcomma
      have hsecond : textIs (sign :: comma :: before)[1]? "," = true := hcomma
      have htaken : takenOff params arguments (sign :: comma :: before) t = [sign, comma] := by
        rw [takenOff_of_omitted hbinding hsharp, hpaste, hsecond]
        rfl
      refine ⟨by simp [htaken], by simp [htaken, hsign, hvalue], earlier, by rw [htaken]; rfl, ?_⟩
      rw [substituteAt_swallowed hbinding hsign hvalue, added_of_not_sharp hbinding hsharp]
      rfl
    | false =>
      have hother : ∀ u ∈ before.head?, u.value ≠ "," := by
        intro u hu hvalue
        obtain ⟨before', rfl⟩ := List.head?_eq_some_iff.mp hu
        rw [show textIs (u :: before')[0]? "," = true from decide_eq_true hvalue] at hcomma
        cases hcomma
      have hsecond : textIs (sign :: before)[1]? "," = false := by simpa using hcomma
      have htaken : takenOff params arguments (sign :: before) t = [sign] := by
        rw [takenOff_of_omitted hbinding hsharp, hpaste, hsecond]
        rfl
      refine ⟨by simp [htaken], by simp [htaken, hsign], earlier, by rw [htaken]; rfl, ?_⟩
      rw [substituteAt_cancelled hbinding hsign hother, added_of_not_sharp hbinding hsharp]
      rfl

/-- Where the tokens so far end as the body before does, every token takes off just what it is to take off. -/
theorem takesOff_of_trailing (expand : List Token → Expand (List Token)) (arguments : List Token) (hplain : PlainParams params)
    (h : Trailing params before out) (t : Token) (rest : List Token) :
    TakesOff expand params arguments before out t rest := by
  cases hbinding : binding? params arguments t with
  | none =>
    refine .of_nil (by simp only [takenOff, hbinding]) ?_
    rw [substituteAt_none hbinding]
    simp [added, hbinding]
  | some binding =>
    cases hsharp : textIs before[0]? "#" with
    | true => exact takesOff_sharp hplain h hbinding hsharp
    | false =>
      cases binding with
      | none => exact takesOff_omitted hplain h hbinding hsharp
      | some argument => exact takesOff_given hbinding hsharp

/-- The tokens so far end as the body does also after the next token. -/
theorem trailing_substituteAt (h : Trailing params before out) {out' : List Token}
    (hat : substituteAt expand params arguments t before rest out s = .ok out' s') : Trailing params (t :: before) out' := by
  by_cases ht : t.value ∈ params
  · exact trailing_of_mem ht before out'
  · rw [substituteAt_none (binding?_eq_none ht)] at hat
    cases hat
    rw [Trailing, List.takeWhile_cons_of_pos (by simpa using ht)]
    exact (List.prefix_cons_inj t).mpr h

/-! ## A run -/

namespace Passes

/-- At each place the body is divided, the tokens so far end as the body before does, and the run goes on from there. -/
theorem invariant (h : Passes expand params arguments body s before out rest s₁) :
    before.reverse ++ rest = body ∧ Trailing params before out ∧
      substitute expand params arguments body s = substituteFrom expand params arguments before out rest s₁ := by
  induction h with
  | start => exact ⟨rfl, trailing_nil params, rfl⟩
  | step h hat ih =>
    obtain ⟨hbody, htrailing, hrun⟩ := ih
    refine ⟨by simpa using hbody, trailing_substituteAt htrailing hat, ?_⟩
    rw [hrun, substituteFrom, bind_of_ok hat]

end Passes

end

end Substitution

end Prepass
