import Mathlib
import Prepass.Proofs.Expression.Reading

/-!
# Precedence climbing reads the grammar

What a stratum derives is read up to its end, and the value that is read is that of its tree (`Derives.read_eq`); what is read has been
derived (`sound_read`). The first is by induction on the derivation, the second by induction on the number of tokens. There a tree is
extended by the operator that follows it, which must not bind more tightly than the stratum of the tree: reading an operand leaves only
operators that bind less tightly than was asked for (`Stops`).
-/

namespace Prepass

namespace Expression

/-! ## What can follow -/

section

variable {least : Nat} {t : Token} {rest : List Token}

theorem stops_nil (least : Nat) : Stops least [] := by
  intro t h
  cases h

/-- Where a loose operator would stop, a tight one stops as well. -/
theorem Stops.mono {more : Nat} {ts : List Token} (h : Stops least ts) (hle : least ≤ more) : Stops more ts := by
  intro t ht
  obtain ⟨hquestion, hbinary⟩ := h t ht
  exact ⟨fun hq => Nat.lt_of_lt_of_le (hquestion hq) hle, fun op hop => Nat.lt_of_lt_of_le (hbinary op hop) hle⟩

/-- No operator that can follow an operand binds as tightly as a unary operator. -/
theorem stops_of_unaryPrecedence_le (h : unaryPrecedence ≤ least) (ts : List Token) : Stops least ts := by
  intro t _
  refine ⟨fun _ => Nat.lt_of_lt_of_le (by decide) h, fun op _ => Nat.lt_of_lt_of_le (precedence_bounds op).2 h⟩

/-- A punctuator that is no operator stops every expression. -/
theorem stops_punctuator {v : String} (h : isPunctuator v t = true) (hquestion : v ≠ "?") (hnone : BinaryOp.ofText? v = none) :
    Stops least (t :: rest) := by
  intro u hu
  cases hu
  refine ⟨fun hq => ?_, fun op hop => ?_⟩
  · rw [isPunctuator_eq_false h hquestion] at hq
    cases hq
  · rw [binaryOp?_punctuator h, hnone] at hop
    cases hop

/-- A question mark stops what binds more tightly than a conditional. -/
theorem stops_question (h : isPunctuator "?" t = true) (hlt : conditionalPrecedence < least) : Stops least (t :: rest) := by
  intro u hu
  cases hu
  refine ⟨fun _ => hlt, fun op hop => ?_⟩
  rw [binaryOp?_punctuator h] at hop
  cases hop

/-- A binary operator stops what binds more tightly. -/
theorem stops_binary {op : BinaryOp} (h : binaryOp? t = some op) (hlt : op.precedence < least) : Stops least (t :: rest) := by
  intro u hu
  cases hu
  refine ⟨fun hq => ?_, fun op' hop => ?_⟩
  · rw [isPunctuator_of_binaryOp? h rfl] at hq
    cases hq
  · rw [h] at hop
    cases hop
    exact hlt

/-- Where reading does not stop, an operator comes next that binds tightly enough. -/
theorem exists_of_not_stops {ts : List Token} (h : ¬Stops least ts) : ∃ t rest, ts = t :: rest ∧
    ((isPunctuator "?" t = true ∧ least ≤ conditionalPrecedence) ∨ ∃ op, binaryOp? t = some op ∧ least ≤ op.precedence) := by
  cases ts with
  | nil => exact absurd (stops_nil least) h
  | cons t rest =>
    refine ⟨t, rest, rfl, ?_⟩
    by_contra hnone
    rw [not_or, not_and, not_exists] at hnone
    refine h fun u hu => ?_
    cases hu
    exact ⟨fun hq => Nat.not_le.mp (hnone.1 hq), fun op hop => Nat.not_le.mp fun hle => hnone.2 op ⟨hop, hle⟩⟩

theorem apart_nil : Apart [] := by
  intro t h
  cases h

/-- A token that opens no parenthesis stands apart. -/
theorem apart_cons (h : isPunctuator "(" t = false) (rest : List Token) : Apart (t :: rest) := by
  intro u hu
  cases hu
  exact h

/-- A value that is followed by no operator is left as it is. -/
theorem bind_readOn_of_stops (h : Stops least rest) (v : Option Word) :
    (v.bind fun w => readOn least w rest) = v.map fun w => (w, rest) := by
  cases v with
  | none => rfl
  | some w => exact readOn_of_stops h w

end

/-- Operators that bind as tightly as the limit of a stratum cannot follow what it derives. -/
def Stratum.limit : Stratum → Nat
  | conditional => conditionalPrecedence
  | s => s.level + 1

namespace Stratum

/-- The next tighter stratum binds at least as tightly. -/
theorem level_le_tighter (s : Stratum) : s.level ≤ s.tighter.level := by
  cases s <;> decide

/-- The next tighter stratum has no lower limit. -/
theorem limit_le_tighter (s : Stratum) : s.limit ≤ s.tighter.limit := by
  cases s <;> decide

/-- A stratum is limited right above its own level. -/
theorem limit_le (s : Stratum) : s.limit ≤ s.level + 1 := by
  cases s <;> decide

/-- A stratum is limited right above its operators. -/
theorem limit_of_mem_operators {s : Stratum} {op : BinaryOp} (h : op ∈ s.operators) : s.limit = op.precedence + 1 := by
  cases s <;> cases op <;> first | rfl | exact absurd h (by decide)

/-- The next tighter stratum binds just more tightly than the operators of a stratum. -/
theorem level_tighter_of_mem_operators {s : Stratum} {op : BinaryOp} (h : op ∈ s.operators) :
    s.tighter.level = op.precedence + 1 := by
  cases s <;> cases op <;> first | rfl | exact absurd h (by decide)

/-- A stratum that a conditional cannot follow binds as tightly as a disjunction. -/
theorem level_or_le {s : Stratum} (h : conditionalPrecedence < s.limit) : Stratum.or.level ≤ s.level := by
  cases s <;> first | decide | exact absurd h (by decide)

end Stratum

/-! ## What is derived is read -/

/-- What a stratum derives is read, and the value is that of its tree, before reading goes on with what follows. -/
theorem Derives.read_eq {s : Stratum} {ts : List Token} {e : Tree} (h : Derives s ts e) {least : Nat} (hle : least ≤ s.level)
    {rest : List Token} (hstops : Stops s.limit rest) (hapart : Apart rest) :
    read least (ts ++ rest) = e.value?.bind fun w => readOn least w rest := by
  induction h generalizing least rest with
  | @tighter s _ _ _ ih =>
    exact ih (Nat.le_trans hle s.level_le_tighter) (hstops.mono s.limit_le_tighter) hapart
  | @conditional cs ys ns question colon c yes no _ hquestion _ hcolon _ ihc ihyes ihno =>
    have hopen {more : List Token} : Apart (question :: more) := apart_cons (isPunctuator_eq_false hquestion (by decide)) _
    have hyes : read 0 (ys ++ colon :: (ns ++ rest)) = yes.value?.map fun w => (w, colon :: (ns ++ rest)) := by
      have hstops {least : Nat} : Stops least (colon :: (ns ++ rest)) := stops_punctuator hcolon (by decide) rfl
      exact (ihyes (Nat.zero_le _) hstops (apart_cons (isPunctuator_eq_false hcolon (by decide)) _)).trans (bind_readOn_of_stops hstops _)
    have hno : read conditionalPrecedence (ns ++ rest) = no.value?.map fun w => (w, rest) :=
      (ihno (Nat.le_refl _) hstops hapart).trans (bind_readOn_of_stops hstops _)
    have htokens : cs ++ question :: (ys ++ colon :: ns) ++ rest = cs ++ question :: (ys ++ colon :: (ns ++ rest)) := by simp
    rw [htokens, ihc (Nat.le_trans hle (by decide)) (stops_question hquestion (by decide)) hopen, Tree.value?]
    cases c.value? with
    | none => rfl
    | some w =>
      rw [Option.bind_some, Option.bind_some, readOn_question hquestion hle, hyes]
      cases yes.value? with
      | none => rfl
      | some a =>
        rw [Option.map_some, Option.bind_some, Option.bind_some, after_cons hcolon, Option.bind_some, hno]
        cases no.value? <;> rfl
  | @binary s ls rs t op l r hop _ ht _ ihl ihr =>
    have hlevel : op.precedence = s.level := Stratum.mem_operators_iff.mp hop
    have hlimit : s.limit = op.precedence + 1 := Stratum.limit_of_mem_operators hop
    have htighter : s.tighter.level = op.precedence + 1 := Stratum.level_tighter_of_mem_operators hop
    -- the right operand ends where nothing binds more tightly than the operator itself
    have hr : read (op.precedence + 1) (rs ++ rest) = r.value?.map fun w => (w, rest) :=
      (ihr (Nat.le_of_eq htighter.symm) (hstops.mono s.limit_le_tighter) hapart).trans (bind_readOn_of_stops (hlimit ▸ hstops) _)
    have htokens : ls ++ t :: rs ++ rest = ls ++ t :: (rs ++ rest) := by simp
    rw [htokens, ihl hle (stops_binary ht (by omega)) (apart_cons (isPunctuator_of_binaryOp? ht rfl) _), Tree.value?]
    cases l.value? with
    | none => rfl
    | some a =>
      rw [Option.bind_some, Option.bind_some, readOn_binary ht (by omega), hr]
      cases r.value? <;> rfl
  | @unary t op ts e ht _ ih =>
    have hoperand : read unaryPrecedence (ts ++ rest) = e.value?.map fun w => (w, rest) :=
      (ih (Nat.le_refl _) hstops hapart).trans (bind_readOn_of_stops (stops_of_unaryPrecedence_le (Nat.le_refl _) _) _)
    rw [List.cons_append, Expression.read_eq, readOperand_unary ht, hoperand, Tree.value?]
    cases e.value? <;> rfl
  | @group o c ts e ho _ hc ih =>
    have hinner : read 0 (ts ++ c :: rest) = e.value?.map fun w => (w, c :: rest) := by
      have hstops {least : Nat} : Stops least (c :: rest) := stops_punctuator hc (by decide) rfl
      exact (ih (Nat.zero_le _) hstops (apart_cons (isPunctuator_eq_false hc (by decide)) _)).trans (bind_readOn_of_stops hstops _)
    have htokens : o :: (ts ++ [c]) ++ rest = o :: (ts ++ c :: rest) := by simp
    rw [htokens, Expression.read_eq, readOperand_group ho, hinner]
    cases e.value? with
    | none => rfl
    | some w => simp [after_cons hc]
  | @number t ht =>
    rw [List.singleton_append, Expression.read_eq, readOperand_word (by simp [ht]), outcome_term_literal (.inl ht), Tree.value?]
    cases t.constant <;> rfl
  | @character t ht =>
    rw [List.singleton_append, Expression.read_eq, readOperand_word (by simp [ht]), outcome_term_literal (.inr ht), Tree.value?]
    cases t.constant <;> rfl
  | @name t ht =>
    rw [List.singleton_append, Expression.read_eq, readOperand_word (by simp [ht]), outcome_term (by simp [ht]) (by simp [ht]),
      outcome_call, if_pos ht, if_pos ht, after_of_apart hapart]
    rfl
  | @call t o c inner ht ho hinner hc =>
    have hskip : skipGroup 1 (inner ++ c :: rest) = some rest := by
      rw [hinner.skipGroup_append 0]
      simp [skipGroup, hc]
    have htokens : t :: o :: (inner ++ [c]) ++ rest = t :: o :: (inner ++ c :: rest) := by simp
    rw [htokens, Expression.read_eq, readOperand_word (by simp [ht]), outcome_term (by simp [ht]) (by simp [ht]),
      outcome_call, if_pos ht, after_cons ho, Option.bind_some, hskip]
    rfl

/-! ## What is read is derived -/

/-- A stratum derives the tokens with a tree that has the given value. -/
def Reads (s : Stratum) (ts : List Token) (w : Word) : Prop :=
  ∃ e, Derives s ts e ∧ e.value? = some w

/-- The tokens that were taken are derived by a stratum that binds as tightly as `least`, and not by less than what comes next. -/
def Climbed (least : Nat) (taken : List Token) (w : Word) (ts : List Token) : Prop :=
  ∃ s : Stratum, Reads s taken w ∧ least ≤ s.level ∧ Stops s.limit ts

/-- What is read of some tokens has been derived, and no operator comes next that should have been read too. -/
def Sound (ts : List Token) : Prop :=
  ∀ least w rest, least ≤ unaryPrecedence → read least ts = some (w, rest) →
    ∃ taken, ts = taken ++ rest ∧ Climbed least taken w rest ∧ Stops least rest

namespace Reads

variable {s : Stratum} {ts ls rs ys ns : List Token} {t question colon o c : Token} {w a b result : Word}

/-- What a stratum derives, looser ones derive with the same value. -/
theorem loosen (h : Reads s ts w) {p : Stratum} (hle : p.level ≤ s.level) : Reads p ts w := by
  obtain ⟨e, he, hvalue⟩ := h
  exact ⟨e, he.loosen hle, hvalue⟩

/-- A conditional is derived from its three parts, with the value of the one chosen. -/
theorem conditional (hw : Reads .or ts w) (hquestion : isPunctuator "?" question = true) (ha : Reads .conditional ys a)
    (hcolon : isPunctuator ":" colon = true) (hb : Reads .conditional ns b) :
    Reads .conditional (ts ++ question :: (ys ++ colon :: ns)) (if w.truth then a else b) := by
  obtain ⟨c, hc, hcvalue⟩ := hw
  obtain ⟨yes, hyes, hyesvalue⟩ := ha
  obtain ⟨no, hno, hnovalue⟩ := hb
  exact ⟨_, .conditional hc hquestion hyes hcolon hno, by simp [Tree.value?, hcvalue, hyesvalue, hnovalue]⟩

/-- A binary operation is derived from its two sides, with the result of the operator. -/
theorem binary {op : BinaryOp} (hop : op ∈ s.operators) (ha : Reads s ls a) (ht : binaryOp? t = some op) (hb : Reads s.tighter rs b)
    (hresult : op.result? a b = some result) : Reads s (ls ++ t :: rs) result := by
  obtain ⟨l, hl, hlvalue⟩ := ha
  obtain ⟨r, hr, hrvalue⟩ := hb
  exact ⟨_, .binary hop hl ht hr, by simp [Tree.value?, hlvalue, hrvalue, hresult]⟩

/-- A unary operation is derived from its operand. -/
theorem unary {op : UnaryOp} (ht : unaryOp? t = some op) (h : Reads .unary ts w) : Reads .unary (t :: ts) (op.apply w) := by
  obtain ⟨e, he, hvalue⟩ := h
  exact ⟨_, .unary ht he, by simp [Tree.value?, hvalue]⟩

/-- An expression in parentheses is derived as a primary one. -/
theorem group (ho : isPunctuator "(" o = true) (h : Reads .conditional ts w) (hc : isPunctuator ")" c = true) :
    Reads .primary (o :: (ts ++ [c])) w := by
  obtain ⟨e, he, hvalue⟩ := h
  exact ⟨e, .group ho he hc, hvalue⟩

end Reads

/-- What is read as a term has been derived. -/
theorem reads_of_term {t : Token} {more : List Token} {w : Word} {rest : List Token} (h : outcome (term (t :: more)) = some (w, rest)) :
    ∃ taken, t :: more = taken ++ rest ∧ Reads .primary taken w := by
  by_cases hliteral : t.kind = .numberLiteral ∨ t.kind = .characterLiteral
  · rw [outcome_term_literal hliteral] at h
    obtain ⟨v, hv, heq⟩ := Option.map_eq_some_iff.mp h
    cases heq
    rcases hliteral with ht | ht
    · exact ⟨[t], rfl, _, .number ht, hv⟩
    · exact ⟨[t], rfl, _, .character ht, hv⟩
  · rw [not_or] at hliteral
    rw [outcome_term hliteral.1 hliteral.2, outcome_call] at h
    by_cases ht : t.kind = .identifier
    · rw [if_pos ht, if_pos ht, Option.or_eq_some_iff] at h
      rcases h with hcall | ⟨-, hname⟩
      · obtain ⟨inner, hinner, hskip⟩ := Option.bind_eq_some_iff.mp hcall
        obtain ⟨left, hleft, heq⟩ := Option.map_eq_some_iff.mp hskip
        cases heq
        obtain ⟨o, rfl, ho⟩ := exists_of_after hinner
        obtain ⟨body, c, more, rfl, hbody, hc, hmore⟩ := exists_balanced hleft
        rw [skipGroup] at hmore
        cases hmore
        exact ⟨t :: o :: (body ++ [c]), by simp, _, .call ht ho hbody hc, rfl⟩
      · cases hname
        exact ⟨[t], rfl, _, .name ht, rfl⟩
    · rw [if_neg ht, if_neg ht] at h
      cases h

/-- What is read as an operand has been derived, as long as this holds of fewer tokens. -/
theorem reads_of_operand {ts : List Token} (ih : ∀ ts' : List Token, ts'.length < ts.length → Sound ts') {w : Word} {rest : List Token}
    (h : readOperand ts = some (w, rest)) : ∃ taken, ts = taken ++ rest ∧ Reads .unary taken w := by
  cases ts with
  | nil =>
    rw [readOperand_nil] at h
    cases h
  | cons t more =>
    have hmore : Sound more := ih more (by simp)
    cases hunary : unaryOp? t with
    | some op =>
      rw [readOperand_unary hunary] at h
      obtain ⟨⟨v, left⟩, hread, heq⟩ := Option.map_eq_some_iff.mp h
      cases heq
      obtain ⟨taken, rfl, ⟨s, hreads, hle, -⟩, -⟩ := hmore _ _ _ (Nat.le_refl _) hread
      exact ⟨t :: taken, rfl, .unary hunary (hreads.loosen hle)⟩
    | none =>
      cases hgroup : isPunctuator "(" t with
      | true =>
        rw [readOperand_group hgroup] at h
        obtain ⟨⟨v, inner⟩, hread, hclose⟩ := Option.bind_eq_some_iff.mp h
        obtain ⟨left, hleft, heq⟩ := Option.map_eq_some_iff.mp hclose
        cases heq
        obtain ⟨c, rfl, hc⟩ := exists_of_after hleft
        obtain ⟨taken, rfl, ⟨s, hreads, -⟩, -⟩ := hmore _ _ _ (Nat.zero_le _) hread
        refine ⟨t :: (taken ++ [c]), by simp, ?_⟩
        exact (Reads.group hgroup (hreads.loosen s.one_le_level) hc).loosen (by decide)
      | false =>
        rw [readOperand_term hunary hgroup] at h
        obtain ⟨taken, htaken, hreads⟩ := reads_of_term h
        exact ⟨taken, htaken, hreads.loosen (by decide)⟩

section

variable {n least : Nat} {t : Token} {ts rest taken : List Token} {lhs w : Word} {r : Word × List Token}

/-- A conditional operator that follows a value is read with its two operands. -/
theorem climbed_of_question (ih : ∀ ts' : List Token, ts'.length < n → Sound ts') (hn : rest.length < n)
    (hclimbed : Climbed least taken lhs (t :: rest)) (ht : isPunctuator "?" t = true) (hle : least ≤ conditionalPrecedence)
    (h : readOn least lhs (t :: rest) = some r) :
    ∃ piece ts' lhs', rest = piece ++ ts' ∧ Climbed least (taken ++ t :: piece) lhs' ts' ∧ readOn least lhs' ts' = some r := by
  obtain ⟨s, hreads, -, hstops⟩ := hclimbed
  rw [readOn_question ht hle] at h
  obtain ⟨⟨a, afterYes⟩, hyes, hrest⟩ := Option.bind_eq_some_iff.mp h
  obtain ⟨afterColon, hafter, hrest⟩ := Option.bind_eq_some_iff.mp hrest
  obtain ⟨⟨b, afterNo⟩, hno, hon⟩ := Option.bind_eq_some_iff.mp hrest
  obtain ⟨colon, rfl, hcolon⟩ := exists_of_after hafter
  obtain ⟨ys, rfl, ⟨s₁, hys, -⟩, -⟩ := ih _ hn _ _ _ (Nat.zero_le _) hyes
  have hless : afterColon.length < n := by
    simp only [List.length_append, List.length_cons] at hn
    omega
  obtain ⟨ns, rfl, ⟨s₂, hns, -⟩, hend⟩ := ih _ hless _ _ _ (by decide) hno
  have hcondition : Reads .or taken lhs := hreads.loosen (Stratum.level_or_le ((hstops t rfl).1 ht))
  refine ⟨ys ++ colon :: ns, afterNo, if lhs.truth then a else b, by simp, ⟨.conditional, ?_, hle, hend⟩, hon⟩
  exact .conditional hcondition ht (hys.loosen s₁.one_le_level) hcolon (hns.loosen s₂.one_le_level)

/-- A binary operator that follows a value is read with its operand. -/
theorem climbed_of_binary (ih : ∀ ts' : List Token, ts'.length < n → Sound ts') (hn : rest.length < n)
    (hclimbed : Climbed least taken lhs (t :: rest)) {op : BinaryOp} (ht : binaryOp? t = some op) (hle : least ≤ op.precedence)
    (h : readOn least lhs (t :: rest) = some r) :
    ∃ piece ts' lhs', rest = piece ++ ts' ∧ Climbed least (taken ++ t :: piece) lhs' ts' ∧ readOn least lhs' ts' = some r := by
  obtain ⟨s, hreads, -, hstops⟩ := hclimbed
  rw [readOn_binary ht hle] at h
  obtain ⟨⟨b, afterRhs⟩, hrhs, hrest⟩ := Option.bind_eq_some_iff.mp h
  obtain ⟨result, hresult, hon⟩ := Option.bind_eq_some_iff.mp hrest
  obtain ⟨rs, rfl, ⟨s₁, hrs, hle₁, -⟩, hend⟩ := ih _ hn _ _ _ (precedence_bounds op).2 hrhs
  obtain ⟨p, hop⟩ := Stratum.exists_mem_operators op
  have hlevel : op.precedence = p.level := Stratum.mem_operators_iff.mp hop
  have htighter : p.tighter.level = op.precedence + 1 := Stratum.level_tighter_of_mem_operators hop
  -- the operator binds no more tightly than the value, which is therefore a left operand of its stratum
  have hloose : p.level ≤ s.level := by
    have hlimit : op.precedence < s.limit := (hstops t rfl).2 op ht
    have := s.limit_le
    omega
  refine ⟨rs, afterRhs, result, rfl, ⟨p, ?_, hlevel ▸ hle, ?_⟩, hon⟩
  · exact .binary hop (hreads.loosen hloose) ht (hrs.loosen (htighter ▸ hle₁)) hresult
  · rw [Stratum.limit_of_mem_operators hop]
    exact hend

/-- What operators make of a value has been derived if the value has. -/
theorem climbed_of_readOn (ih : ∀ ts' : List Token, ts'.length < n → Sound ts') (hn : ts.length ≤ n)
    (hclimbed : Climbed least taken lhs ts) (h : readOn least lhs ts = some (w, rest)) :
    ∃ more, ts = more ++ rest ∧ Climbed least (taken ++ more) w rest ∧ Stops least rest := by
  induction hlength : ts.length using Nat.strongRecOn generalizing ts taken lhs with
  | ind length ihon =>
    by_cases hstops : Stops least ts
    · rw [readOn_of_stops hstops] at h
      cases h
      exact ⟨[], rfl, by rwa [List.append_nil], hstops⟩
    · obtain ⟨t, after, rfl, hnext⟩ := exists_of_not_stops hstops
      have hafter : after.length < n := hn
      obtain ⟨piece, ts', lhs', rfl, hclimbed', h'⟩ : ∃ piece ts' lhs', after = piece ++ ts' ∧
          Climbed least (taken ++ t :: piece) lhs' ts' ∧ readOn least lhs' ts' = some (w, rest) := by
        rcases hnext with ⟨ht, hle⟩ | ⟨op, ht, hle⟩
        · exact climbed_of_question ih hafter hclimbed ht hle h
        · exact climbed_of_binary ih hafter hclimbed ht hle h
      simp only [List.length_cons, List.length_append] at hn hlength
      obtain ⟨more, rfl, hmore, hend⟩ := ihon ts'.length (by omega) (by omega) hclimbed' h' rfl
      exact ⟨t :: piece ++ more, by simp, by simpa using hmore, hend⟩

end

/-- What is read has been derived. -/
theorem sound_read (ts : List Token) : Sound ts := by
  induction hn : ts.length using Nat.strongRecOn generalizing ts with
  | ind n ih =>
    subst hn
    have hless (ts' : List Token) (hlt : ts'.length < ts.length) : Sound ts' := ih _ hlt ts' rfl
    intro least w rest hle h
    rw [Expression.read_eq] at h
    obtain ⟨⟨v, left⟩, hoperand, hon⟩ := Option.bind_eq_some_iff.mp h
    obtain ⟨taken, rfl, hreads⟩ := reads_of_operand hless hoperand
    -- after an operand every operator may come
    have hclimbed : Climbed least taken v left := ⟨.unary, hreads, hle, stops_of_unaryPrecedence_le (by decide) left⟩
    obtain ⟨more, rfl, hmore, hend⟩ := climbed_of_readOn hless (by simp) hclimbed hon
    exact ⟨taken ++ more, by simp, hmore, hend⟩

end Expression

end Prepass
