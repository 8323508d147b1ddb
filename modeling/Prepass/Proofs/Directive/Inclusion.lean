import Mathlib
import Prepass.Proofs.Directive.Yields

/-!
# Include paths

An include path is a text between angle brackets, or between double quotes. What the parser accepts is said of the tokens that are left: it takes the
path that they begin with, up to the bracket or the literal that ends it (`Parse.Written`). A bracketed text that is no path is passed over, and a path
between double quotes is taken from right after it, too (`Parse.PassedOver`). Of all other tokens nothing is taken, and the place is where it was
(`Parse.includePath_accepts`).
-/

namespace Prepass

/-- The text of a literal between its first and its last character. -/
def Token.between (t : Token) : String :=
  String.ofList (t.value.toList.drop 1).dropLast

/-- The cursor so many tokens further, with more notices. -/
def Cursor.past (c : Cursor) (read : Nat) (told : List Notice) : Cursor :=
  { c with pos := c.pos + read, notices := c.notices ++ told }

namespace Cursor

variable (c : Cursor) (read : Nat)

/-- Reading on from where tokens have been read is reading all of them. -/
theorem past_past (told : List Notice) (read' : Nat) (told' : List Notice) :
    (c.past read told).past read' told' = c.past (read + read') (told ++ told') := by
  simp [past, Nat.add_assoc]

/-- A cursor that has read nothing is where it was. -/
theorem past_zero : c.past 0 [] = c := by
  simp [past]

/-- Advancing is reading on without anything told. -/
theorem advance_eq_past : c.advance read = c.past read [] := by
  simp [past, advance]

/-- What is left after some tokens have been read. -/
theorem rest_past (told : List Notice) : (c.past read told).rest = c.rest.drop read := by
  simp [past, rest, List.drop_drop]

end Cursor

namespace Parse

/-! ## What is written -/

/-- Tokens that begin with an angle bracket, with other tokens up to the first closing one, and with that one. -/
def Bracketed (ts inside rest : List Token) : Prop :=
  ∃ opening closing, ts = opening :: (inside ++ closing :: rest) ∧ opening.content = ("<", .punctuator) ∧
    closing.content = (">", .punctuator) ∧ ∀ t ∈ inside, t.value ≠ ">"

/-- Tokens that begin with a string literal without a mark, which holds a text. -/
def Quoted (ts : List Token) (text : String) : Prop :=
  ∃ literal rest, ts = literal :: rest ∧ literal.kind = .stringLiteral ∧ literal.value.toList.head? = some '"' ∧ literal.between = text

/-- The include path that some tokens begin with, and how many tokens it is. -/
inductive Written (ts : List Token) : IncludePath → Nat → Prop
  | bracketed {inside rest : List Token} (h : Bracketed ts inside rest) (hvalid : IncludePath.isValid (Token.spell inside "") = true) :
    Written ts ⟨Token.spell inside "", true⟩ (inside.length + 2)
  | quoted {text : String} (h : Quoted ts text) (hvalid : IncludePath.isValid text = true) : Written ts ⟨text, false⟩ 1

/-- The path between double quotes right after a bracketed text that is no path, and how many tokens both are. -/
inductive PassedOver (ts : List Token) : IncludePath → Nat → Prop
  | quoted {inside rest : List Token} {text : String} (hbracketed : Bracketed ts inside rest)
    (hinvalid : IncludePath.isValid (Token.spell inside "") = false) (h : Quoted rest text) (hvalid : IncludePath.isValid text = true) :
    PassedOver ts ⟨text, false⟩ (inside.length + 3)

/-- Angle brackets are no literal. -/
theorem Bracketed.not_quoted {ts inside rest : List Token} {text : String} (h : Bracketed ts inside rest) : ¬Quoted ts text := by
  rintro ⟨literal, after, hts, hkind, -, -⟩
  obtain ⟨opening, closing, rfl, hopening, -, -⟩ := h
  obtain ⟨rfl, -⟩ := List.cons.inj hts
  have hpunctuator : opening.kind = .punctuator := congrArg Prod.snd hopening
  rw [hpunctuator] at hkind
  cases hkind

/-! ## Single steps -/

section

variable {α : Type} {p : Parse α} {c c' : Cursor} {test : Token → Bool} {e : ParseError} {t : Token} {ts inside rest : List Token}
  {text : String}

/-- The first token that is left is read when it passes the test. -/
theorem token_of_rest (h : c.rest = t :: ts) (htest : test t = true) (e : ParseError) : token test e c = .ok t (c.past 1 []) := by
  unfold token
  rw [c.peek?_eq_head?, h, List.head?_cons, ← c.advance_eq_past]
  exact if_pos htest

/-- Nothing is read when the first token does not pass the test. -/
theorem token_refused (h : ∀ t, c.rest.head? = some t → test t = false) (e : ParseError) : ∃ e', token test e c = .error e' c := by
  unfold token
  rw [c.peek?_eq_head?]
  cases hhead : c.rest.head? with
  | none => exact ⟨.noTokens, rfl⟩
  | some t => exact ⟨e, if_neg (by simp [h t hhead])⟩

variable {v : String} {k : Token.Kind}

/-- The first token that is left is read when it has the value and the kind. -/
theorem value_of_rest (h : c.rest = t :: ts) (ht : t.content = (v, k)) : value v k c = .ok t (c.past 1 []) := by
  obtain ⟨rfl, rfl⟩ : t.value = v ∧ t.kind = k := Prod.mk.inj ht
  exact token_of_rest h (by simp) _

/-- Nothing is read when the first token has another value or kind. -/
theorem value_refused (h : ∀ t, c.rest.head? = some t → t.content ≠ (v, k)) : ∃ e, value v k c = .error e c := by
  refine token_refused (fun t ht => ?_) _
  have hne := h t ht
  simp only [Token.content, ne_eq, Prod.mk.injEq] at hne
  simpa [and_comm] using hne

/-- Tokens are split where the first closing bracket comes, if one comes. -/
theorem exists_inside (ts : List Token) : ∃ inside rest, ts = inside ++ rest ∧ (∀ t ∈ inside, t.value ≠ ">") ∧
    ∀ t, rest.head? = some t → t.value = ">" := by
  refine ⟨ts.takeWhile (·.value ≠ ">"), ts.dropWhile (·.value ≠ ">"), List.takeWhile_append_dropWhile.symm, ?_, ?_⟩
  · exact fun t ht => by simpa using List.mem_takeWhile_imp ht
  · intro t ht
    have := List.head?_dropWhile_not (fun t : Token => decide (t.value ≠ ">")) ts
    rw [ht] at this
    simpa using this

/-- The tokens up to the first closing bracket are read, and not the bracket. -/
theorem insideAngles_of_rest (h : c.rest = inside ++ rest) (hinside : ∀ t ∈ inside, t.value ≠ ">")
    (hrest : ∀ t, rest.head? = some t → t.value = ">") :
    insideAngles c = .ok inside (c.past inside.length []) ∧ (c.past inside.length []).rest = rest := by
  have htake : c.rest.takeWhile (·.value ≠ ">") = inside := by
    rw [h, List.takeWhile_append_of_pos (by simpa using hinside)]
    cases rest with
    | nil => simp
    | cons closing more => rw [List.takeWhile_cons_of_neg (by simp [hrest closing rfl]), List.append_nil]
  refine ⟨?_, ?_⟩
  · unfold insideAngles
    rw [htake]
    exact congrArg (EStateM.Result.ok inside) (c.advance_eq_past _)
  · rw [c.rest_past, h, List.drop_left]

theorem checkPath_eq (path : String) (c : Cursor) : checkPath path c = .ok (IncludePath.isValid path) (c.past 0 (IncludePath.check path)) := rfl

/-- What is read is there where it is optional. -/
theorem optional_of_ok {a : α} (h : p c = .ok a c') : optional p c = .ok (some a) c' := by
  unfold optional
  rw [h]

/-- Where work is refused that has told nothing, all is as it was. -/
theorem optional_of_error (h : p c = .error e c') (htokens : c'.tokens = c.tokens) (hnotices : c'.notices = c.notices) :
    optional p c = .ok none c := by
  unfold optional
  rw [h]
  exact congrArg (EStateM.Result.ok none) (by rw [htokens, hnotices])

/-! ## Brackets and quotes -/

/-- Between angle brackets stands the spelling of a path, which may be no path. -/
theorem systemPath_of_bracketed (h : Bracketed c.rest inside rest) : systemPath c =
    .ok (if IncludePath.isValid (Token.spell inside "") then some ⟨Token.spell inside "", true⟩ else none)
      (c.past (inside.length + 2) (IncludePath.check (Token.spell inside ""))) := by
  obtain ⟨opening, closing, hrest, hopening, hclosing, hinside⟩ := h
  have hleft : (c.past 1 []).rest = inside ++ closing :: rest := by
    rw [c.rest_past, hrest]
    rfl
  have hclose : closing.value = ">" := congrArg Prod.fst hclosing
  obtain ⟨hbetween, hend⟩ := insideAngles_of_rest hleft hinside (by simp [hclose])
  unfold systemPath
  rw [bind_of_ok (value_of_rest hrest hopening), bind_of_ok hbetween, bind_of_ok (value_of_rest hend hclosing), bind_of_ok (checkPath_eq _ _),
    Cursor.past_past, Cursor.past_past, Cursor.past_past, List.nil_append, List.nil_append, List.nil_append]
  have hread : 1 + (inside.length + (1 + 0)) = inside.length + 2 := by omega
  rw [hread]
  rfl

/-- Where no text in angle brackets comes, none is taken. -/
theorem systemPath_refused (h : ∀ inside rest, ¬Bracketed c.rest inside rest) : optional systemPath c = .ok none c := by
  by_cases hopens : ∃ opening ts, c.rest = opening :: ts ∧ opening.content = ("<", .punctuator)
  · obtain ⟨opening, ts, hrest, hopening⟩ := hopens
    have hleft : (c.past 1 []).rest = ts := by
      rw [c.rest_past, hrest]
      rfl
    obtain ⟨inside, rest, rfl, hinside, hclose⟩ := exists_inside ts
    obtain ⟨hbetween, hend⟩ := insideAngles_of_rest hleft hinside hclose
    obtain ⟨e, hlast⟩ : ∃ e, value ">" .punctuator ((c.past 1 []).past inside.length []) = .error e _ := by
      refine value_refused fun closing hhead hclosing => ?_
      rw [hend] at hhead
      obtain ⟨rest, rfl⟩ := List.head?_eq_some_iff.mp hhead
      exact h inside rest ⟨opening, closing, hrest, hopening, hclosing, hinside⟩
    have hsystem : systemPath c = .error e ((c.past 1 []).past inside.length []) := by
      unfold systemPath
      rw [bind_of_ok (value_of_rest hrest hopening), bind_of_ok hbetween, bind_of_error hlast]
    exact optional_of_error hsystem rfl (by simp [Cursor.past])
  · obtain ⟨e, hfirst⟩ : ∃ e, value "<" .punctuator c = .error e c := by
      refine value_refused fun opening hhead hopening => hopens ?_
      obtain ⟨ts, hrest⟩ := List.head?_eq_some_iff.mp hhead
      exact ⟨opening, ts, hrest, hopening⟩
    exact optional_of_error (bind_of_error hfirst) rfl rfl

/-- A string literal holds a path, or a text that is none. -/
theorem localPath_of_quoted (h : Quoted c.rest text) : localPath c =
    .ok (if IncludePath.isValid text then some ⟨text, false⟩ else none) (c.past 1 (IncludePath.check text)) := by
  obtain ⟨literal, rest, hrest, hkind, hquote, rfl⟩ := h
  have hfirst : kind .stringLiteral c = .ok literal (c.past 1 []) := token_of_rest hrest (by simp [hkind]) _
  unfold localPath
  rw [bind_of_ok hfirst, if_neg (not_not.mpr hquote), ← Token.between, bind_of_ok (checkPath_eq _ _), Cursor.past_past, List.nil_append]
  rfl

/-- Where no text between double quotes comes, none is taken. A literal with a mark is read all the same. -/
theorem localPath_refused (h : ∀ text, ¬Quoted c.rest text) :
    ∃ found read, found.join = none ∧ optional localPath c = .ok found (c.past read []) := by
  by_cases hliteral : ∃ literal ts, c.rest = literal :: ts ∧ literal.kind = .stringLiteral
  · obtain ⟨literal, ts, hrest, hkind⟩ := hliteral
    have hfirst : kind .stringLiteral c = .ok literal (c.past 1 []) := token_of_rest hrest (by simp [hkind]) _
    have hmark : literal.value.toList.head? ≠ some '"' := fun hquote => h _ ⟨literal, ts, hrest, hkind, hquote, rfl⟩
    have hlocal : localPath c = .ok none (c.past 1 []) := by
      unfold localPath
      rw [bind_of_ok hfirst, if_pos hmark]
      rfl
    exact ⟨some none, 1, rfl, optional_of_ok hlocal⟩
  · obtain ⟨e, hfirst⟩ : ∃ e, kind .stringLiteral c = .error e c := by
      refine token_refused (fun literal hhead => decide_eq_false fun hkind => hliteral ?_) _
      obtain ⟨ts, hrest⟩ := List.head?_eq_some_iff.mp hhead
      exact ⟨literal, ts, hrest, hkind⟩
    refine ⟨none, 0, rfl, ?_⟩
    rw [c.past_zero]
    exact optional_of_error (bind_of_error hfirst) rfl rfl

/-! ## The path that is taken -/

/-- A path between angle brackets is the first one that is tried. -/
theorem includePath_of_systemPath {p : IncludePath} (h : systemPath c = .ok (some p) c') : includePath c = .ok p c' := by
  unfold includePath whole
  rw [bind_of_ok (optional_of_ok h)]
  rfl

/-- After the attempt at brackets came to no path, quotes are tried where it ended. -/
theorem includePath_of_localPath {p : IncludePath} {found : Option (Option IncludePath)} {c₁ : Cursor} (hnone : found.join = none)
    (hsystem : optional systemPath c = .ok found c₁) (h : localPath c₁ = .ok (some p) c') : includePath c = .ok p c' := by
  unfold includePath whole
  rw [bind_of_ok hsystem]
  obtain rfl | rfl : found = none ∨ found = some none := by simpa [Option.join_eq_none_iff] using hnone
  · dsimp only
    rw [bind_of_ok (optional_of_ok h)]
    rfl
  · dsimp only
    rw [bind_of_ok (optional_of_ok h)]
    rfl

/-- When both attempts come to no path, the place is set back. -/
theorem includePath_refused {found found' : Option (Option IncludePath)} {c₁ : Cursor} (hnone : found.join = none) (hnone' : found'.join = none)
    (hsystem : optional systemPath c = .ok found c₁) (hlocal : optional localPath c₁ = .ok found' c') :
    includePath c = .error .invalidPath { c' with pos := c.pos } := by
  unfold includePath whole
  rw [bind_of_ok hsystem]
  obtain rfl | rfl : found = none ∨ found = some none := by simpa [Option.join_eq_none_iff] using hnone
  all_goals
    dsimp only
    rw [bind_of_ok hlocal]
    obtain rfl | rfl : found' = none ∨ found' = some none := by simpa [Option.join_eq_none_iff] using hnone'
    all_goals rfl

/-- What is left after a text in angle brackets. -/
theorem Bracketed.rest_past (h : Bracketed c.rest inside rest) (told : List Notice) : (c.past (inside.length + 2) told).rest = rest := by
  obtain ⟨opening, closing, hrest, -, -, -⟩ := h
  rw [c.rest_past, hrest, List.drop_succ_cons, List.drop_append]
  simp

/-- Without a path between quotes there is none, but the text that is no path has been read. -/
theorem localPath_none (h : ∀ text, Quoted c.rest text → IncludePath.isValid text = false) :
    ∃ found read told, found.join = none ∧ optional localPath c = .ok found (c.past read told) := by
  by_cases hquoted : ∃ text, Quoted c.rest text
  · obtain ⟨text, hquoted⟩ := hquoted
    have hlocal := localPath_of_quoted hquoted
    rw [h text hquoted] at hlocal
    exact ⟨some none, _, _, rfl, optional_of_ok hlocal⟩
  · obtain ⟨found, read, hnone, hlocal⟩ := localPath_refused (not_exists.mp hquoted)
    exact ⟨found, read, [], hnone, hlocal⟩

/-- A path that is written is taken, and so is one that a bracketed text is passed over for. -/
theorem includePath_of_written {p : IncludePath} {read : Nat} (h : Written c.rest p read ∨ PassedOver c.rest p read) :
    ∃ told, includePath c = .ok p (c.past read told) := by
  rcases h with h | h
  · cases h with
    | bracketed h hvalid =>
      have hsystem := systemPath_of_bracketed h
      rw [if_pos hvalid] at hsystem
      exact ⟨_, includePath_of_systemPath hsystem⟩
    | quoted h hvalid =>
      have hlocal := localPath_of_quoted h
      rw [if_pos hvalid] at hlocal
      exact ⟨_, includePath_of_localPath rfl (systemPath_refused fun inside rest hbracketed => hbracketed.not_quoted h) hlocal⟩
  · cases h with
    | @quoted inside rest text hbracketed hinvalid h hvalid =>
      have hsystem := systemPath_of_bracketed hbracketed
      rw [if_neg (by simp [hinvalid])] at hsystem
      rw [← hbracketed.rest_past (IncludePath.check (Token.spell inside ""))] at h
      have hlocal := localPath_of_quoted h
      rw [if_pos hvalid, Cursor.past_past] at hlocal
      exact ⟨_, includePath_of_localPath rfl (optional_of_ok hsystem) hlocal⟩

/-- Where no path is written and none comes after a bracketed text that is passed over, none is taken, and the place is where it was. -/
theorem includePath_of_not_written (h : ¬∃ p read, Written c.rest p read ∨ PassedOver c.rest p read) :
    ∃ told, includePath c = .error .invalidPath (c.past 0 told) := by
  have hnot {p : IncludePath} {read : Nat} : ¬(Written c.rest p read ∨ PassedOver c.rest p read) := fun hp => h ⟨p, read, hp⟩
  by_cases hbracketed : ∃ inside rest, Bracketed c.rest inside rest
  · obtain ⟨inside, rest, hbracketed⟩ := hbracketed
    have hinvalid : IncludePath.isValid (Token.spell inside "") = false :=
      (Bool.not_eq_true _).mp fun hvalid => hnot (.inl (.bracketed hbracketed hvalid))
    have hsystem := systemPath_of_bracketed hbracketed
    rw [if_neg (by simp [hinvalid])] at hsystem
    obtain ⟨found, read, told, hnone, hlocal⟩ := localPath_none (c := c.past (inside.length + 2) (IncludePath.check (Token.spell inside ""))) <| by
      rw [hbracketed.rest_past]
      exact fun text hquoted => (Bool.not_eq_true _).mp fun hvalid => hnot (.inr (.quoted hbracketed hinvalid hquoted hvalid))
    rw [Cursor.past_past] at hlocal
    exact ⟨_, includePath_refused rfl hnone (optional_of_ok hsystem) hlocal⟩
  · have hsystem := systemPath_refused fun inside rest hrest => hbracketed ⟨inside, rest, hrest⟩
    obtain ⟨found, read, told, hnone, hlocal⟩ := localPath_none (c := c) fun text hquoted =>
      (Bool.not_eq_true _).mp fun hvalid => hnot (.inl (.quoted hquoted hvalid))
    exact ⟨_, includePath_refused rfl hnone hsystem hlocal⟩

end

/-- What is accepted as an include path. A path is taken, with so many tokens, just when these tokens are one: a valid path up to the first closing angle
bracket, or in a string literal that begins with a double quote; or when they are a bracketed text that is no path and such a literal right after it.
In all other cases it is refused as no path, and the place is where it was. -/
theorem includePath_accepts (c : Cursor) :
    (∀ p read, (∃ told, includePath c = .ok p (c.past read told)) ↔ Written c.rest p read ∨ PassedOver c.rest p read) ∧
    ((∃ told, includePath c = .error .invalidPath (c.past 0 told)) ↔ ¬∃ p read, Written c.rest p read ∨ PassedOver c.rest p read) := by
  refine ⟨fun p read => ⟨?_, includePath_of_written⟩, ?_, includePath_of_not_written⟩
  · rintro ⟨told, hok⟩
    by_cases h : ∃ p read, Written c.rest p read ∨ PassedOver c.rest p read
    · obtain ⟨p', read', h⟩ := h
      obtain ⟨told', hok'⟩ := includePath_of_written h
      obtain ⟨rfl, hcursor⟩ := EStateM.Result.ok.inj (hok.symm.trans hok')
      have hread : c.pos + read = c.pos + read' := congrArg Cursor.pos hcursor
      rwa [Nat.add_left_cancel hread]
    · obtain ⟨told', herror⟩ := includePath_of_not_written h
      cases hok.symm.trans herror
  · rintro ⟨told, herror⟩ ⟨p, read, h⟩
    obtain ⟨told', hok⟩ := includePath_of_written h
    cases hok.symm.trans herror

/-- A path between angle brackets, and a token after it. -/
def angled : List Token :=
  [{ value := "<", kind := .punctuator }, { value := "a", kind := .identifier }, { value := ".", kind := .punctuator },
   { value := "h", kind := .identifier }, { value := ">", kind := .punctuator }, { value := "b", kind := .identifier }]

/-- The path between the brackets is accepted, and the token after it is left. -/
theorem includePath_accepts_angled :
    Written angled ⟨"a.h", true⟩ 5 ∧ ∃ told, includePath { tokens := angled } = .ok ⟨"a.h", true⟩ (Cursor.past { tokens := angled } 5 told) := by
  have hbracketed : Bracketed angled ((angled.drop 1).take 3) (angled.drop 5) := ⟨_, _, rfl, rfl, rfl, by decide⟩
  have hwritten : Written angled ⟨"a.h", true⟩ 5 := .bracketed hbracketed (by decide)
  exact ⟨hwritten, ((includePath_accepts { tokens := angled }).1 ⟨"a.h", true⟩ 5).mpr (.inl hwritten)⟩

/-- Nothing between angle brackets, and a path between double quotes after them. -/
def emptyAngles : List Token :=
  [{ value := "<", kind := .punctuator }, { value := ">", kind := .punctuator, column := 1 },
   { value := "\"a.h\"", kind := .stringLiteral, column := 3, spaced := true }]

/-- Empty brackets are passed over: a path is taken, although the tokens do not begin with one. -/
theorem emptyAngles_passed_over : Token.ofText "<> \"a.h\"" = emptyAngles ∧
    includePath { tokens := emptyAngles } = .ok ⟨"a.h", false⟩ { tokens := emptyAngles, pos := 3 } ∧
    ¬∃ p read, Written emptyAngles p read := by
  refine ⟨by cbv, by cbv, ?_⟩
  rintro ⟨p, read, h⟩
  cases h with
  | @bracketed inside rest h hvalid =>
    obtain ⟨opening, closing, hts, -, -, hinside⟩ := h
    cases inside with
    | nil => exact absurd hvalid (by decide)
    | cons t more =>
      obtain ⟨-, hmore⟩ := List.cons.inj hts
      obtain ⟨rfl, -⟩ := List.cons.inj hmore
      exact hinside _ List.mem_cons_self rfl
  | quoted h hvalid =>
    obtain ⟨literal, rest, hts, hkind, -⟩ := h
    obtain ⟨rfl, -⟩ := List.cons.inj hts
    cases hkind

end Parse

end Prepass
