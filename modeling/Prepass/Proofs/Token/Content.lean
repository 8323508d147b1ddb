import Prepass.Macro.Paste
import Prepass.Proofs.Token.Lexeme

/-!
# What tokens say

The content of a token is its text and its kind, without its place and the blank before it. Spelling tokens, pasting them and lexing
a text look at contents only. A token is lexed when it says what some token of some text does.
-/

namespace Prepass

namespace Token

/-- What a token says: its text and its kind. -/
def content (t : Token) : String × Kind :=
  (t.value, t.kind)

theorem value_of_content {t t' : Token} (h : t.content = t'.content) : t.value = t'.value :=
  congrArg Prod.fst h

theorem kind_of_content {t t' : Token} (h : t.content = t'.content) : t.kind = t'.kind :=
  congrArg Prod.snd h

/-- The tokens of a text say the same wherever the text stands. -/
theorem content_ofText (text : String) (line : Int) (uri : String) (column : Int) :
    (ofText text line uri column).map content = (ofText text).map content :=
  Lexer.scan_place ..

/-- Tokens that say the same are spelled the same. -/
theorem spell_congr {ts ts' : List Token} (h : ts.map content = ts'.map content) (spacer : String) :
    spell ts spacer = spell ts' spacer := by
  have hvalues : ts.map value = ts'.map value := by
    have := congrArg (List.map Prod.fst) h
    simpa [Function.comp_def, content] using this
  rw [spell, spell, hvalues]

theorem content_layFrom (place : Token) (column : Int) (ts : List Token) :
    (layFrom place column ts).map content = ts.map content := by
  induction ts generalizing column with
  | nil => rfl
  | cons t rest ih =>
    rw [layFrom, List.map_cons, List.map_cons, ih]
    rfl

/-- Moving tokens to another place does not change what they say. -/
@[simp]
theorem content_relocate (ts : List Token) (place : Token) : (relocate ts place).map content = ts.map content :=
  content_layFrom place place.column ts

/-- A token that says what a lexed one does. -/
def Lexed (t : Token) : Prop :=
  ∃ text, t.content ∈ (ofText text).map content

theorem lexed_of_mem {text uri : String} {line column : Int} {t : Token} (h : t ∈ ofText text line uri column) : t.Lexed := by
  refine ⟨text, ?_⟩
  rw [← content_ofText text line uri column]
  exact List.mem_map_of_mem h

/-- Tokens that say what those of a text do are lexed. -/
theorem lexed_of_scan {ts : List Token} {text : List Char} (h : ts.map content = (Lexer.scan 1 "" 0 false text).map content) :
    ∀ t ∈ ts, t.Lexed := by
  intro t ht
  refine ⟨String.ofList text, ?_⟩
  rw [ofText, String.toList_ofList, ← h]
  exact List.mem_map_of_mem ht

/-- A token is lexed when its text is one lexeme of its kind. -/
theorem lexed_of_lexeme {t : Token} {c : Char} {rest : List Char} (hvalue : t.value.toList = c :: rest) (hblank : Text.isBlank c = false)
    (hlexeme : Lexer.lexeme (c :: rest) = (t.kind, rest.length + 1)) : t.Lexed := by
  have hscan : ofText t.value = [{ value := t.value, kind := t.kind }] := by
    have htake : (c :: rest).take (rest.length + 1) = c :: rest := List.take_of_length_le (Nat.le_refl _)
    have hdrop : rest.drop (rest.length + 1 - 1) = [] := List.drop_length
    rw [ofText, hvalue, Lexer.scan, if_neg (by simp [hblank]), hlexeme]
    dsimp only
    rw [hdrop, Lexer.scan, htake, ← hvalue, String.ofList_toList]
  refine ⟨t.value, ?_⟩
  rw [hscan]
  exact List.mem_singleton_self _

/-- Moving lexed tokens to another place leaves lexed tokens. -/
theorem lexed_relocate {ts : List Token} (h : ∀ t ∈ ts, t.Lexed) (place : Token) : ∀ t ∈ relocate ts place, t.Lexed := by
  intro t ht
  have hmem : t.content ∈ ts.map content := by
    rw [← content_relocate ts place]
    exact List.mem_map_of_mem ht
  obtain ⟨u, hu, hcontent⟩ := List.mem_map.mp hmem
  obtain ⟨text, htext⟩ := h u hu
  exact ⟨text, hcontent ▸ htext⟩

end Token

end Prepass
