import Prepass.Text.Basic

/-!
# Encodings of source files

A source file is a list of bytes. It is read in one of three encodings, and a byte that cannot be read becomes the replacement
character: in UTF-8 one for each longest run of bytes that begins some character and cannot be completed, in ASCII one for each
byte. A carriage return, alone or before a line feed, then counts as a line feed.
-/

namespace Prepass.Text

/-- The encodings of source files. -/
inductive Encoding where
  | utf8
  | latin1
  | ascii
  deriving DecidableEq, Repr

/-- Other names of UTF-8. -/
def utf8Aliases : List String :=
  ["cp65001", "u8", "utf", "utf8", "utf8_ucs2", "utf8_ucs4"]

/-- Other names of Latin-1. -/
def latin1Aliases : List String :=
  ["8859", "cp819", "csisolatin1", "ibm819", "iso8859", "iso8859_1", "iso_8859_1", "iso_8859_1_1987", "iso_ir_100", "l1", "latin",
   "latin1"]

/-- Other names of ASCII. -/
def asciiAliases : List String :=
  ["646", "ansi_x3.4_1968", "ansi_x3_4_1968", "ansi_x3.4_1986", "cp367", "csascii", "ibm367", "iso646_us", "iso_646.irv_1991",
   "iso_ir_6", "us", "us_ascii"]

/-- A character that counts in the name of an encoding: an ASCII letter, an ASCII digit or a period. -/
def isNameChar (c : Char) : Bool :=
  c.isAlphanum || c = '.'

/-- The name of an encoding in lower case, with an underscore for each run of characters between those that count. -/
def encodingKey (name : String) : String :=
  let runs := (pieces (!isNameChar ·) name.toList).filter (· ≠ [])
  join "_" (runs.map fun run => String.ofList (run.map Char.toLower))

/-- The encoding that has the given key among its other names. -/
def Encoding.ofAlias? (key : String) : Option Encoding :=
  if key ∈ utf8Aliases then some .utf8
  else if key ∈ latin1Aliases then some .latin1
  else if key ∈ asciiAliases then some .ascii
  else none

/-- The encoding that the given key names itself. -/
def Encoding.ofKey? (key : String) : Option Encoding :=
  if key = "utf_8" then some .utf8
  else if key = "latin_1" then some .latin1
  else if key = "ascii" then some .ascii
  else none

/-- The encoding with the given name. In its other names a period may stand for an underscore. The surroundings have a name of
their own for their encoding, which is UTF-8. -/
def Encoding.ofName? (name : String) : Option Encoding :=
  if name = "locale" then some .utf8
  else
    let key := encodingKey name
    let undotted := String.ofList (key.toList.map fun c => if c = '.' then '_' else c)
    ofAlias? key <|> ofAlias? undotted <|> ofKey? key

/-- The character that stands for bytes that cannot be read. -/
def replacementChar : Char := Char.ofNat 0xFFFD

/-- What a first byte of a UTF-8 character says: how many bytes follow, the bounds of the next one, and the high bits. -/
def leadByte? (b : Nat) : Option (Nat × Nat × Nat × Nat) :=
  if 0xC2 ≤ b ∧ b ≤ 0xDF then some (1, 0x80, 0xBF, b - 0xC0)
  else if b = 0xE0 then some (2, 0xA0, 0xBF, 0)
  else if b = 0xED then some (2, 0x80, 0x9F, 0xD)
  else if 0xE1 ≤ b ∧ b ≤ 0xEF then some (2, 0x80, 0xBF, b - 0xE0)
  else if b = 0xF0 then some (3, 0x90, 0xBF, 0)
  else if 0xF1 ≤ b ∧ b ≤ 0xF3 then some (3, 0x80, 0xBF, b - 0xF0)
  else if b = 0xF4 then some (3, 0x80, 0x8F, 4)
  else none

/-- Reads up to `more` following bytes, the first between `low` and `high`: the code point, when all are there, and the number of
bytes read. -/
def followBytes : Nat → Nat → Nat → Nat → List UInt8 → Option Nat × Nat
  | 0, _, _, value, _ => (some value, 0)
  | _ + 1, _, _, _, [] => (none, 0)
  | more + 1, low, high, value, b :: rest =>
    if low ≤ b.toNat ∧ b.toNat ≤ high then
      let (result, read) := followBytes more 0x80 0xBF (value * 64 + (b.toNat - 0x80)) rest
      (result, read + 1)
    else (none, 0)

/-- The text of bytes in UTF-8. -/
def decodeUtf8 : List UInt8 → List Char
  | [] => []
  | b :: rest =>
    if b.toNat < 0x80 then Char.ofNat b.toNat :: decodeUtf8 rest
    else match leadByte? b.toNat with
      | none => replacementChar :: decodeUtf8 rest
      | some (more, low, high, value) =>
        match followBytes more low high value rest with
        | (some code, read) => Char.ofNat code :: decodeUtf8 (rest.drop read)
        | (none, read) => replacementChar :: decodeUtf8 (rest.drop read)
termination_by bytes => bytes.length
decreasing_by all_goals simp only [List.length_cons, List.length_drop]; omega

/-- The text of bytes in an encoding. -/
def Encoding.decode : Encoding → List UInt8 → List Char
  | .utf8, bytes => decodeUtf8 bytes
  | .latin1, bytes => bytes.map fun b => Char.ofNat b.toNat
  | .ascii, bytes => bytes.map fun b => if b.toNat < 0x80 then Char.ofNat b.toNat else replacementChar

/-- Every carriage return, alone or before a line feed, becomes a line feed. -/
def unifyLineEnds : List Char → List Char
  | [] => []
  | '\r' :: '\n' :: rest => '\n' :: unifyLineEnds rest
  | '\r' :: rest => '\n' :: unifyLineEnds rest
  | c :: rest => c :: unifyLineEnds rest

end Prepass.Text
