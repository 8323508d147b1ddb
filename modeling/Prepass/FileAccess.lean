import Prepass.FileTree
import Prepass.Text.Encoding

/-!
# What the system says of files

A session asks the system it runs on for the absolute form of a path, whether a file stands at an absolute path, the bytes of a file, and
the text that bytes are in a named encoding. The answers are functions, so the files stay as they are while a session looks at them;
beyond that they are whatever the system says. One such system is a tree of files, with paths seen from the working directory.
-/

namespace Prepass

/-- What the system says of files. No file has the empty path. -/
structure FileAccess where
  /-- The absolute form of a path text. -/
  absolute : String → String
  /-- Whether a file stands at a path. -/
  isFile : String → Bool
  /-- The bytes of the file that a path names, or why it cannot be opened. -/
  contents : String → Except FileError (List UInt8)
  /-- The text of bytes in the encoding of a name, with replacement characters for those that cannot be read; none when there is no such
  encoding, or it cannot go on after an error. -/
  decode : String → List UInt8 → Option (List Char)
  isFile_empty : isFile "" = false

/-- A tree as a system: an absolute path is one seen from the working directory, and a path that leads out of it has no file. -/
def FileTree.access (files : FileTree) : FileAccess where
  absolute path := ((Path.resolve? path).map (Text.join "/")).getD path
  isFile path := path ≠ "" && files.isFile (Path.components path)
  contents := files.read
  decode name bytes := (Text.Encoding.ofName? name).map (·.decode bytes)
  isFile_empty := rfl

instance : Coe FileTree FileAccess := ⟨FileTree.access⟩

/-- A system without files. -/
instance : EmptyCollection FileAccess := ⟨FileTree.access {}⟩

end Prepass
