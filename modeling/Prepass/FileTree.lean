import Prepass.Path
import Prepass.Text.Quoted

/-!
# Files

The files below the working directory, as a value. A file is a list of bytes. Whether a path names a file is asked of components without
double dots; opening a file walks through the directories that its path names one by one.
-/

namespace Prepass

/-- A directory, or a file with its bytes. -/
inductive FileNode where
  | directory
  | file (bytes : List UInt8)
  deriving DecidableEq, Repr

/-- The directories and files below the working directory, by their components. -/
structure FileTree where
  nodes : List (List String × FileNode) := []
  deriving DecidableEq, Repr

/-- Why a file cannot be opened or written. A refusal of another kind is told in other words and treated alike; only a null character in
a path is no error of the system. -/
inductive FileError where
  | notFound (path : String)
  | notDirectory (path : String)
  | isDirectory (path : String)
  | alreadyExists (path : String)
  | tooLong (path : String)
  | nullCharacter
  deriving DecidableEq, Repr

/-- The wording of a file error; a path with a null character has none. -/
def FileError.message? : FileError → Option String
  | .notFound path => some ("[Errno 2] No such file or directory: " ++ Text.quoted path)
  | .notDirectory path => some ("[Errno 20] Not a directory: " ++ Text.quoted path)
  | .isDirectory path => some ("[Errno 21] Is a directory: " ++ Text.quoted path)
  | .alreadyExists path => some ("[Errno 17] File exists: " ++ Text.quoted path)
  | .tooLong path => some ("[Errno 36] File name too long: " ++ Text.quoted path)
  | .nullCharacter => none

namespace FileTree

/-- What stands at a place; the working directory is always there. -/
def node? (t : FileTree) (parts : List String) : Option FileNode :=
  if parts = [] then some .directory else t.nodes.lookup parts

/-- The tree with a node at a place. -/
def insert (t : FileTree) (parts : List String) (node : FileNode) : FileTree :=
  { nodes := t.nodes.filter (·.1 ≠ parts) ++ [(parts, node)] }

/-- The tree with nothing at a place. -/
def erase (t : FileTree) (parts : List String) : FileTree :=
  { nodes := t.nodes.filter (·.1 ≠ parts) }

/-- The tree with a directory at a place, unless something stands there. -/
def insertDirectory (t : FileTree) (parts : List String) : FileTree :=
  if (t.node? parts).isSome then t else t.insert parts .directory

/-- Whether a file stands at a place. -/
def isFile (t : FileTree) (parts : List String) : Bool :=
  match t.node? parts with
  | some (.file _) => true
  | _ => false

/-- Where a walk through directories has come to: a place in the tree, or somewhere outside of it. -/
inductive Spot where
  | inside (parts : List String)
  | outside
  deriving DecidableEq, Repr

/-- One step of a walk; the component before a slash has to be a directory, and a name longer than any name can be is refused where it
is looked up. -/
def step (t : FileTree) (path : String) : Spot → String → Except FileError Spot
  | .outside, part =>
    if Path.isIdle part ∨ part = ".." then .ok .outside
    else if part.utf8ByteSize > Path.maxNameBytes then .error (.tooLong path)
    else .error (.notFound path)
  | .inside parts, part =>
    match t.node? parts with
    | none => .error (.notFound path)
    | some (.file _) => .error (.notDirectory path)
    | some .directory =>
      if Path.isIdle part then .ok (.inside parts)
      else if part = ".." then (if parts = [] then .ok .outside else .ok (.inside parts.dropLast))
      else if part.utf8ByteSize > Path.maxNameBytes then .error (.tooLong path)
      else .ok (.inside (parts ++ [part]))

/-- Where a path leads when its components are walked one by one. -/
def walk (t : FileTree) (path : String) : Except FileError Spot :=
  let start : Spot := if path.toList.head? = some '/' then .outside else .inside []
  if path.utf8ByteSize > Path.maxBytes then .error (.tooLong path)
  else (Path.components path).foldlM (t.step path) start

/-- The place and the bytes of the file that a path names. -/
def locate (t : FileTree) (path : String) : Except FileError (List String × List UInt8) :=
  if Char.ofNat 0 ∈ path.toList then .error .nullCharacter
  else if path = "" then .error (.notFound path)
  else
    match t.walk path with
    | .error e => .error e
    | .ok .outside => .error (.isDirectory path)
    | .ok (.inside parts) =>
      match t.node? parts with
      | none => .error (.notFound path)
      | some .directory => .error (.isDirectory path)
      | some (.file bytes) => .ok (parts, bytes)

/-- The bytes of the file that a path names. -/
def read (t : FileTree) (path : String) : Except FileError (List UInt8) :=
  (t.locate path).map (·.2)

/-- The tree without the file that a path names. -/
def remove (t : FileTree) (path : String) : Except FileError FileTree :=
  (t.locate path).map fun (parts, _) => t.erase parts

/-- One step of a walk that makes the directories it lacks. -/
def stepMaking (path : String) (held : FileTree × Spot) (part : String) : Except FileError (FileTree × Spot) :=
  match held.1.step path held.2 part with
  | .error e => .error e
  | .ok .outside => .ok (held.1, .outside)
  | .ok (.inside parts) => .ok (held.1.insertDirectory parts, .inside parts)

/-- The tree with directories wherever a walk comes by, and where the walk ends: in a directory, or somewhere outside. -/
def makeDirectories (t : FileTree) (path : String) (parts : List String) : Except FileError (FileTree × Spot) :=
  match parts.foldlM (stepMaking path) (t, .inside []) with
  | .error e => .error e
  | .ok (t, .outside) => .ok (t, .outside)
  | .ok (t, .inside place) => if t.node? place = some .directory then .ok (t, .inside place) else .error (.alreadyExists path)

/-- The tree with a file or directory written to a path, and the directories on the way to it. A file replaces a file, but not
a directory. -/
def write (t : FileTree) (path : String) (node : FileNode) : Except FileError FileTree :=
  let parts := (Path.ofText path).parts
  if node = .directory then (t.makeDirectories path parts).map (·.1)
  else
    match t.makeDirectories path parts.dropLast with
    | .error e => .error e
    | .ok (t, spot) =>
      match t.step path spot (parts.getLast?.getD "") with
      | .error e => .error e
      | .ok .outside => .error (.isDirectory path)
      | .ok (.inside place) =>
        if t.node? place = some .directory then .error (.isDirectory path) else .ok (t.insert place node)

/-- The components, below a directory, of all files in it and in its subdirectories, in the order of paths. Where no directory is,
there are no files; only a path that is too long is refused. -/
def filesBelow (t : FileTree) (dir : Path) : Except FileError (List (List String)) :=
  match t.walk dir.text with
  | .error (.tooLong path) => .error (.tooLong path)
  | .ok (.inside parts) =>
    if t.node? parts = some .directory then
      let found := t.nodes.filterMap fun (place, node) =>
        if parts.isPrefixOf place && place ≠ parts && node ≠ .directory then some (place.drop parts.length) else none
      .ok (found.mergeSort Path.partsBefore)
    else .ok []
  | _ => .ok []

end FileTree

end Prepass
