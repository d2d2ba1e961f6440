import Asm16.Source.Path

/-!
# File trees

A file tree gives names to texts; the directories are those the names imply. A `Source` is a file
tree with the two roots an include is searched from, after the directory of the including document.
-/

namespace Asm16

/-- Why a document could not be read. -/
inductive FileError where
  | missing (name : Bytes)
  | directory (name : Bytes)
  deriving DecidableEq, Repr

/-- The text of an error. -/
def FileError.message : FileError → Bytes
  | missing name => "open " ++ name ++ ": file does not exist"
  | directory name => "read " ++ name ++ ": invalid argument"

/-- What a name stands for. -/
inductive Entry where
  | file (text : Bytes)
  | directory
  deriving DecidableEq, Repr

/-- Texts by name. -/
abbrev Files := List (Bytes × Bytes)

namespace Files

/-- The text with a name. -/
def text? (fs : Files) (name : Bytes) : Option Bytes := (fs.find? (·.1 == name)).map (·.2)

/-- A name that is a proper beginning of another, up to a slash, is a directory. -/
def isDirectory (fs : Files) (name : Bytes) : Bool :=
  name = "." || fs.any fun f => (name ++ [Path.slash]).isPrefixOf f.1

/-- What a name stands for, if it is valid and there is such a thing. -/
def entry? (fs : Files) (name : Bytes) : Option Entry :=
  if Path.isValid name then
    match fs.text? name with
    | some text => some (.file text)
    | none => if fs.isDirectory name then some .directory else none
  else none

/-- The text of a document. -/
def read (fs : Files) (name : Bytes) : Except FileError Bytes :=
  match fs.entry? (Path.clean name) with
  | some (.file text) => .ok text
  | some .directory => .error (.directory (Path.clean name))
  | none => .error (.missing (Path.clean name))

end Files

/-- Where documents come from. -/
structure Source where
  files : Files
  projectRoot : Bytes := []
  workspaceRoot : Bytes := []
  deriving DecidableEq, Repr

namespace Source

/-- The names an include of `file` from the document `origin` may stand for, in order. -/
def candidates (s : Source) (origin file : Bytes) : List Bytes :=
  let file := match file with
    | c :: rest => if c = Path.slash then rest else file
    | [] => []
  [Path.join [Path.dir origin, file], Path.join [s.projectRoot, file],
    Path.join [s.workspaceRoot, file]]

/-- The file an include of `file` from the document `origin` stands for : its name and its text. -/
def resolve? (s : Source) (origin file : Bytes) : Option (Bytes × Bytes) :=
  if file.isEmpty then none
  else (s.candidates origin file).findSome? fun name =>
    match s.files.entry? name with
    | some (.file text) => some (name, text)
    | _ => none

end Source

end Asm16
