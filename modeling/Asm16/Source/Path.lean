import Asm16.Text.Utf8

/-!
# Paths

Names of documents are paths with slashes. `Path.clean` is the shortest path that means the same,
`Path.isValid` the form of a name inside a file tree : parts separated by single slashes, none of
them empty, `.` or `..`.
-/

namespace Asm16.Path

/-- What stands between the parts of a path. -/
def slash : UInt8 := byte '/'

/-- The parts of a path. -/
def parts (p : Bytes) : List Bytes := p.splitOn slash

/-- A path that starts at the root. -/
def isRooted (p : Bytes) : Bool := p.head? = some slash

/-- Takes one part into the parts so far, the last one first. Two dots cancel the part before them;
at the root there is nothing to cancel. -/
def push (rooted : Bool) (stack : List Bytes) (part : Bytes) : List Bytes :=
  if part.isEmpty || part = "." then stack
  else if part = ".." then
    match stack with
    | top :: below => if top = ".." then part :: stack else below
    | [] => if rooted then [] else [part]
  else part :: stack

/-- The parts of a path with nothing left to cancel. -/
def cleanParts (p : Bytes) : List Bytes := ((parts p).foldl (push (isRooted p)) []).reverse

/-- The shortest path that means the same. -/
def clean (p : Bytes) : Bytes :=
  let body := Bytes.join [slash] (cleanParts p)
  if isRooted p then slash :: body else if body.isEmpty then "." else body

/-- Paths one inside the other, empty ones left out. -/
def join (ps : List Bytes) : Bytes :=
  match ps.filter (!·.isEmpty) with
  | [] => []
  | qs => clean (Bytes.join [slash] qs)

/-- The directory of a path : all but what follows the last slash. -/
def dir (p : Bytes) : Bytes := clean (p.reverse.dropWhile (· != slash)).reverse

/-- The last part of a path. -/
def base (p : Bytes) : Bytes := (p.reverse.takeWhile (· != slash)).reverse

/-- The ending of the last part from its last dot on. -/
def ext (p : Bytes) : Bytes :=
  let back := (base p).reverse
  if back.contains (byte '.') then ((back.takeWhile (· != byte '.')) ++ [byte '.']).reverse else []

/-- The form of a name inside a file tree. -/
def isValid (p : Bytes) : Bool :=
  Utf8.wellFormed p &&
    (p = "." || (parts p).all fun part => !part.isEmpty && part != "." && part != "..")

end Asm16.Path
