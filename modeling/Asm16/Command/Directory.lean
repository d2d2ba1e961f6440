import Asm16.Source.Files

/-!
# Directories

A `Directory` is a file tree as a command sees it : files by absolute path, and the working
directory that other paths start from. The directories there are hold a file, or the working
directory.
-/

namespace Asm16.Command

/-- The files a command can reach. -/
structure Directory where
  /-- The working directory. -/
  home : Bytes
  /-- The files, by absolute path. -/
  files : Files
  deriving DecidableEq, Repr

/-- The path of `p` inside the directory `root`, if it is there. Both are absolute. -/
def inside? (root p : Bytes) : Option Bytes :=
  if p = root then some "."
  else Bytes.after? (if root = [Path.slash] then root else root ++ [Path.slash]) p

namespace Directory

/-- The absolute path a path stands for. -/
def absolute (d : Directory) (p : Bytes) : Bytes :=
  if Path.isRooted p then Path.clean p else Path.clean (d.home ++ [Path.slash] ++ p)

/-- Whether there is a directory at an absolute path. -/
def holds (d : Directory) (p : Bytes) : Bool :=
  (inside? p d.home).isSome || d.files.any fun f => f.1 != p && (inside? p f.1).isSome

/-- The files inside a directory. -/
def filesIn (d : Directory) (root : Bytes) : Files :=
  d.files.filterMap fun (path, text) => (inside? root path).map fun name => (name, text)

/-- Goes through the parts of a path, from directory to directory. The last part need not be there,
but if anything follows it, be it only a slash, it has to be a directory. -/
def walk (d : Directory) (place : Bytes) : List Bytes → Option Bytes
  | [] => some place
  | part :: rest =>
    if d.holds place then
      if part.isEmpty || part = "." then walk d place rest
      else if part = ".." then walk d (Path.dir place) rest
      else walk d (Path.join [place, part]) rest
    else none

/-- The absolute path at the end of a path. -/
def find? (d : Directory) (p : Bytes) : Option Bytes :=
  d.walk (if Path.isRooted p then [Path.slash] else d.home) (Path.parts p)

/-- The text of a file. -/
def read? (d : Directory) (p : Bytes) : Option Bytes := do
  let place ← d.find? p
  d.files.text? place

/-- Whether there is anything at a path. -/
def has (d : Directory) (p : Bytes) : Bool :=
  (d.find? p).any fun place => d.holds place || (d.files.text? place).isSome

/-- The absolute path of a file that can be written. -/
def target? (d : Directory) (p : Bytes) : Option Bytes := do
  let place ← d.find? p
  if d.holds place then none else some place

end Directory

end Asm16.Command
