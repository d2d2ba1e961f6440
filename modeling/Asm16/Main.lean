import Asm16.Command.Run

/-!
# The command line

`main` reads the files of the workspace, builds the image and writes it. Records go to standard
error, one a line.
-/

namespace Asm16.Command

/-- The text of a byte string, for paths. -/
def pathText (s : Bytes) : String := (String.fromUTF8? ⟨s.toArray⟩).getD ""

/-- The contents of a file, if it can be read. -/
def readFile? (path : String) : IO (Option Bytes) := do
  try
    return some (← IO.FS.readBinFile path).toList
  catch _ => return none

/-- The files in a directory and below it, by path. What cannot be read is left out, and links to
directories are not followed. -/
partial def readFiles (path : String) : IO Files := do
  let mut files : Files := []
  let here ← IO.currentDir
  let entries ← try (here / path).readDir catch _ => pure #[]
  for entry in entries do
    let name := entry.path.toString
    let metadata? ← try some <$> entry.path.symlinkMetadata catch _ => pure none
    if metadata?.any (·.type matches .dir) then
      files := files ++ (← readFiles name)
    else if let some text ← readFile? name then
      files := ((name : Bytes), text) :: files
  return files

/-- The project file and the files of the workspace it names. -/
def readDirectory (o : Options) : IO Directory := do
  let here ← IO.currentDir
  let home : Directory := ⟨here.toString, []⟩
  let config := home.absolute (if o.config.isEmpty then projectFile else o.config)
  let found := (← readFile? (pathText config)).toList.map fun text => (config, text)
  match o.settings? { home with files := found } with
  | none => return { home with files := found }
  | some settings =>
    let files ← readFiles (pathText (home.absolute settings.workspaceRoot))
    return { home with files := found ++ files }

/-- Writes bytes to a stream. -/
def put (stream : IO.FS.Stream) (s : Bytes) : IO Unit := stream.write ⟨s.toArray⟩

/-- Writes records to standard error. -/
def putLog (log : List Record) : IO Unit := do
  let stream ← IO.getStderr
  for record in log do
    put stream record.line

end Asm16.Command

open Asm16 Asm16.Command in
/-- Runs the command. -/
def main (args : List String) : IO UInt32 := do
  match Options.parse {} (args.map Bytes.ofString) with
  | .error refusal =>
    IO.eprintln "usage: [options] source"
    return refusal.status.toUInt32
  | .ok (o, operands) =>
    let r := build (← readDirectory o) o operands
    putLog (o.shown r.log)
    match r.result with
    | .error () => return 1
    | .ok product =>
      try
        IO.FS.writeBinFile (pathText product.file) ⟨product.contents.toArray⟩
        put (← IO.getStdout) product.report
        return 0
      catch _ =>
        putLog [outputRecord product.file]
        return 1
