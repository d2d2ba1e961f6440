import Asm16.Command.Directory
import Asm16.Command.Options
import Asm16.Listing
import Asm16.Pairs

/-!
# Running the command

The command reads a project file, assembles one source document and writes an image file. `build`
does the work up to the contents of that file; `run` is the whole command on a `Directory`.
-/

namespace Asm16.Command

/-- The name of the project file that is read when none is named. -/
def projectFile : Bytes := "devasm.cue"

/-- Ends the command with an error record. -/
def refuse {α : Type} (message : Bytes) (values : List (Bytes × Value)) : Logged Unit α :=
  ⟨[⟨.error, message, values⟩], .error ()⟩

namespace Options

/-- The settings of the project file. -/
def projectSettings? (o : Options) (d : Directory) : Option Settings :=
  if o.config.isEmpty ∧ !d.has projectFile then some {}
  else (d.read? (if o.config.isEmpty then projectFile else o.config)).bind Settings.parse?

/-- The settings with what the options set in their place. -/
def settings? (o : Options) (d : Directory) : Option Settings :=
  (o.projectSettings? d).map fun s =>
    { s with
      byteOrder := if o.little then .little else s.byteOrder
      imageWords := if o.floppy then floppyWords else s.imageWords }

/-- The image file : the one that is named, or the source with another ending. -/
def imageFile (o : Options) (source : Bytes) : Bytes :=
  if o.output.isEmpty then source.take (source.length - (Path.ext source).length) ++ ".bin"
  else o.output

/-- The contents of the image file. -/
def contents (o : Options) (s : Settings) (a : Assembly) (img : Image) : Bytes :=
  (if o.trim then img.take (min a.size.toNat img.size) else img).save s.byteOrder

/-- Labels that are listed. -/
def lists (o : Options) (label : Bytes × Int) : Bool := o.locals || !label.1.contains (byte '.')

/-- The addresses of labels, one a line. -/
def labelLines (o : Options) (a : Assembly) : Bytes :=
  (Pairs.take o.lists 0 a.labels).1.flatMap fun (name, offset) =>
    Numeral.paddedInt 16 4 offset ++ " " ++ name ++ "\n"

/-- What the command prints. -/
def report (o : Options) (a : Assembly) (img : Image) : Bytes :=
  (if o.labels then o.labelLines a else []) ++ (if o.listing then a.listing img else [])

end Options

/-- The assembler of a project : defines from options come after those from settings. -/
def assembler (s : Settings) (source : Source) (defines : List (Bytes × Bytes)) : Assembler :=
  (Pairs.chain [s.defines, defines]).foldl (fun a (key, value) => a.predefine key value)
    { source := some source, caseFold := !s.labelsCaseSensitive, defineLimit := s.defineLimit }

/-- Reads the program of a source document. -/
def loadProgram (a : Assembler) (name : Bytes) : Logged Unit Assembly :=
  let r := a.load name
  match r.result with
  | .error e => do
    .records r.log
    refuse "assemble" [("error", .text e.message)]
  | .ok (program, none) => do
    .records r.log
    pure program
  | .ok (program, some _) => do
    .records r.log
    .records (program.lexErrors.map fun e => ⟨.error, "lex", [("error", .text e.message)]⟩)
    .fail ()

/-- What a run makes. -/
structure Product where
  /-- The image file, as a path. -/
  file : Bytes
  contents : Bytes
  /-- What is printed once the file is written. -/
  report : Bytes
  deriving DecidableEq, Repr

/-- Assembles a source document. -/
def buildSource (d : Directory) (o : Options) (source : Bytes) : Logged Unit Product := do
  let some settings := o.settings? d
    | refuse "config" [("file", .text o.config)]
  let root := d.absolute settings.workspaceRoot
  let some project := inside? root (d.absolute settings.projectRoot)
    | refuse "project" [("path", .text settings.projectRoot), ("workspace", .text root)]
  let some name := inside? root (d.absolute source)
    | refuse "source" [("path", .text source), ("workspace", .text root)]
  let program ← loadProgram (assembler settings ⟨d.filesIn root, project, "."⟩ o.defines) name
  match program.assemble (.zeros settings.imageWords) with
  | (_, some e) => refuse "assemble" [("error", .text e.message)]
  | (img, none) =>
    .record ⟨.info, "assembled", [("source", .text name), ("words", .int program.size)]⟩
    pure ⟨o.imageFile source, o.contents settings program img, o.report program img⟩

/-- Assembles the one source document that is named. -/
def build (d : Directory) (o : Options) (operands : List Bytes) : Logged Unit Product :=
  match operands with
  | [source] => buildSource d o source
  | _ => refuse "usage" [("args", .text (Bytes.join " " operands))]

/-- The error record for an image file that cannot be written. -/
def outputRecord (file : Bytes) : Record := ⟨.error, "output", [("file", .text file)]⟩

/-- The records a run shows. -/
def Options.shown (o : Options) (log : List Record) : List Record :=
  log.filter fun r => (if o.verbose then Level.debug else Level.info) ≤ r.level

/-- What a run leaves. -/
structure Outcome where
  status : Nat
  log : List Record := []
  printed : Bytes := []
  /-- The file that was written, by absolute path. -/
  written : Option (Bytes × Bytes) := none
  deriving DecidableEq, Repr

/-- The status of a command that does not accept its arguments. -/
def Refusal.status : Refusal → Nat
  | help => 0
  | invalid => 2

/-- Runs the command on a directory. -/
def run (d : Directory) (args : List Bytes) : Outcome :=
  match Options.parse {} args with
  | .error refusal => { status := refusal.status }
  | .ok (o, operands) =>
    let r := build d o operands
    match r.result with
    | .error () => { status := 1, log := o.shown r.log }
    | .ok product =>
      match d.target? product.file with
      | none => { status := 1, log := o.shown (r.log ++ [outputRecord product.file]) }
      | some place =>
        { status := 0, log := o.shown r.log, printed := product.report,
          written := some (place, product.contents) }

end Asm16.Command
