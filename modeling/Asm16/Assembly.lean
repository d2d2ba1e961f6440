import Asm16.Encoding
import Asm16.Reading

/-!
# Assemblies

An `Assembler` reads a program from a source. The program is read whole, laid out, and its label
uses get the addresses of their definitions; the result is an `Assembly`. A program with text that
is not recognised stays as it was read and cannot be encoded : it is handed back together with the
error that lists the text (`Assembly.lexicalError?`).

`Assembly.assemble` writes the program into an image.
-/

namespace Asm16

/-! ## Resolution -/

/-- Gives a label use the address `find` has for its full name. -/
def Token.resolve (find : Bytes → Option Int) (t : Token) : Token :=
  if t.kind = .labelUse then { t with value := (find t.symbol).elim t.value (some <| .resolved ·) }
  else t

/-- Gives the label uses of an operand the addresses `find` has for them. -/
def Operand.resolve (find : Bytes → Option Int) (o : Operand) : Operand :=
  { o with expr := o.expr.map (·.map (Token.resolve find)) }

/-- Gives the label uses of an instruction the addresses `find` has for them. -/
def Instruction.resolve (find : Bytes → Option Int) : Instruction → Instruction
  | basic op b a => basic op (b.resolve find) (a.resolve find)
  | special op a => special op (a.resolve find)

/-- Gives the label uses of a line, and those in its instruction, the addresses `find` has. -/
def Line.resolve (find : Bytes → Option Int) (l : Line) : Line :=
  { l with tokens := l.tokens.map (Token.resolve find), code := l.code.map (·.resolve find) }

/-! ## Assemblies -/

/-- A program that was read. -/
structure Assembly where
  tree : DocumentTree
  /-- All lines, those of included documents in place. -/
  lines : List Line
  defines : Defines
  symbols : SymbolTable
  /-- The text that was not recognised while it was read. -/
  lexErrors : List LexError

namespace Assembly

/-- The error of a program with text that is not recognised. -/
def lexicalError? (a : Assembly) : Option Error :=
  if a.lexErrors.isEmpty then none else some (.lexical a.lexErrors)

/-- The first address after the program. -/
def size (a : Assembly) : Int := a.lines.foldl (fun n l => max n l.stop) 0

/-- The line whose words include an address. -/
def lineAt? (a : Assembly) (addr : Int) : Option Line :=
  a.lines.find? fun l => l.offset ≤ addr && addr < l.stop

/-- The labels with their addresses, in the order of definition. -/
def labels (a : Assembly) : List (Bytes × Int) := a.symbols.labels.map fun l => (l.name, l.offset)

/-- Writes lines into an image, up to the first one that fails. -/
def writeLines (img : Image) : List Line → Image × Option Error
  | [] => (img, none)
  | l :: rest =>
    match l.encode with
    | .error fault => (img, some (.atLine l.site fault))
    | .ok block =>
      match block.place img l.offset with
      | (img, none) => writeLines img rest
      | (img, some addr) => (img, some (.atLine l.site (.overflow addr)))

/-- Writes the program into an image, which is cleared before; after an error the image holds what
was written up to it. A program with text that is not recognised leaves the image alone. -/
def assemble (a : Assembly) (img : Image) : Image × Option Error :=
  match a.lexicalError? with
  | some e => (img, some e)
  | none => writeLines img.cleared a.lines

/-- Lays the program out and resolves its label uses. -/
def resolved (a : Assembly) : Logged Error Assembly := do
  let lines ← layout 0 a.lines
  let offsets := (lines.map (·.offset)).toArray
  match (a.symbols.locate fun i => offsets.getD i 0).resolve with
  | (_, some u) => .fail (.atLine u.site (.labelMissing u.name))
  | (symbols, none) =>
    pure { a with lines := lines.map (Line.resolve symbols.offset?), symbols }

/-- Lays out and resolves a program that was read. One with text that is not recognised stays as it
is, and comes with its error. -/
def completed (a : Assembly) : Logged Error (Assembly × Option Error) :=
  match a.lexicalError? with
  | some e => pure (a, some e)
  | none => (·, none) <$> a.resolved

end Assembly

/-! ## Assemblers -/

/-- How programs are read. -/
structure Assembler where
  /-- Where included documents come from. -/
  source : Option Source := none
  /-- Label names that differ only in letter case are the same. -/
  caseFold : Bool := false
  /-- The number of sweeps defines may take on a line; the default if not positive. -/
  defineLimit : Int := 0
  /-- Defines made before any source is read. -/
  predefines : List (Bytes × Bytes) := []
  deriving DecidableEq, Repr

namespace Assembler

/-- Makes a define before any source is read, in place of an earlier one with its key. -/
def predefine (a : Assembler) (key value : Bytes) : Assembler :=
  { a with predefines := a.predefines.filter (·.1 != key) ++ [(key, value)] }

/-- Adds defines to a table. -/
def addDefines (ds : Defines) : List (Bytes × Bytes) → Except DefineError Defines
  | [] => .ok ds
  | (key, value) :: rest => do
    let d ← Define.make key value
    let ds ← ds.add d
    addDefines ds rest

/-- The defines a program starts with, in the order of their keys. -/
def initialDefines (a : Assembler) : Except Error Defines :=
  match addDefines ⟨a.defineLimit, []⟩ (a.predefines.mergeSort fun x y => Bytes.le x.1 y.1) with
  | .ok ds => .ok ds
  | .error e => .error (.predefine e)

/-- The progress a program starts with. -/
def start (a : Assembler) (defines : Defines) : Progress :=
  { defines, symbols := .empty a.caseFold }

/-- Reads a program without laying it out. -/
def readProgram (a : Assembler) (name text : Bytes) (defines : Defines) :
    Logged Error Assembly := do
  let (tree, extent) ←
    readDocument a.source (fileCount a.source) ⟨name, []⟩ text (a.start defines)
  let ⟨defines, symbols, _, _, lexErrors⟩ := extent.progress
  pure { tree, lines := extent.lines, defines, symbols, lexErrors }

/-- Reads a program, lays it out and resolves its label uses; returns it, and its error if text of
it is not recognised. -/
def parseContents (a : Assembler) (name : Bytes) (contents : Except FileError Bytes) :
    Logged Error (Assembly × Option Error) := do
  let defines ← .lift a.initialDefines
  let text ← .lift (contents.mapError .file)
  let program ← a.readProgram name text defines
  program.completed

/-- Reads the program `text` under the name `name`. -/
def parse (a : Assembler) (name text : Bytes) : Logged Error (Assembly × Option Error) :=
  a.parseContents (Path.clean name) (.ok text)

/-- Reads the program in a document of the source. -/
def load (a : Assembler) (name : Bytes) : Logged Error (Assembly × Option Error) :=
  match a.source with
  | none => .fail .noSource
  | some source =>
    let name := Path.clean name
    match source.files.entry? name with
    | none => .fail (.file (.missing name))
    | some .directory => a.parseContents name (.error (.directory name))
    | some (.file text) => a.parseContents name (.ok text)

end Assembler

end Asm16
