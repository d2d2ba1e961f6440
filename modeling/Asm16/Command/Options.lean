import Asm16.Project.Settings

/-!
# Command line options

An argument that starts with one or two dashes is an option. A switch stands alone or has a boolean
after an equals sign; any other option has a text, after an equals sign or as the next argument.
Options end at the first argument that is none, and after `--`.
-/

namespace Asm16.Command

/-- What the command is asked to do. -/
structure Options where
  /-- The project file; the default one, if there is any, when empty. -/
  config : Bytes := []
  /-- The image file; named for the source when empty. -/
  output : Bytes := []
  little : Bool := false
  floppy : Bool := false
  /-- Only the words of the program are written. -/
  trim : Bool := false
  labels : Bool := false
  locals : Bool := false
  listing : Bool := false
  verbose : Bool := false
  journal : Bool := false
  /-- Defines made before any source is read, in order. -/
  defines : List (Bytes × Bytes) := []
  deriving DecidableEq, Repr

/-- Why arguments were not accepted. -/
inductive Refusal where
  | help
  | invalid
  deriving DecidableEq, Repr

/-- How an option changes the options. -/
inductive Setter where
  | switch (set : Bool → Options → Options)
  | text (set : Bytes → Options → Options)

/-- The key and the text of a define, separated by the first equals sign. -/
def keyValue (s : Bytes) : Bytes × Bytes := (Bytes.cut? (byte '=') s).getD (s, [])

/-- The options there are. -/
def setters : List (Bytes × Setter) :=
  [("config", .text fun v o => { o with config := v }),
    ("o", .text fun v o => { o with output := v }),
    ("le", .switch fun v o => { o with little := v }),
    ("floppy", .switch fun v o => { o with floppy := v }),
    ("trim", .switch fun v o => { o with trim := v }),
    ("labels", .switch fun v o => { o with labels := v }),
    ("locals", .switch fun v o => { o with locals := v }),
    ("listing", .switch fun v o => { o with listing := v }),
    ("v", .switch fun v o => { o with verbose := v }),
    ("journal", .switch fun v o => { o with journal := v }),
    ("D", .text fun v o => { o with defines := o.defines ++ [keyValue v] })]

/-- The spellings of a boolean. -/
def booleans : List (Bytes × Bool) :=
  [("1", true), ("t", true), ("T", true), ("TRUE", true), ("true", true), ("True", true),
    ("0", false), ("f", false), ("F", false), ("FALSE", false), ("false", false), ("False", false)]

/-- What an argument is. -/
inductive Argument where
  | operand
  /-- The mark after which there are no options. -/
  | stop
  | malformed
  | option (name : Bytes) (value : Option Bytes)
  deriving DecidableEq, Repr

/-- Reads an argument. -/
def Argument.read (s : Bytes) : Argument :=
  let dash := byte '-'
  match s with
  | a :: b :: rest =>
    if a ≠ dash then .operand
    else if b = dash ∧ rest.isEmpty then .stop
    else
      let body := if b = dash then rest else b :: rest
      if body.head? = some dash ∨ body.head? = some (byte '=') then .malformed
      else match Bytes.cut? (byte '=') body with
        | some (name, value) => .option name (some value)
        | none => .option body none
  | _ => .operand

/-- Reads options from the front of the arguments, and returns the arguments after them. -/
def Options.parse (o : Options) : List Bytes → Except Refusal (Options × List Bytes)
  | [] => .ok (o, [])
  | arg :: rest =>
    match Argument.read arg with
    | .operand => .ok (o, arg :: rest)
    | .stop => .ok (o, rest)
    | .malformed => .error .invalid
    | .option name value =>
      match setters.lookup name with
      | none => .error (if name = "help" ∨ name = "h" then .help else .invalid)
      | some (.switch set) =>
        match booleans.lookup (value.getD "true") with
        | some b => (set b o).parse rest
        | none => .error .invalid
      | some (.text set) =>
        match value, rest with
        | some v, rest => (set v o).parse rest
        | none, v :: rest => (set v o).parse rest
        | none, [] => .error .invalid

end Asm16.Command
