import Asm16.Log
import Asm16.Operand

/-!
# Layout

Every line gets an address and a size, in order : a line starts where the one before it ends. An
instruction line has the words of its instruction, a data line those of its values, `origin` and
`align` go forward to an address and `reserve` leaves a number of words. Addresses are 64 bit
integers and wrap around.
-/

namespace Asm16

/-- A 64 bit address. -/
def wrap (n : Int) : Int := n.bmod 0x10000000000000000

namespace Line

/-- Where a line ends. -/
def stop (l : Line) : Int := wrap (l.offset + l.size)

end Line

/-- The token runs of the values of a data line; `current` is the run of an open one. An empty value
has no encoding. -/
def dataRuns (current : Option (List Token)) : List Token → Option (List (List Token))
  | [] => some []
  | t :: rest =>
    match t.kind with
    | .dataStart => dataRuns (some []) rest
    | .dataEnd =>
      match current with
      | none | some [] => none
      | some run => (dataRuns none rest).map (run :: ·)
    | _ => dataRuns (current.map (· ++ [t])) rest

/-- The values of a data line. -/
def Line.dataValues (l : Line) : Except Fault (List (List Token)) :=
  match dataRuns none l.significant with
  | some runs => .ok runs
  | none => .error (.operand (l.directive.elim [] (·.params)) .empty)

/-- The contents of a value that is a lone string. -/
def loneString? : List Token → Option Bytes
  | [t] => if t.kind = .string then some t.contents else none
  | _ => none

/-- The number of words of a data value : the characters of a lone string, else one. -/
def dataSize (run : List Token) : Nat :=
  match loneString? run with
  | some contents => (Utf8.chars contents).length
  | none => 1

/-- The number of words of some data values. -/
def dataSizes : List (List Token) → Nat
  | [] => 0
  | run :: rest => dataSize run + dataSizes rest

/-- The value of a layout directive's parameters. -/
def Directive.evaluate (d : Directive) : Except Fault Int :=
  match Arith.evaluate d.params with
  | .ok n => .ok n
  | .error e => .error (.directive d.keyword d.params e)

/-- The size of a line at address `offset`, and its instruction if it has one. -/
def Line.measure (l : Line) (offset : Int) : Except Fault (Int × Option Instruction) :=
  match l.directive with
  | none => do
    let code ← Instruction.parse l.text l.significant
    .ok (code.elim 0 fun c => (c.size : Int), code)
  | some d =>
    match d.kind with
    | .origin | .align => do
      let target ← d.evaluate
      if target < offset then .error (.backtrack d.keyword target offset)
      else .ok (wrap (target - offset), none)
    | .reserve => do
      let count ← d.evaluate
      if count < 0 then .error (.backtrack d.keyword (wrap (offset + count)) offset)
      else .ok (count, none)
    | .data => do
      let runs ← l.dataValues
      .ok ((dataSizes runs : Int), none)
    | .inclusion | .define => .ok (0, none)

/-- Gives every line its address and its size, the first at address `offset`. -/
def layout (offset : Int) : List Line → Logged Error (List Line)
  | [] => pure []
  | l :: rest => do
    let (size, code) ← match l.measure offset with
      | .ok r => pure r
      | .error fault => .fail (.atLine l.site fault)
    .record ⟨.debug, "sized", [("line", .text l.site.text), ("offset", .int offset),
      ("size", .int size), ("text", .text l.text)]⟩
    let placed := { l with offset, size, code }
    (placed :: ·) <$> layout placed.stop rest

end Asm16
