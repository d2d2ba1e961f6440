import Asm16.Arith.Value
import Asm16.Define
import Asm16.Source.Files

/-!
# Faults

What can be wrong with a program, from the operand to the whole. An `OperandFault` is about one
operand or value, a `Fault` about a line, and an `Error` about the reading or the assembly of a
program; most errors are a fault at a site. Wording is in the `message` functions only. Line numbers
and columns in messages have commas between groups of three digits.
-/

namespace Asm16

/-- Why an operand has no encoding or no value. -/
inductive OperandFault where
  | missing
  | excess
  | register
  | direction
  | string
  | form
  | empty
  | labelMissing (name : Bytes)
  | evaluation (e : Arith.Error)
  deriving DecidableEq, Repr

/-- The text for a name without a definition, in a line as well as in an operand. -/
def labelMissingMessage (name : Bytes) : Bytes := "label " ++ name ++ " missing"

/-- The text of a fault, without the operand. -/
def OperandFault.message : OperandFault → Bytes
  | missing => "operand missing"
  | excess => "excessive operands"
  | register => "register not addressable"
  | direction => "stack access direction invalid"
  | string => "string in expression"
  | form => "operand form invalid"
  | empty => "empty value"
  | labelMissing name => labelMissingMessage name
  | evaluation e => e.message

/-- What is wrong with a line. -/
inductive Fault where
  /-- The label is defined at `first` already. -/
  | duplicateLabel (name : Bytes) (first : Site)
  | includeMissing (file : Bytes)
  /-- The document is being read already. -/
  | includeCycle (name : Bytes)
  | define (e : DefineError)
  /-- A layout directive would move the address from `offset` back to `target`. -/
  | backtrack (keyword : Bytes) (target offset : Int)
  | directive (keyword params : Bytes) (e : Arith.Error)
  | labelMissing (name : Bytes)
  /-- An operand, quoted from the line. -/
  | operand (text : Bytes) (cause : OperandFault)
  /-- A value that is found wrong only when it is encoded. -/
  | value (cause : OperandFault)
  | overflow (address : Int)
  deriving DecidableEq, Repr

/-- An address in messages about layout. -/
def layoutAddress (n : Int) : Bytes := "0x" ++ Numeral.paddedInt 16 4 n

/-- The text of a fault, without its place. -/
def Fault.message : Fault → Bytes
  | duplicateLabel name first =>
    "label " ++ name ++ " duplicated, first defined at " ++ first.document ++ ":" ++
      Numeral.groupedInt first.number
  | includeMissing file => "include '" ++ file ++ "' not found"
  | includeCycle name => "include '" ++ name ++ "' is already being read"
  | define e => e.message
  | backtrack keyword target offset =>
    keyword ++ " target " ++ layoutAddress target ++ " is behind " ++ layoutAddress offset
  | directive keyword params e => keyword ++ " '" ++ params ++ "' " ++ e.message
  | labelMissing name => labelMissingMessage name
  | operand text cause => "operand '" ++ text ++ "' " ++ cause.message
  | value cause => cause.message
  | overflow address => "address 0x" ++ Numeral.paddedInt 16 0 address ++ " is outside the image"

/-- Text that no form of the grammar matches. -/
structure LexError where
  document : Bytes
  number : Nat
  /-- The position of its first byte in the line. -/
  column : Nat
  text : Bytes
  deriving DecidableEq, Repr

/-- The text of an error, with its place; columns count from one there. -/
def LexError.message (e : LexError) : Bytes :=
  e.document ++ ":" ++ Numeral.grouped e.number ++ ":" ++ Numeral.grouped (e.column + 1) ++ " '" ++
    e.text ++ "' not recognised"

/-- Why a program could not be read or assembled. -/
inductive Error where
  | atLine (site : Site) (fault : Fault)
  /-- Lines that were not recognised, all of them. -/
  | lexical (errors : List LexError)
  /-- A define made before any source is read. -/
  | predefine (e : DefineError)
  | noSource
  | lineTooLong
  | file (e : FileError)
  deriving DecidableEq, Repr

/-- The text of an error, with its place if it has one. -/
def Error.message : Error → Bytes
  | atLine site fault =>
    site.document ++ ":" ++ Numeral.groupedInt site.number ++ " '" ++ site.raw ++ "' " ++
      fault.message
  | lexical errors => Bytes.join [byte '\n'] (errors.map LexError.message)
  | predefine e => e.message
  | noSource => "no source provider"
  | lineTooLong => "bufio.Scanner: token too long"
  | file e => e.message

end Asm16
