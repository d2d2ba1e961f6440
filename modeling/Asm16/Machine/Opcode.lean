import Asm16.Text.Numeral

/-!
# Opcodes

A basic opcode takes two operands and has a nonzero code of five bits. A special opcode takes one
operand; its code stands in the field of the B operand of a word whose low five bits are zero.
Every opcode has a mnemonic of three upper case letters.
-/

namespace Asm16

/-- Opcodes with two operands. -/
inductive BasicOp where
  | set | add | sub | mul | mli | div | dvi | mod | mdi | and | bor | xor | shr | asr | shl
  | ifb | ifc | ife | ifn | ifg | ifa | ifl | ifu | adx | sbx | sti | std
  deriving DecidableEq, Repr

/-- Opcodes with one operand. -/
inductive SpecialOp where
  | jsr | int | iag | ias | rfi | iaq | hwn | hwq | hwi
  deriving DecidableEq, Repr

namespace BasicOp

/-- Every opcode, by code. -/
def all : List BasicOp :=
  [set, add, sub, mul, mli, div, dvi, mod, mdi, and, bor, xor, shr, asr, shl, ifb, ifc, ife, ifn,
    ifg, ifa, ifl, ifu, adx, sbx, sti, std]

/-- The code in the low five bits of an instruction word. -/
def code : BasicOp → UInt16
  | set => 0x01 | add => 0x02 | sub => 0x03 | mul => 0x04 | mli => 0x05 | div => 0x06
  | dvi => 0x07 | mod => 0x08 | mdi => 0x09 | and => 0x0a | bor => 0x0b | xor => 0x0c
  | shr => 0x0d | asr => 0x0e | shl => 0x0f | ifb => 0x10 | ifc => 0x11 | ife => 0x12
  | ifn => 0x13 | ifg => 0x14 | ifa => 0x15 | ifl => 0x16 | ifu => 0x17 | adx => 0x1a
  | sbx => 0x1b | sti => 0x1e | std => 0x1f

/-- The name of an opcode. -/
def mnemonic : BasicOp → Bytes
  | set => "SET" | add => "ADD" | sub => "SUB" | mul => "MUL" | mli => "MLI" | div => "DIV"
  | dvi => "DVI" | mod => "MOD" | mdi => "MDI" | and => "AND" | bor => "BOR" | xor => "XOR"
  | shr => "SHR" | asr => "ASR" | shl => "SHL" | ifb => "IFB" | ifc => "IFC" | ife => "IFE"
  | ifn => "IFN" | ifg => "IFG" | ifa => "IFA" | ifl => "IFL" | ifu => "IFU" | adx => "ADX"
  | sbx => "SBX" | sti => "STI" | std => "STD"

/-- The opcode with a mnemonic, in upper case. -/
def ofMnemonic? (name : Bytes) : Option BasicOp := all.find? (·.mnemonic == name)

/-- The opcode with a code. -/
def ofCode? (w : UInt16) : Option BasicOp := all.find? (·.code == w)

/-- The opcode of a shorthand that implies its B operand. -/
def ofShorthand? (name : Bytes) : Option BasicOp :=
  if name = "JMP" then some set else none

/-- The mnemonic of a code, or the code itself if it is no opcode. -/
def textOf (w : UInt16) : Bytes :=
  match ofCode? w with
  | some op => op.mnemonic
  | none => "BasicOp(0x" ++ Numeral.padded 16 2 w.toNat ++ ")"

end BasicOp

namespace SpecialOp

/-- Every opcode, by code. -/
def all : List SpecialOp := [jsr, int, iag, ias, rfi, iaq, hwn, hwq, hwi]

/-- The code in the B field of an instruction word. -/
def code : SpecialOp → UInt16
  | jsr => 0x01 | int => 0x08 | iag => 0x09 | ias => 0x0a | rfi => 0x0b | iaq => 0x0c
  | hwn => 0x10 | hwq => 0x11 | hwi => 0x12

/-- The name of an opcode. -/
def mnemonic : SpecialOp → Bytes
  | jsr => "JSR" | int => "INT" | iag => "IAG" | ias => "IAS" | rfi => "RFI" | iaq => "IAQ"
  | hwn => "HWN" | hwq => "HWQ" | hwi => "HWI"

/-- The opcode with a mnemonic, in upper case. -/
def ofMnemonic? (name : Bytes) : Option SpecialOp := all.find? (·.mnemonic == name)

/-- The opcode with a code. -/
def ofCode? (w : UInt16) : Option SpecialOp := all.find? (·.code == w)

/-- The mnemonic of a code, or the code itself if it is no opcode. -/
def textOf (w : UInt16) : Bytes :=
  match ofCode? w with
  | some op => op.mnemonic
  | none => "SpecialOp(0x" ++ Numeral.padded 16 2 w.toNat ++ ")"

end SpecialOp

end Asm16
