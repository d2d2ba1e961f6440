import Asm16.Text.Numeral

/-!
# Operand codes

An operand code says where an instruction finds a value : in a register, in memory at a register or
at the next word, on the stack, or in the code itself. The B field of an instruction word has five
bits for it and the A field six. The sixth bit marks short literals, `-1` to `30`, so these fit the
A field only.

`nextWord` tells which codes take the next word of the program; `format` prints an operand.
-/

namespace Asm16

/-- The general registers, in the order of their index. -/
inductive Register where
  | a | b | c | x | y | z | i | j
  deriving DecidableEq, Repr

namespace Register

/-- Every register, by index. -/
def all : List Register := [a, b, c, x, y, z, i, j]

/-- The number of a register in operand codes. -/
def index : Register → UInt16
  | a => 0 | b => 1 | c => 2 | x => 3 | y => 4 | z => 5 | i => 6 | j => 7

/-- The name of a register in source texts. -/
def name : Register → Bytes
  | a => "A" | b => "B" | c => "C" | x => "X" | y => "Y" | z => "Z" | i => "I" | j => "J"

/-- The register with an index. -/
def ofIndex? (w : UInt16) : Option Register := all.find? (·.index == w)

/-- The name of the register with an index, or the index itself. -/
def textOf (w : UInt16) : Bytes :=
  match ofIndex? w with
  | some r => r.name
  | none => "Register(" ++ Numeral.decimal w.toNat ++ ")"

end Register

/-- Which operand of an instruction : A is read, B is read and written. -/
inductive Side where
  | a | b
  deriving DecidableEq, Repr

/-- The code of an operand. -/
abbrev OperandCode := UInt16

namespace OperandCode

/-- The value in a register. -/
def register (r : Register) : OperandCode := r.index

/-- The memory word at a register. -/
def atRegister (r : Register) : OperandCode := 0x08 + r.index

/-- The memory word at a register plus the next word. -/
def atRegisterPlus (r : Register) : OperandCode := 0x10 + r.index

/-- The top of the stack, pushed by B and popped by A. -/
def pushPop : OperandCode := 0x18

/-- The top of the stack, left there. -/
def peek : OperandCode := 0x19

/-- The stack word the next word counts down to. -/
def pick : OperandCode := 0x1a

/-- The stack pointer. -/
def sp : OperandCode := 0x1b

/-- The program counter. -/
def pc : OperandCode := 0x1c

/-- The excess of arithmetic. -/
def ex : OperandCode := 0x1d

/-- The memory word at the next word. -/
def atNext : OperandCode := 0x1e

/-- The next word itself. -/
def next : OperandCode := 0x1f

/-- The code of the short literal zero. -/
def short : OperandCode := 0x21

/-- The code of a short literal. -/
def ofShort? (n : Int) : Option OperandCode :=
  if 0 ≤ n ∧ n ≤ 30 then some (short + UInt16.ofInt n) else none

/-- The code a register name stands for, in upper case. -/
def ofName? (name : Bytes) : Option OperandCode :=
  if name = "SP" then some sp
  else if name = "PC" then some pc
  else if name = "EX" then some ex
  else (Register.all.find? (·.name == name)).map register

/-- The general register a code names. -/
def general? (v : OperandCode) : Option Register := Register.ofIndex? v

/-- Whether an operand takes the next word of the program. -/
def nextWord (v : OperandCode) : Bool :=
  (0x10 ≤ v && v < 0x18) || v = pick || v = atNext || v = next

/-- Four hexadecimal digits after `0x`. -/
def hexWord (w : UInt16) : Bytes := "0x" ++ Numeral.padded 16 4 w.toNat

/-- An operand in assembly language; `w` is the next word. -/
def format (v : OperandCode) (w : UInt16) (side : Side) : Bytes :=
  if v < 0x08 then Register.textOf v
  else if v < 0x10 then "[" ++ Register.textOf (v - 0x08) ++ "]"
  else if v < 0x18 then "[" ++ Register.textOf (v - 0x10) ++ "+" ++ hexWord w ++ "]"
  else if v = pushPop then (match side with | .a => "POP" | .b => "PUSH")
  else if v = peek then "PEEK"
  else if v = pick then "PICK " ++ hexWord w
  else if v = sp then "SP"
  else if v = pc then "PC"
  else if v = ex then "EX"
  else if v = atNext then "[" ++ hexWord w ++ "]"
  else if v = next then hexWord w
  else Numeral.ofInt ((v.toNat : Int) - short.toNat)

end OperandCode

end Asm16
