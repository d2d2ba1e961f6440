import Asm16.Machine.Opcode
import Asm16.Machine.OperandCode

/-!
# Instruction words

An instruction is a word and up to two words after it. The low five bits of the first word are the
basic opcode, the next five the B operand and the high six the A operand; if the low five are zero
the B field is a special opcode instead. The word the A operand takes comes before the one the B
operand takes.

`Code.decode?` reads an instruction from the front of a word list, `Code.sweep` reads one after
another, `Code.visit` shows them to a consumer as they are read, and `Code.text` prints one.
-/

namespace Asm16

/-- The word of a basic instruction. Fields keep only the bits they have room for. -/
def basicWord (op b a : UInt16) : UInt16 :=
  let opBits : UInt16 := op &&& 0x1f
  let bBits : UInt16 := b &&& 0x1f
  let aBits : UInt16 := a &&& 0x3f
  opBits ||| (bBits <<< 5) ||| (aBits <<< 10)

/-- The word of a special instruction. -/
def specialWord (op a : UInt16) : UInt16 :=
  let opBits : UInt16 := op &&& 0x1f
  let aBits : UInt16 := a &&& 0x3f
  (opBits <<< 5) ||| (aBits <<< 10)

/-- An instruction word with the words that follow it. -/
structure Code where
  word : UInt16
  immediates : List UInt16 := []
  deriving DecidableEq, Repr

namespace Code

/-- The low five bits : zero for a special instruction. -/
def opField (c : Code) : UInt16 := c.word &&& 0x1f

/-- The B operand, or the opcode of a special instruction. -/
def bField (c : Code) : UInt16 := (c.word >>> 5) &&& 0x1f

/-- The A operand. -/
def aField (c : Code) : OperandCode := (c.word >>> 10) &&& 0x3f

/-- Whether the instruction has one operand. -/
def isSpecial (c : Code) : Bool := c.opField == 0

/-- The number of words that follow the first. -/
def need (c : Code) : Nat :=
  (if c.aField.nextWord then 1 else 0) +
    (if !c.isSpecial && OperandCode.nextWord c.bField then 1 else 0)

/-- The instruction at the front of `ws`, if all its words are there. -/
def decode? : List UInt16 → Option Code
  | [] => none
  | w :: rest =>
    let n := need ⟨w, []⟩
    if n ≤ rest.length then some ⟨w, rest.take n⟩ else none

/-- The instruction at the front of `ws`; one that is cut short has no further words, and the empty
list counts as a zero word. -/
def first (ws : List UInt16) : Code := (decode? ws).getD ⟨ws.headD 0, []⟩

/-- All words of an instruction. -/
def words (c : Code) : List UInt16 := c.word :: c.immediates

/-- Reads one instruction after another, the first at address `addr`, up to the end or to an
instruction that is cut short. -/
def sweep (addr : Nat) : List UInt16 → List (Nat × Code)
  | [] => []
  | w :: rest =>
    match decode? (w :: rest) with
    | none => []
    | some c => (addr, c) :: sweep (addr + c.words.length) (rest.drop c.immediates.length)
termination_by ws => ws.length

/-- Shows instructions to a consumer as `sweep` reads them, one after another, until there are no
more or the consumer is done. `s` is what the consumer knows so far. -/
def visit {σ : Type} (consume : σ → Nat × Code → ForInStep σ) (s : σ) (addr : Nat) :
    List UInt16 → σ
  | [] => s
  | w :: rest =>
    match decode? (w :: rest) with
    | none => s
    | some c =>
      match consume s (addr, c) with
      | .done s => s
      | .yield s => visit consume s (addr + c.words.length) (rest.drop c.immediates.length)
termination_by ws => ws.length

/-- The `n`-th word after the first, zero if there is none. -/
def immediate (c : Code) (n : Nat) : UInt16 := c.immediates.getD n 0

/-- An instruction in assembly language. -/
def text (c : Code) : Bytes :=
  if c.isSpecial then
    SpecialOp.textOf c.bField ++ " " ++ c.aField.format (c.immediate 0) .a
  else
    let n := if c.aField.nextWord then 1 else 0
    BasicOp.textOf c.opField ++ " " ++ OperandCode.format c.bField (c.immediate n) .b ++ ", " ++
      c.aField.format (c.immediate 0) .a

end Code

end Asm16
