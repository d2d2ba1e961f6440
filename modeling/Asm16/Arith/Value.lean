import Asm16.Arith.Bits
import Asm16.Arith.Parser
import Asm16.Text.Blank

/-!
# The value of an arithmetic text

`evaluate` is exact integer arithmetic : literals below `2 ^ 63`, signs, complement, and the binary
operators except comparisons and exclusive or. Intermediate values are unbounded; the result has to
be a signed 64 bit integer. Division `//` rounds down and `%` takes the sign of the divisor; `/`
truncates toward zero, and is made from these two (`divide`).

`normalize` first turns literals that begin with a zero, in any notation, into plain decimals.
-/

namespace Asm16.Arith

/-- Turns words that begin with a zero and are numerals into decimals; `inside` tells that the byte
before `s` belongs to a word. -/
def normalizeFrom (inside : Bool) (s : Bytes) : Bytes :=
  match s with
  | [] => []
  | c :: rest =>
    if !inside && c = byte '0' then
      let word := c :: rest.takeWhile isWordByte
      (match Numeral.read word with
        | .ok n => Numeral.ofInt n
        | .error _ => word) ++ normalizeFrom true (rest.dropWhile isWordByte)
    else c :: normalizeFrom (isWordByte c) rest
termination_by s.length
decreasing_by
  · have := (List.dropWhile_sublist isWordByte (l := rest)).length_le
    simp only [List.length_cons]
    omega
  · simp

/-- Writes the literals that begin with a zero as plain decimals. -/
def normalize (s : Bytes) : Bytes := normalizeFrom false s

/-- Why a tree has no value. -/
inductive ValueError where
  | notArithmetic (column : Nat)
  | divisionByZero
  | moduloByZero
  | shiftRange (count : Int)
  | negativeShift (count : Int)
  | largeShift (count : Int)
  deriving DecidableEq, Repr

/-- Where a column stands, in messages. -/
def position (column : Nat) : Bytes := "expr:1:" ++ Numeral.decimal column ++ ": "

namespace ValueError

/-- The text of the cause. -/
def message : ValueError → Bytes
  | notArithmetic column => position column ++ "not integer arithmetic"
  | divisionByZero => "floored division by zero"
  | moduloByZero => "integer modulo by zero"
  | shiftRange n => Numeral.ofInt n ++ " out of range"
  | negativeShift n => "negative shift count: " ++ Numeral.ofInt n
  | largeShift n => "shift count too large: " ++ Numeral.ofInt n

end ValueError

/-- The text of a flaw, with its place. -/
def FormError.message (e : FormError) : Bytes := position e.column ++ e.flaw.message

/-- A shift count : within 32 bits, and not negative. -/
def shiftCount (y : Int) : Except ValueError Nat :=
  if y < -0x80000000 ∨ 0x80000000 ≤ y then .error (.shiftRange y)
  else if y < 0 then .error (.negativeShift y)
  else .ok y.toNat

/-- The quotient, rounded down. -/
def flooredQuotient (x y : Int) : Except ValueError Int :=
  if y = 0 then .error .divisionByZero else .ok (x.fdiv y)

/-- The remainder of the quotient that is rounded down. -/
def flooredRemainder (x y : Int) : Except ValueError Int :=
  if y = 0 then .error .moduloByZero else .ok (x.fmod y)

/-- The quotient, truncated toward zero : one more than the one that is rounded down if there is a
remainder and the signs differ. -/
def divide (x y : Int) : Except ValueError Int := do
  let q ← flooredQuotient x y
  let r ← flooredRemainder x y
  .ok (if r.sign ≠ 0 ∧ x.sign ≠ y.sign then q + 1 else q)

/-- What an operator computes; comparisons and exclusive or are no arithmetic. -/
def BinaryOp.compute? : BinaryOp → Option (Int → Int → Except ValueError Int)
  | .add => some fun x y => .ok (x + y)
  | .sub => some fun x y => .ok (x - y)
  | .mul => some fun x y => .ok (x * y)
  | .div => some divide
  | .floorDiv => some flooredQuotient
  | .mod => some flooredRemainder
  | .and => some fun x y => .ok (bitAnd x y)
  | .or => some fun x y => .ok (bitOr x y)
  | .shiftLeft => some fun x y => do
    let n ← shiftCount y
    if 512 ≤ n then .error (.largeShift y) else .ok (x <<< n)
  | .shiftRight => some fun x y => do
    let n ← shiftCount y
    .ok (x >>> n)
  | .xor | .less | .greater => none

/-- What a unary operator computes. -/
def UnaryOp.compute (op : UnaryOp) (x : Int) : Int :=
  match op with
  | .plus => x
  | .minus => -x
  | .complement => -x - 1

/-- The value of a tree, operands from the left. -/
def Tree.value : Tree → Except ValueError Int
  | .int column n => if n < Numeral.intLimit then .ok n else .error (.notArithmetic column)
  | .empty column => .error (.notArithmetic column)
  | .paren _ x => x.value
  | .unary _ op x => do
    let n ← x.value
    .ok (op.compute n)
  | .binary op x y =>
    match op.compute? with
    | none => .error (.notArithmetic x.start)
    | some f => do
      let a ← x.value
      let b ← y.value
      f a b
  | .call f => .error (.notArithmetic f.start)

/-- Why a text was refused. -/
inductive Cause where
  | form (e : FormError)
  | value (e : ValueError)
  deriving DecidableEq, Repr

/-- The text of a cause. -/
def Cause.message : Cause → Bytes
  | form e => e.message
  | value e => e.message

/-- A text that has no value, with the cause if there is more to say than that. -/
structure Error where
  text : Bytes
  cause : Option Cause
  deriving DecidableEq, Repr

/-- The text of a refusal, with its cause if there is one. -/
def Error.message (e : Error) : Bytes :=
  let refusal : Bytes := "'" ++ e.text ++ "' is not a valid expression"
  match e.cause with
  | none => refusal
  | some c => refusal ++ ": " ++ c.message

/-- The bytes of a normalised text. -/
def isArithmeticByte (c : UInt8) : Bool :=
  isDigit c || (Bytes.ofString "+-*/%&|^~<>() \t").contains c

/-- The value of an arithmetic text. -/
def evaluate (s : Bytes) : Except Error Int :=
  let norm := trim (normalize s)
  if norm.isEmpty || !norm.all isArithmeticByte then .error ⟨s, none⟩
  else match Tree.read norm with
    | .error e => .error ⟨s, some (.form e)⟩
    | .ok tree =>
      match tree.value with
      | .error e => .error ⟨s, some (.value e)⟩
      | .ok v => if Numeral.FitsInt v then .ok v else .error ⟨s, none⟩

end Asm16.Arith
