import Asm16.Arith.Stream

/-!
# Arithmetic trees

The form of an arithmetic text. Parentheses are kept, since they decide where a tree starts and
whether comparisons stand in a chain. Calls, the empty pair of parentheses and comparisons have a
form but no value.
-/

namespace Asm16.Arith

/-- Binary operators. -/
inductive BinaryOp where
  | less | greater | or | xor | and | shiftLeft | shiftRight | add | sub | mul | div | floorDiv
  | mod
  deriving DecidableEq, Repr

namespace BinaryOp

/-- How tightly an operator binds. -/
def level : BinaryOp → Nat
  | less | greater => 3
  | or => 4
  | xor => 5
  | and => 6
  | shiftLeft | shiftRight => 7
  | add | sub => 8
  | mul | div | floorDiv | mod => 9

/-- The loosest level. -/
def loosest : Nat := 3

/-- The symbol of an operator. -/
def symbol : BinaryOp → Symbol
  | less => .less
  | greater => .greater
  | or => .pipe
  | xor => .caret
  | and => .amp
  | shiftLeft => .shiftLeft
  | shiftRight => .shiftRight
  | add => .plus
  | sub => .minus
  | mul => .star
  | div => .slash
  | floorDiv => .slashSlash
  | mod => .percent

/-- Whether an operator compares its operands. -/
def isComparison : BinaryOp → Bool
  | less | greater => true
  | _ => false

/-- The operator a symbol is between two operands. -/
def ofSymbol? : Symbol → Option BinaryOp
  | .less => some less
  | .greater => some greater
  | .pipe => some or
  | .caret => some xor
  | .amp => some and
  | .shiftLeft => some shiftLeft
  | .shiftRight => some shiftRight
  | .plus => some add
  | .minus => some sub
  | .star => some mul
  | .slash => some div
  | .slashSlash => some floorDiv
  | .percent => some mod
  | _ => none

end BinaryOp

/-- Unary operators. -/
inductive UnaryOp where
  | plus | minus | complement
  deriving DecidableEq, Repr

/-- The operator a symbol is before an operand. -/
def UnaryOp.ofSymbol? : Symbol → Option UnaryOp
  | .plus => some plus
  | .minus => some minus
  | .tilde => some complement
  | _ => none

/-- The form of an arithmetic text. Columns say where the leftmost symbol stands. -/
inductive Tree where
  | int (column n : Nat)
  | empty (column : Nat)
  | paren (column : Nat) (x : Tree)
  | unary (column : Nat) (op : UnaryOp) (x : Tree)
  | binary (op : BinaryOp) (x y : Tree)
  | call (f : Tree)
  deriving DecidableEq, Repr

namespace Tree

/-- The column of the leftmost symbol. -/
def start : Tree → Nat
  | int column _ | empty column | paren column _ | unary column _ _ => column
  | binary _ x _ => x.start
  | call f => f.start

/-- The comparison a tree is, if it is one. -/
def comparison? : Tree → Option BinaryOp
  | binary op _ _ => if op.isComparison then some op else none
  | _ => none

end Tree

end Asm16.Arith
