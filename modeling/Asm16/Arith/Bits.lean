/-!
# Bits of integers

Bitwise operations on unbounded integers in two's complement : a negative number has ones all the
way to the left. With `-(b + 1)` as the complement of `b`, each operation reduces to one on natural
numbers.
-/

namespace Asm16.Arith

/-- The bits of `a` that are not bits of `b`. -/
def withoutBits (a b : Nat) : Nat := a - (a &&& b)

/-- Bitwise conjunction. -/
def bitAnd : Int → Int → Int
  | .ofNat a, .ofNat b => .ofNat (a &&& b)
  | .ofNat a, .negSucc b => .ofNat (withoutBits a b)
  | .negSucc a, .ofNat b => .ofNat (withoutBits b a)
  | .negSucc a, .negSucc b => .negSucc (a ||| b)

/-- Bitwise disjunction. -/
def bitOr : Int → Int → Int
  | .ofNat a, .ofNat b => .ofNat (a ||| b)
  | .ofNat a, .negSucc b => .negSucc (withoutBits b a)
  | .negSucc a, .ofNat b => .negSucc (withoutBits a b)
  | .negSucc a, .negSucc b => .negSucc (a &&& b)

end Asm16.Arith
