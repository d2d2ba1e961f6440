import Asm16.Text.Bytes

/-!
# Numerals

Writing : digits in a base, padded with zeros (`padded`, `paddedInt`), or in groups of three
(`grouped`, `groupedInt`).

Reading : `read` takes the three notations of a number literal, decimal, `0x` hexadecimal and `0b`
binary. Digits are read from the left and the first problem decides, a byte that is no digit of the
base or a value that leaves unsigned 64 bits; what is left has to be a signed 64 bit integer.
-/

namespace Asm16.Numeral

/-- The digits of `n` in a base up to sixteen, lower case. -/
def digits (base n : Nat) : Bytes := (Nat.toDigits base n).map byte

/-- A decimal numeral. -/
def decimal (n : Nat) : Bytes := digits 10 n

/-- A signed decimal numeral. -/
def ofInt (n : Int) : Bytes :=
  if n < 0 then byte '-' :: decimal n.natAbs else decimal n.natAbs

/-- Zeros in front up to `width` digits. -/
def padded (base width n : Nat) : Bytes :=
  let ds := digits base n
  List.replicate (width - ds.length) (byte '0') ++ ds

/-- A sign, if the number is negative, and the magnitude padded to `width` bytes in all. -/
def paddedInt (base width : Nat) (n : Int) : Bytes :=
  if n < 0 then byte '-' :: padded base (width - 1) n.natAbs else padded base width n.natAbs

/-- Decimal digits with a comma before every third from the right. -/
def grouped (n : Nat) : Bytes :=
  (groups (decimal n).reverse).reverse
where
  groups : Bytes → Bytes
    | a :: b :: c :: d :: rest => a :: b :: c :: byte ',' :: groups (d :: rest)
    | ds => ds

/-- A signed decimal numeral in groups of three digits. -/
def groupedInt (n : Int) : Bytes :=
  if n < 0 then byte '-' :: grouped n.natAbs else grouped n.natAbs

/-- What is wrong with a numeral. -/
inductive Reason where
  /-- A byte that is no digit of the base, or no digit at all. -/
  | invalid
  /-- The value does not fit. -/
  | range
  deriving DecidableEq, Repr

/-- A numeral that was not accepted : its digits, without the notation's mark. -/
structure Error where
  digits : Bytes
  reason : Reason
  deriving DecidableEq, Repr

/-- The value of a digit, letters of either case counting from ten. -/
def digit? (base : Nat) (c : UInt8) : Option Nat :=
  let d :=
    if isDigit c then c.toNat - 0x30
    else if isLower c then c.toNat - 0x61 + 10
    else if isUpper c then c.toNat - 0x41 + 10
    else base
  if d < base then some d else none

/-- Reads digits into an unsigned 64 bit value, after the value `acc` read so far. -/
def readDigits (base : Nat) : Nat → Bytes → Except Reason Nat
  | acc, [] => .ok acc
  | acc, c :: rest =>
    match digit? base c with
    | none => .error .invalid
    | some d =>
      let n := acc * base + d
      if 0x10000000000000000 ≤ n then .error .range else readDigits base n rest

/-- The least signed 64 bit integer above the range. -/
def intLimit : Nat := 0x8000000000000000

/-- A signed 64 bit integer. -/
def FitsInt (n : Int) : Prop := -(intLimit : Int) ≤ n ∧ n < intLimit

instance (n : Int) : Decidable (FitsInt n) := inferInstanceAs (Decidable (_ ∧ _))

/-- Reads at least one digit. -/
def readUnsigned (base : Nat) (s : Bytes) : Except Reason Nat :=
  if s.isEmpty then .error .invalid else readDigits base 0 s

/-- Reads a signed integer in a base. -/
def readSigned (base : Nat) (s : Bytes) : Except Reason Int := do
  let n : Int ← match s with
    | c :: rest =>
      if c = byte '-' then (fun n : Nat => -(n : Int)) <$> readUnsigned base rest
      else if c = byte '+' then Int.ofNat <$> readUnsigned base rest
      else Int.ofNat <$> readUnsigned base s
    | [] => .error .invalid
  if FitsInt n then .ok n else .error .range

/-- The base and the digits of a literal. A mark counts only if something follows it. -/
def split (s : Bytes) : Nat × Bytes :=
  match s with
  | zero :: mark :: d :: rest =>
    if zero = byte '0' then
      if mark = byte 'x' ∨ mark = byte 'X' then (16, d :: rest)
      else if mark = byte 'b' ∨ mark = byte 'B' then (2, d :: rest)
      else (10, s)
    else (10, s)
  | _ => (10, s)

end Asm16.Numeral

namespace Asm16

/-- Reads a decimal, `0x` hexadecimal or `0b` binary literal. -/
def Numeral.read (s : Bytes) : Except Numeral.Error Int :=
  let (base, ds) := Numeral.split s
  match Numeral.readSigned base ds with
  | .ok n => .ok n
  | .error reason => .error ⟨ds, reason⟩

end Asm16
