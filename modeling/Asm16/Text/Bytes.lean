/-!
# Bytes

The assembler works on bytes. A source text need not be well formed UTF-8, every position is a
byte position, and the grammar of a line is decided byte by byte on the ASCII range.

This file holds the carrier `Bytes`, the ASCII classes the grammar uses (`isBlank`, `isLetter`,
`isDigit`, `isWordByte`) and the ASCII case maps.
-/

namespace Asm16

/-- A text : a list of bytes, not necessarily well formed UTF-8. -/
abbrev Bytes := List UInt8

/-- The byte of an ASCII character. -/
@[reducible] def byte (c : Char) : UInt8 := c.toNat.toUInt8

/-- ASCII white space. -/
def isBlank (c : UInt8) : Bool := c = 0x20 || (0x09 ≤ c && c ≤ 0x0d)

/-- An ASCII letter in lower case. -/
def isLower (c : UInt8) : Bool := byte 'a' ≤ c && c ≤ byte 'z'

/-- An ASCII letter in upper case. -/
def isUpper (c : UInt8) : Bool := byte 'A' ≤ c && c ≤ byte 'Z'

/-- An ASCII letter. -/
def isLetter (c : UInt8) : Bool := isLower c || isUpper c

/-- A decimal digit. -/
def isDigit (c : UInt8) : Bool := byte '0' ≤ c && c ≤ byte '9'

/-- A letter, a digit or an underscore : the bytes an identifier goes on with. -/
def isWordByte (c : UInt8) : Bool := isLetter c || isDigit c || c = byte '_'

/-- The ASCII upper case of a byte. -/
def upperByte (c : UInt8) : UInt8 := if isLower c then c - 0x20 else c

/-- The ASCII lower case of a byte. -/
def lowerByte (c : UInt8) : UInt8 := if isUpper c then c + 0x20 else c

namespace Bytes

/-- The UTF-8 bytes of a string. -/
def ofString (s : String) : Bytes := s.toByteArray.data.toList

instance : Coe String Bytes := ⟨ofString⟩

/-- ASCII upper case, byte by byte. -/
def upper (s : Bytes) : Bytes := s.map upperByte

/-- ASCII lower case, byte by byte. -/
def lower (s : Bytes) : Bytes := s.map lowerByte

/-- What follows `front` in `s`, if `s` begins with it. -/
def after? (front s : Bytes) : Option Bytes :=
  if front.isPrefixOf s then some (s.drop front.length) else none

/-- `s` without the bytes at its end that satisfy `p`. -/
def dropEnd (p : UInt8 → Bool) (s : Bytes) : Bytes := (s.reverse.dropWhile p).reverse

/-- The bytes of `s` before the first `c` and those after it; `none` if there is no `c`. -/
def cut? (c : UInt8) (s : Bytes) : Option (Bytes × Bytes) :=
  match s.dropWhile (· != c) with
  | [] => none
  | _ :: rest => some (s.takeWhile (· != c), rest)

/-- The parts of `s` between occurrences of `c`. -/
def splitOn (c : UInt8) (s : Bytes) : List Bytes :=
  s.foldr (fun b parts =>
    if b = c then [] :: parts
    else match parts with
      | part :: more => (b :: part) :: more
      | [] => [[b]]) [[]]

/-- Parts joined with `glue` between them. -/
def join (glue : Bytes) : List Bytes → Bytes
  | [] => []
  | [part] => part
  | part :: more => part ++ glue ++ join glue more

/-- Byte order, the shorter of two equal beginnings first. -/
def le : Bytes → Bytes → Bool
  | [], _ => true
  | _ :: _, [] => false
  | a :: s, b :: t => if a = b then le s t else a < b

end Bytes

end Asm16
