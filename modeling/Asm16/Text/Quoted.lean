import Asm16.Text.Numeral
import Asm16.Text.Printable
import Asm16.Text.Utf8

/-!
# Quoted text

A text between double quotes, on one line and in printable characters. A quote and a backslash get
a backslash, the common control characters their letter, and everything else that is not printable
its code in hexadecimal : two digits for a byte, four or eight for a character.
-/

namespace Asm16.Quoted

/-- Control characters with a letter of their own. -/
def letters : List (Char × Char) :=
  [('\x07', 'a'), ('\x08', 'b'), ('\x0c', 'f'), ('\n', 'n'), ('\r', 'r'), ('\t', 't'),
    ('\x0b', 'v')]

/-- One character as it stands between the quotes. -/
def writeChar (c : Char) : Bytes :=
  if c = '"' ∨ c = '\\' then [byte '\\', byte c]
  else if isPrintable c then Utf8.encode c
  else match letters.find? (·.1 == c) with
    | some (_, letter) => [byte '\\', byte letter]
    | none =>
      if c.toNat < 0x80 then "\\x" ++ Numeral.padded 16 2 c.toNat
      else if c.toNat < 0x10000 then "\\u" ++ Numeral.padded 16 4 c.toNat
      else "\\U" ++ Numeral.padded 16 8 c.toNat

/-- The text between the quotes. -/
def body : Bytes → Bytes
  | [] => []
  | c :: rest =>
    match Utf8.char? (c :: rest) with
    | some (ch, n) => writeChar ch ++ body (rest.drop (n - 1))
    | none => "\\x" ++ Numeral.padded 16 2 c.toNat ++ body rest
termination_by s => s.length

end Asm16.Quoted

namespace Asm16

/-- A text in double quotes. -/
def quote (s : Bytes) : Bytes := [byte '"'] ++ Quoted.body s ++ [byte '"']

/-- The reason and the digits, quoted. -/
def Numeral.Error.message (e : Numeral.Error) : Bytes :=
  let reason : Bytes := match e.reason with
    | .invalid => "invalid syntax"
    | .range => "value out of range"
  "strconv.ParseInt: parsing " ++ quote e.digits ++ ": " ++ reason

end Asm16
