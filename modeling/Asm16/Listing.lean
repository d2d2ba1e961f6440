import Asm16.Assembly

/-!
# Listings

A listing shows each line of a program with its address and its first words, and instructions as the
machine reads them.
-/

namespace Asm16

/-- Fills a column of `width` characters from the right with spaces. -/
def padRight (width : Nat) (s : Bytes) : Bytes :=
  s ++ List.replicate (width - (Utf8.chars s).length) (byte ' ')

/-- The first three words, and a mark if there are more. -/
def wordColumn (ws : List UInt16) : Bytes :=
  let shown := (ws.take 3).map fun w => Numeral.padded 16 4 w.toNat
  Bytes.join " " (if 3 < ws.length then shown ++ [("..." : Bytes)] else shown)

namespace Line

/-- The words of an image at the place of a line, as far as the image goes. -/
def wordsIn (l : Line) (img : Image) : List UInt16 := img.slice l.offset.toNat l.stop.toNat

/-- A line of a listing. -/
def listing (l : Line) (img : Image) : Bytes :=
  let ws := if l.code.isSome ∨ l.kind? = some .data then l.wordsIn img else []
  let text := if l.code.isSome then (Code.first ws).text else []
  Numeral.paddedInt 16 4 l.offset ++ ": " ++ padRight 14 (wordColumn ws) ++ " " ++
    padRight 24 text ++ " ; " ++ trim l.raw ++ "\n"

end Line

/-- The listing of a program against an image that holds it. -/
def Assembly.listing (a : Assembly) (img : Image) : Bytes :=
  a.lines.flatMap fun l => l.listing img

end Asm16
