import Asm16.Text.Numeral

/-!
# Sites

A site is a line of a document, as messages name it.
-/

namespace Asm16

/-- A line of a document. -/
structure Site where
  /-- The name of the document. -/
  document : Bytes
  /-- The number of the line; the lines of a document are counted from one. -/
  number : Int
  /-- The line as written. -/
  raw : Bytes
  deriving DecidableEq, Repr

/-- The document and the line number. -/
def Site.text (s : Site) : Bytes := s.document ++ ":" ++ Numeral.ofInt s.number

end Asm16
