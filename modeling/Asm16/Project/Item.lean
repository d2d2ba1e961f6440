import Asm16.Text.Letter
import Asm16.Text.Bytes
import Asm16.Text.Utf8

/-!
# Items of a project file

A project file is a sequence of words, quoted texts, numbers and marks. After an item that can end
an entry, a line break counts as a comma unless a colon or a comma is the next thing in the file,
and so does a comment or the end of the file. `//` begins a comment.

`items?` reads a file character by character; a `Scan` is what has been read so far.
-/

namespace Asm16.Project

/-- An item of a project file. -/
inductive Item where
  | word (name : Bytes)
  | text (contents : Bytes)
  | int (n : Nat)
  /-- A number with a decimal point : `digits` without it, with `places` digits after it. -/
  | fraction (digits places : Nat)
  | mark (c : Char)
  deriving DecidableEq, Repr

/-- What the characters at the end of a scan belong to; characters are kept in reverse. -/
inductive Pending where
  | nothing
  /-- A line break that may count as a comma. -/
  | lineBreak
  | run (back : List Char)
  | quoted (back : List Char)
  | escape (back : List Char)
  | slash
  | comment

/-- The items read so far, the last one first. -/
structure Scan where
  back : List Item := []
  /-- The last item can end an entry. -/
  ends : Bool := false
  pending : Pending := .nothing

/-- Characters of words and numbers. -/
def isRunChar (c : Char) : Bool := isLetterChar c || isDigitChar c || c = '_' || c = '$'

/-- The value of a digit up to sixteen. -/
def digitValue? (c : Char) : Option Nat :=
  if c.isDigit then some (c.toNat - 0x30)
  else if 'a' ≤ c ∧ c ≤ 'f' then some (c.toNat - 0x61 + 10)
  else if 'A' ≤ c ∧ c ≤ 'F' then some (c.toNat - 0x41 + 10)
  else none

/-- The value of digits. -/
def digitsValue? (base : Nat) (ds : List Char) : Option Nat :=
  ds.foldlM (fun n c => (digitValue? c).map fun d => n * base + d) 0

/-- A number : decimal without leading zeros, hexadecimal after `0x`, or with a decimal point. Zeros
at the end of the digits after the point do not count. -/
def number? (run : List Char) : Option Item :=
  let digits := run.takeWhile Char.isDigit
  match run.drop digits.length with
  | [] =>
    if digits.head? = some '0' ∧ 1 < digits.length then none else (digitsValue? 10 digits).map .int
  | '.' :: more =>
    let places := (more.reverse.dropWhile (· = '0')).reverse
    if more ≠ [] ∧ more.all Char.isDigit then
      (digitsValue? 10 (digits ++ places)).map fun n => .fraction n places.length
    else none
  | c :: more =>
    if digits = ['0'] ∧ (c = 'x' ∨ c = 'X') ∧ more ≠ [] then (digitsValue? 16 more).map .int
    else none

namespace Scan

/-- Adds an item that can end an entry. -/
def close (s : Scan) (i : Item) : Scan := ⟨i :: s.back, true, .nothing⟩

/-- Ends a run of characters. -/
def endRun (s : Scan) (back : List Char) : Option Scan :=
  let run := back.reverse
  if run.head?.any Char.isDigit then (number? run).map s.close
  else some (s.close (.word (run.flatMap Utf8.encode)))

/-- Ends the entry, if an entry can end here. -/
def endEntry (s : Scan) : Scan := ⟨if s.ends then .mark ',' :: s.back else s.back, false, .nothing⟩

/-- White space other than a line break. -/
def isSpace (c : Char) : Bool := c = ' ' || c = '\t' || c = '\r'

/-- Reads a character that begins something. -/
def start (s : Scan) (c : Char) : Option Scan :=
  if c = '\n' then some { s with pending := if s.ends then .lineBreak else .nothing }
  else if isSpace c then some s
  else if c = '"' then some { s with pending := .quoted [] }
  else if c = '/' then some { s.endEntry with pending := .slash }
  else if c = '}' ∨ c = ']' then some (s.close (.mark c))
  else if c = '{' ∨ c = '[' ∨ c = ':' ∨ c = ',' ∨ c = '-' ∨ c = '+' then
    some ⟨.mark c :: s.back, false, .nothing⟩
  else if isLetterChar c ∨ c.isDigit ∨ c = '_' ∨ c = '$' ∨ c = '#' then
    some { s with pending := .run [c] }
  else none

/-- The character an escape stands for. -/
def escaped? (c : Char) : Option Char :=
  [('a', '\x07'), ('b', '\x08'), ('f', '\x0c'), ('n', '\n'), ('r', '\r'), ('t', '\t'),
    ('v', '\x0b'), ('/', '/'), ('\\', '\\'), ('"', '"')].lookup c

/-- Reads one character. -/
def step (s : Scan) (c : Char) : Option Scan :=
  match s.pending with
  | .nothing => s.start c
  | .lineBreak =>
    if c = '\n' ∨ isSpace c then some s
    else if c = ':' ∨ c = ',' then { s with pending := .nothing }.start c
    else s.endEntry.start c
  | .run back =>
    if isRunChar c ∨ (c = '.' ∧ back.getLast?.any Char.isDigit) ∨ (c = '#' ∧ back = ['_']) then
      some { s with pending := .run (c :: back) }
    else do
      let s ← s.endRun back
      s.start c
  | .quoted back =>
    if c = '"' then some (s.close (.text (back.reverse.flatMap Utf8.encode)))
    else if c = '\\' then some { s with pending := .escape back }
    else if c = '\n' ∨ c = '\r' then none
    else some { s with pending := .quoted (c :: back) }
  | .escape back => (escaped? c).map fun e => { s with pending := .quoted (e :: back) }
  | .slash => if c = '/' then some { s with pending := .comment } else none
  | .comment => if c = '\n' then some { s with pending := .nothing } else some s

/-- The items at the end of a file. -/
def finish? (s : Scan) : Option (List Item) :=
  match s.pending with
  | .nothing | .lineBreak | .comment => some s.endEntry.back.reverse
  | .run back => (s.endRun back).map fun s => s.endEntry.back.reverse
  | .quoted _ | .escape _ | .slash => none

end Scan

/-- The mark that may stand at the beginning of a file. -/
def byteOrderMark : Char := '\uFEFF'

/-- The characters of a project file : a well formed text in which the null character does not
occur, and the byte order mark only at the beginning, where it does not count. -/
def chars? (file : Bytes) : Option (List Char) :=
  let cs := Utf8.chars file
  let body := if cs.head? = some byteOrderMark then cs.drop 1 else cs
  if Utf8.wellFormed file ∧ ¬ body.contains '\x00' ∧ ¬ body.contains byteOrderMark then some body
  else none

/-- The items of a project file. -/
def items? (file : Bytes) : Option (List Item) := do
  let cs ← chars? file
  let s ← cs.foldlM Scan.step {}
  s.finish?

end Asm16.Project
