import Asm16.Text.Combining
import Asm16.Text.Composite
import Asm16.Text.Utf8

/-!
# Composed form

Two spellings of one text, such as `é` as one character and as a letter with a mark, have the same
composed form. A text is cut into segments, each a character with the marks that follow it. The
characters of a segment are taken apart (`decompose`), its marks are put in the order of their
classes (`arrange`), and what composes is put together (`recompose`).

A segment holds no more than `maxMarks` marks. Where more follow, a joiner ends the segment and the
rest begins one of its own.
-/

namespace Asm16.Composed

/-- The most marks in a segment. -/
def maxMarks : Nat := 30

/-- Ends a segment that would have too many marks. -/
def joiner : Char := '\u034f'

/-- A character belongs to the one before it. -/
def isMark (c : Char) : Bool :=
  combiningClass c != 0 || composesBack c || Syllable.isVowel c.toNat || Syllable.isTail c.toNat

/-- Runs of other forms of a mark, such as a narrow one. They count as a mark. -/
def markForms : List (Nat × Nat) :=
  [(0x3133, 0x3133), (0x3135, 0x3136), (0x313a, 0x313f), (0x314f, 0x3163), (0xff9e, 0xff9f),
    (0xffa3, 0xffa3), (0xffa5, 0xffa6), (0xffaa, 0xffaf), (0xffc2, 0xffc7), (0xffca, 0xffcf),
    (0xffd2, 0xffd7), (0xffda, 0xffdc)]

/-- Runs of other forms of a text that ends in marks, such as a mark over a blank, with the number
of those marks. -/
def markedForms : List (Nat × Nat × Nat) :=
  [(0xa8, 0xa8, 1), (0xaf, 0xaf, 1), (0xb4, 0xb4, 1), (0xb8, 0xb8, 1), (0x1c4, 0x1c6, 1),
    (0x2d8, 0x2dd, 1), (0x37a, 0x37a, 1), (0x384, 0x384, 1), (0x385, 0x385, 2), (0xf77, 0xf77, 2),
    (0xf79, 0xf79, 2), (0x1fbd, 0x1fbd, 1), (0x1fbf, 0x1fc0, 1), (0x1fc1, 0x1fc1, 2),
    (0x1fcd, 0x1fcf, 2), (0x1fdd, 0x1fdf, 2), (0x1fed, 0x1fee, 2), (0x1ffd, 0x1ffe, 1),
    (0x2017, 0x2017, 1), (0x203e, 0x203e, 1), (0x309b, 0x309c, 1), (0x326e, 0x327e, 1),
    (0x3304, 0x3304, 1), (0x3307, 0x3307, 1), (0x3310, 0x3310, 1), (0x331e, 0x331e, 1),
    (0x3321, 0x3321, 1), (0x3332, 0x3332, 1), (0x333b, 0x333b, 1), (0x3340, 0x3340, 1),
    (0x334b, 0x334b, 1), (0x334e, 0x334e, 1), (0xfba4, 0xfba5, 1), (0xfbb0, 0xfbb1, 1),
    (0xfc5b, 0xfc5d, 1), (0xfc5e, 0xfc63, 2), (0xfc90, 0xfc90, 1), (0xfcd9, 0xfcd9, 1),
    (0xfcf2, 0xfcf4, 2), (0xfd3c, 0xfd3d, 1), (0xfe49, 0xfe4c, 1), (0xfe70, 0xfe72, 1),
    (0xfe74, 0xfe74, 1), (0xfe76, 0xfe7f, 1), (0xfe81, 0xfe8c, 1), (0xfef5, 0xfefa, 1),
    (0xffe3, 0xffe3, 1), (0x1f213, 0x1f213, 1)]

/-- The number of marks a character begins with. If there are any, it continues a segment. -/
def leadingMarks (c : Char) : Nat :=
  if c.toNat < 0x300 then 0
  else if markForms.any fun (first, last) => first ≤ c.toNat && c.toNat ≤ last then 1
  else ((decompose c).takeWhile isMark).length

/-- The number of marks a character ends in. -/
def trailingMarks (c : Char) : Nat :=
  match markedForms.find? fun (first, last, _) => first ≤ c.toNat && c.toNat ≤ last with
  | some (_, _, n) => n
  | none => ((decompose c).reverse.takeWhile isMark).length

/-- The segments of a text, after a segment `back` (last character first) with `marks` marks. -/
def segments (marks : Nat) (back : List Char) : List Char → List (List Char)
  | [] => [back.reverse]
  | c :: rest =>
    let n := leadingMarks c
    if n = 0 then back.reverse :: segments (trailingMarks c) [c] rest
    else if marks + n ≤ maxMarks then segments (marks + n) (c :: back) rest
    else (joiner :: back).reverse :: segments n [c] rest

/-- Puts a mark after the marks of its class and below, and any other character last; the last
character comes first in the list. -/
def place (c : Char) : List Char → List Char
  | [] => [c]
  | d :: back =>
    if combiningClass c ≠ 0 ∧ combiningClass c < combiningClass d then d :: place c back
    else c :: d :: back

/-- The characters of a segment with the marks in the order of their classes. -/
def arrange (s : List Char) : List Char := (s.foldl (fun back c => place c back) []).reverse

/-- A segment that is being put together : the character at hand, and what stands before and after
it, last character first. -/
structure Joining where
  before : List Char
  base : Char
  after : List Char
  /-- The sounds of a syllable are being joined, and nothing else from here on. -/
  sounds : Bool

namespace Joining

/-- The last character so far. -/
def last (j : Joining) : Char := j.after.headD j.base

/-- Goes on to the last character, unless it is a mark with a class. -/
def advance (j : Joining) : Joining :=
  match j.after with
  | [] => j
  | c :: back =>
    if combiningClass c = 0 then ⟨back ++ j.base :: j.before, c, [], j.sounds⟩ else j

/-- A mark of the same class or above stands between the character at hand and `c`. -/
def blocks (j : Joining) (c : Char) : Bool :=
  !j.after.isEmpty && combiningClass c ≤ combiningClass j.last

/-- Joins `c` to the character at hand, or puts it last. -/
def join (j : Joining) (whole : Option Char) (c : Char) : Joining :=
  match if j.blocks c then none else whole with
  | some d => { j with base := d }
  | none => { j with after := c :: j.after }

/-- A character from the part of the code that holds the sounds of syllables. -/
def isSound (c : Char) : Bool := 0x1100 ≤ c.toNat && c.toNat < 0x1200

/-- Takes the next character. -/
def step (j : Joining) (c : Char) : Joining :=
  if j.sounds || isSound c then
    let j := { j with sounds := true }.advance
    j.join ((Syllable.join? j.base.toNat c.toNat).map Char.ofNat) c
  else if composesBack c then
    let j := j.advance
    j.join (compose? j.base c) c
  else { j with after := c :: j.after }

/-- All characters in order. -/
def chars (j : Joining) : List Char := j.before.reverse ++ j.base :: j.after.reverse

end Joining

/-- Puts the characters of a segment together. -/
def recompose : List Char → List Char
  | [] => []
  | c :: rest => (rest.foldl Joining.step ⟨[], c, [], false⟩).chars

/-- The composed form of a segment. -/
def segment (s : List Char) : List Char := recompose (arrange (s.flatMap decompose))

/-- The composed form of a text. -/
def text (s : Bytes) : Bytes :=
  ((segments 0 [] (Utf8.chars s)).flatMap segment).flatMap Utf8.encode

end Asm16.Composed
