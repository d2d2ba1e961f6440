import Asm16.Text.Bytes

/-!
# White space around a text

`trim` removes the characters of the Unicode property `White_Space` from both ends of a text. The
property has twenty-five characters; `blanks` lists their UTF-8 sequences, so trimming is cutting
one of these sequences off while there is one.
-/

namespace Asm16

/-- The codes of the white space characters. -/
def blankCodes : List Nat :=
  [0x09, 0x0a, 0x0b, 0x0c, 0x0d, 0x20, 0x85, 0xa0, 0x1680, 0x2000, 0x2001, 0x2002, 0x2003, 0x2004,
    0x2005, 0x2006, 0x2007, 0x2008, 0x2009, 0x200a, 0x2028, 0x2029, 0x202f, 0x205f, 0x3000]

/-- White space, in any script. -/
def isBlankChar (c : Char) : Bool := blankCodes.contains c.toNat

/-- The UTF-8 sequences of the white space characters. -/
def blanks : List Bytes := blankCodes.map fun n => String.utf8EncodeChar (Char.ofNat n)

/-- What is left of `s` after one of the sequences `fronts`. -/
def afterAny? (fronts : List Bytes) (s : Bytes) : Option Bytes :=
  fronts.findSome? fun front => if front.isEmpty then none else Bytes.after? front s

theorem afterAny?_lt {fronts : List Bytes} {s t : Bytes} (h : afterAny? fronts s = some t) :
    t.length < s.length := by
  obtain ⟨front, _, hf⟩ := List.exists_of_findSome?_eq_some h
  split at hf
  · simp at hf
  · rename_i hne
    unfold Bytes.after? at hf
    split at hf
    · rename_i hp
      have hlen := (List.isPrefixOf_iff_prefix.mp hp).length_le
      have hpos : 0 < front.length := by
        cases front with
        | nil => simp at hne
        | cons a r => simp
      simp only [Option.some.injEq] at hf
      rw [← hf, List.length_drop]
      omega
    · simp at hf

/-- Cuts sequences of `fronts` off the beginning of `s` while there are any. -/
def dropAll (fronts : List Bytes) (s : Bytes) : Bytes :=
  match _h : afterAny? fronts s with
  | none => s
  | some t => dropAll fronts t
termination_by s.length
decreasing_by exact afterAny?_lt _h

/-- Removes white space from both ends. -/
def trim (s : Bytes) : Bytes :=
  (dropAll (blanks.map List.reverse) (dropAll blanks s).reverse).reverse

end Asm16
