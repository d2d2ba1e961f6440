import Asm16.Text.Bytes

/-!
# Whole words

A word is a maximal run of letters, digits and underscores. `replaceWord` substitutes a word where
it stands alone : the bytes before and after it, if any, belong to no word.
-/

namespace Asm16

/-- What follows `key` at the front of `s`, if the word at the front ends with it. -/
def afterWord? (key s : Bytes) : Option Bytes :=
  match Bytes.after? key s with
  | some rest => if rest.head?.any isWordByte then none else some rest
  | none => none

theorem afterWord?_le {key s rest : Bytes} (h : afterWord? key s = some rest) :
    rest.length + key.length ≤ s.length := by
  unfold afterWord? at h
  split at h
  · rename_i t ht
    unfold Bytes.after? at ht
    split at ht
    · rename_i hp
      have := (List.isPrefixOf_iff_prefix.mp hp).length_le
      grind
    · simp at ht
  · simp at h

/-- Substitutes `value` for the word `key` in `s`; `inside` tells that the byte before `s` belongs
to a word. -/
def replaceWordFrom (key value : Bytes) (inside : Bool) (s : Bytes) : Bytes :=
  match s with
  | [] => []
  | c :: rest =>
    match _h : if inside || key.isEmpty then none else afterWord? key (c :: rest) with
    | some after => value ++ replaceWordFrom key value true after
    | none => c :: replaceWordFrom key value (isWordByte c) rest
termination_by s.length
decreasing_by
  · split at _h
    · simp at _h
    · rename_i hk
      have := afterWord?_le _h
      have : 0 < key.length := by
        cases key with
        | nil => simp at hk
        | cons a r => simp
      omega
  · simp

/-- Substitutes `value` for the word `key`, wherever it stands alone. -/
def replaceWord (key value s : Bytes) : Bytes := replaceWordFrom key value false s

end Asm16
