import Asm16.Text.Bytes

/-!
# Characters of a byte text

`Utf8.char?` reads the character a text begins with, if the bytes there are a well formed UTF-8
sequence. `Utf8.next` never fails : a byte that starts no well formed sequence counts as one
replacement character. `Utf8.chars` reads a whole text that way.

Codes are computed in `Nat`, so the range conditions of a well formed sequence (no overlong form,
no surrogate, nothing above `0x10ffff`) are plain inequalities.
-/

namespace Asm16.Utf8

/-- The character that stands for a byte outside every well formed sequence. -/
def replacement : Char := '�'

/-- The payload of a continuation byte. -/
def tail? (c : UInt8) : Option Nat :=
  if 0x80 ≤ c ∧ c < 0xc0 then some (c.toNat - 0x80) else none

/-- The character with code `n`, if `n` needs at least as many bytes as `least` does. -/
def scalar? (least n : Nat) : Option Char :=
  if least ≤ n ∧ n.isValidChar then some (Char.ofNat n) else none

/-- The character a text begins with, and the number of bytes it takes. -/
def char? : Bytes → Option (Char × Nat)
  | [] => none
  | a :: rest =>
    if a < 0x80 then some (Char.ofNat a.toNat, 1)
    else if a < 0xc0 then none
    else if a < 0xe0 then
      match rest with
      | b :: _ => do
        let n ← tail? b
        let c ← scalar? 0x80 ((a.toNat - 0xc0) * 64 + n)
        some (c, 2)
      | _ => none
    else if a < 0xf0 then
      match rest with
      | b :: c :: _ => do
        let n ← tail? b
        let m ← tail? c
        let ch ← scalar? 0x800 (((a.toNat - 0xe0) * 64 + n) * 64 + m)
        some (ch, 3)
      | _ => none
    else
      match rest with
      | b :: c :: d :: _ => do
        let n ← tail? b
        let m ← tail? c
        let k ← tail? d
        let ch ← scalar? 0x10000 ((((a.toNat - 0xf0) * 64 + n) * 64 + m) * 64 + k)
        some (ch, 4)
      | _ => none

/-- The next character of a nonempty text and what follows it. -/
def next (c : UInt8) (rest : Bytes) : Char × Bytes :=
  match char? (c :: rest) with
  | some (ch, n) => (ch, rest.drop (n - 1))
  | none => (replacement, rest)

theorem next_rest_le (c : UInt8) (rest : Bytes) : (next c rest).2.length ≤ rest.length := by
  unfold next
  split
  · simp
  · exact Nat.le_refl _

/-- The characters of a text. -/
def chars : Bytes → List Char
  | [] => []
  | c :: rest => (next c rest).1 :: chars (next c rest).2
termination_by s => s.length
decreasing_by
  have := next_rest_le c rest
  simp only [List.length_cons]
  omega

/-- The bytes of a character. -/
def encode (c : Char) : Bytes := String.utf8EncodeChar c

/-- Every byte belongs to a well formed sequence. -/
def wellFormed : Bytes → Bool
  | [] => true
  | c :: rest => (char? (c :: rest)).isSome && wellFormed (next c rest).2
termination_by s => s.length
decreasing_by
  have := next_rest_le c rest
  simp only [List.length_cons]
  omega

/-- Applies `f` to each character and writes the results; a byte outside every well formed
sequence counts as a replacement character. -/
def mapChars (f : Char → Bytes) (s : Bytes) : Bytes := (chars s).flatMap f

end Asm16.Utf8
