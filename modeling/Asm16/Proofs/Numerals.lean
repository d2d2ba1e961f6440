import Asm16.Log
import Asm16.Machine.OperandCode

/-!
# Numerals that are read back

The digits of a number in a base up to sixteen are read as the number (`readDigits_digits`), zeros
in front of them change nothing, and so a word that is printed with four hexadecimal digits is the
literal of its value (`read_hexWord`).
-/

namespace Asm16

namespace Numeral

variable {base : Nat}

theorem digits_eq (hb : 1 < base) (n : Nat) : digits base n =
    if n < base then [byte n.digitChar]
    else digits base (n / base) ++ [byte (n % base).digitChar] := by
  unfold digits
  rw [Nat.toDigits_eq_if hb]
  split <;> simp

/-- The sixteen digits, and their values. -/
theorem digitChar_spec : ∀ d < 16, isWordByte (byte d.digitChar) = true ∧
    ((isDigit (byte d.digitChar) = true ∧ (byte d.digitChar).toNat - 0x30 = d) ∨
      (isDigit (byte d.digitChar) = false ∧ isLower (byte d.digitChar) = true ∧
        (byte d.digitChar).toNat - 0x61 + 10 = d)) := by
  decide

theorem digit?_digitChar (hb : base ≤ 16) {d : Nat} (hd : d < base) :
    digit? base (byte d.digitChar) = some d := by
  have hspec := (digitChar_spec d (by omega)).2
  generalize byte d.digitChar = c at hspec ⊢
  obtain ⟨hdigit, hvalue⟩ | ⟨hdigit, hlower, hvalue⟩ := hspec
  · simp [digit?, hdigit, hvalue, hd]
  · simp [digit?, hdigit, hlower, hvalue, hd]

theorem isWordByte_of_mem_digits (hb : 1 < base) (hb' : base ≤ 16) {n : Nat} {c : UInt8}
    (hc : c ∈ digits base n) : isWordByte c = true := by
  induction n using Nat.strongRecOn with
  | ind n ih =>
    rw [digits_eq hb] at hc
    split at hc
    · rename_i hn
      obtain rfl := List.mem_singleton.1 hc
      exact (digitChar_spec n (by omega)).1
    · have hmod : n % base < base := Nat.mod_lt n (by omega)
      rcases List.mem_append.1 hc with hc | hc
      · exact ih _ (Nat.div_lt_self (by omega) hb) hc
      · obtain rfl := List.mem_singleton.1 hc
        exact (digitChar_spec _ (Nat.lt_of_lt_of_le hmod hb')).1

theorem digits_ne_nil (hb : 1 < base) (n : Nat) : digits base n ≠ [] := by
  rw [digits_eq hb]
  split <;> simp

theorem readDigits_append (acc : Nat) (s t : Bytes) : readDigits base acc (s ++ t) =
    (readDigits base acc s).bind fun n => readDigits base n t := by
  induction s generalizing acc with
  | nil => rfl
  | cons c rest ih =>
    rw [List.cons_append, readDigits, readDigits]
    cases digit? base c with
    | none => rfl
    | some d =>
      simp only
      split
      · rfl
      · exact ih _

theorem readDigits_digit (hb : base ≤ 16) {acc d : Nat} (hd : d < base)
    (h : acc * base + d < 0x10000000000000000) :
    readDigits base acc [byte d.digitChar] = .ok (acc * base + d) := by
  rw [readDigits, digit?_digitChar hb hd]
  simp only
  rw [if_neg (Nat.not_le.2 h), readDigits]

/-- The digits of a number are read as the number. -/
theorem readDigits_digits (hb : 1 < base) (hb' : base ≤ 16) {n : Nat}
    (hn : n < 0x10000000000000000) : readDigits base 0 (digits base n) = .ok n := by
  induction n using Nat.strongRecOn with
  | ind n ih =>
    rw [digits_eq hb]
    split
    · rename_i hlt
      rw [readDigits_digit hb' hlt (by omega), Nat.zero_mul, Nat.zero_add]
    · have hdiv : n / base < n := Nat.div_lt_self (by omega) hb
      have hmod : n % base < base := Nat.mod_lt n (by omega)
      have hsum : n / base * base + n % base = n := Nat.div_add_mod' n base
      rw [readDigits_append, ih _ hdiv (Nat.lt_trans hdiv hn), Except.bind,
        readDigits_digit hb' hmod (by omega), hsum]

theorem readDigits_zeros (hb : 1 < base) (hb' : base ≤ 16) (k : Nat) :
    readDigits base 0 (List.replicate k (byte '0')) = .ok 0 := by
  induction k with
  | zero => rfl
  | succ k ih =>
    have hzero : readDigits base 0 [byte (0 : Nat).digitChar] = .ok (0 * base + 0) :=
      readDigits_digit hb' (by omega) (by omega)
    rw [List.replicate_succ, ← List.singleton_append, readDigits_append]
    rw [show (byte '0') = byte (0 : Nat).digitChar from rfl, hzero, Except.bind, Nat.zero_mul]
    exact ih

theorem readUnsigned_padded (hb : 1 < base) (hb' : base ≤ 16) {n : Nat} (width : Nat)
    (hn : n < 0x10000000000000000) : readUnsigned base (padded base width n) = .ok n := by
  have hne : padded base width n ≠ [] := by
    simp [padded, digits_ne_nil hb]
  rw [readUnsigned, if_neg (by simpa using hne), padded, readDigits_append,
    readDigits_zeros hb hb', Except.bind, readDigits_digits hb hb' hn]

theorem isWordByte_of_mem_padded (hb : 1 < base) (hb' : base ≤ 16) {width n : Nat} {c : UInt8}
    (hc : c ∈ padded base width n) : isWordByte c = true := by
  rcases List.mem_append.1 hc with hc | hc
  · rw [List.eq_of_mem_replicate hc]
    rfl
  · exact isWordByte_of_mem_digits hb hb' hc

/-- Digits without a sign are read as an unsigned number. -/
theorem readSigned_of_readUnsigned {s : Bytes} {n : Nat} (hs : ∀ c ∈ s, isWordByte c = true)
    (h : readUnsigned base s = .ok n) (hn : n < intLimit) : readSigned base s = .ok n := by
  cases s with
  | nil => simp [readUnsigned] at h
  | cons c rest =>
    have hc := hs c (by simp)
    have hminus : c ≠ byte '-' := by
      rintro rfl
      revert hc
      decide
    have hplus : c ≠ byte '+' := by
      rintro rfl
      revert hc
      decide
    have hfits : FitsInt (n : Int) := by
      unfold FitsInt
      omega
    have hmap : Int.ofNat <$> (Except.ok n : Except Reason Nat) = .ok (n : Int) := rfl
    unfold readSigned
    simp only
    rw [if_neg hminus, if_neg hplus, h, hmap, ok_bind, if_pos hfits]

end Numeral

namespace OperandCode

open Numeral

theorem hexWord_eq (w : UInt16) :
    hexWord w = byte '0' :: byte 'x' :: padded 16 4 w.toNat := rfl

theorem isWordByte_of_mem_hexWord {w : UInt16} {c : UInt8} (hc : c ∈ hexWord w) :
    isWordByte c = true := by
  rw [hexWord_eq] at hc
  rcases List.mem_cons.1 hc with rfl | hc
  · rfl
  · rcases List.mem_cons.1 hc with rfl | hc
    · rfl
    · exact isWordByte_of_mem_padded (by decide) (by decide) hc

theorem length_hexWord (w : UInt16) : (hexWord w).length = 6 := by
  have hlen : (digits 16 w.toNat).length ≤ 4 := by
    rw [digits, List.length_map, Nat.length_toDigits_le_iff (by decide) (by decide)]
    exact w.toNat_lt
  simp only [hexWord_eq, padded, List.length_cons, List.length_append, List.length_replicate]
  omega

/-- A printed word is the literal of its value. -/
theorem read_hexWord (w : UInt16) : Numeral.read (hexWord w) = .ok (w.toNat : Int) := by
  have hlt : w.toNat < 65536 := w.toNat_lt
  have hread : readSigned 16 (padded 16 4 w.toNat) = .ok (w.toNat : Int) :=
    readSigned_of_readUnsigned (fun c hc => isWordByte_of_mem_padded (by decide) (by decide) hc)
      (readUnsigned_padded (by decide) (by decide) 4 (by omega)) (by unfold intLimit; omega)
  have hsplit : Numeral.split (hexWord w) = (16, padded 16 4 w.toNat) := by
    rw [hexWord_eq]
    cases hp : padded 16 4 w.toNat with
    | nil => simp [padded, digits_ne_nil] at hp
    | cons c rest => rfl
  rw [Numeral.read, hsplit]
  simp only [hread]

end OperandCode

end Asm16
