import Asm16.Proofs.Numerals
import Mathlib.Data.Nat.Digits.Defs

/-!
# Literals

A literal is a run of decimal digits, `0x` and hexadecimal digits, or `0b` and binary digits, and
stands for the positional value of its digits (`Literal`). Reading digits from the left gives the
positional value, as long as it fits (`readDigits_eq_ok`) : no value on the way is larger than the
last. So a word is read as a number exactly if it is a literal of that number and the number is
below `intLimit` (`exists_literal_of_read`, `Literal.read_eq`).
-/

namespace Asm16.Numeral

/-- The value of a digit, letters of either case counting from ten; sixteen for other bytes. -/
def digitValue (c : UInt8) : Nat := (Bytes.ofString "0123456789abcdef").idxOf (lowerByte c)

/-- At least one digit of a base, and nothing else. -/
structure IsDigits (base : Nat) (ds : Bytes) : Prop where
  ne_nil : ds ≠ []
  lt : ∀ c ∈ ds, digitValue c < base

/-- The value of digits by their positions. -/
def positional (base : Nat) (ds : Bytes) : Nat := Nat.ofDigits base (ds.map digitValue).reverse

/-- The literals, with the numbers they stand for. -/
inductive Literal : Bytes → Nat → Prop
  | decimal {ds : Bytes} (h : IsDigits 10 ds) : Literal ds (positional 10 ds)
  | hexadecimal {mark : UInt8} {ds : Bytes} (hm : mark = byte 'x' ∨ mark = byte 'X')
    (h : IsDigits 16 ds) : Literal (byte '0' :: mark :: ds) (positional 16 ds)
  | binary {mark : UInt8} {ds : Bytes} (hm : mark = byte 'b' ∨ mark = byte 'B')
    (h : IsDigits 2 ds) : Literal (byte '0' :: mark :: ds) (positional 2 ds)

/-! ## Digits -/

theorem forall_byte {p : UInt8 → Prop} (h : ∀ n < 256, p (UInt8.ofNat n)) (c : UInt8) : p c := by
  have hc := h c.toNat c.toNat_lt
  rwa [UInt8.ofNat_toNat] at hc

theorem digit?_sixteen : ∀ c : UInt8,
    digit? 16 c = if digitValue c < 16 then some (digitValue c) else none :=
  forall_byte (by decide +kernel)

theorem digit?_eq {base : Nat} (hb : base ≤ 16) (c : UInt8) :
    digit? base c = if digitValue c < base then some (digitValue c) else none := by
  have h := digit?_sixteen c
  unfold digit? at h ⊢
  grind

theorem isDigit_iff : ∀ c : UInt8, isDigit c = true ↔ digitValue c < 10 :=
  forall_byte (by decide +kernel)

theorem digitValue_of_isDigit : ∀ c : UInt8, isDigit c = true → digitValue c = c.toNat - 0x30 :=
  forall_byte (by decide +kernel)

@[simp] theorem positional_nil (base : Nat) : positional base [] = 0 := rfl

theorem positional_cons (base : Nat) (c : UInt8) (ds : Bytes) :
    positional base (c :: ds) = digitValue c * base ^ ds.length + positional base ds := by
  rw [positional, List.map_cons, Nat.ofDigits_reverse_cons, List.length_map, Nat.mul_comm,
    Nat.add_comm]
  rfl

theorem positional_concat (base : Nat) (c : UInt8) (ds : Bytes) :
    positional base (ds ++ [c]) = positional base ds * base + digitValue c := by
  rw [positional, List.map_append, List.reverse_append, List.map_singleton, List.reverse_singleton,
    List.singleton_append, Nat.ofDigits_cons, Nat.add_comm, Nat.mul_comm]
  rfl

/-! ## Reading -/

/-- Digits are read as their positional value, after the value read so far. -/
theorem readDigits_eq_ok {base acc n : Nat} (hb : 0 < base) (hb' : base ≤ 16)
    (hacc : acc < 0x10000000000000000) {ds : Bytes} : readDigits base acc ds = .ok n ↔
      (∀ c ∈ ds, digitValue c < base) ∧ acc * base ^ ds.length + positional base ds = n ∧
        n < 0x10000000000000000 := by
  induction ds generalizing acc with
  | nil =>
    simp only [readDigits, Except.ok.injEq, List.not_mem_nil, positional_nil, List.length_nil]
    grind
  | cons c ds ih =>
    have hsum : acc * base ^ (c :: ds).length + positional base (c :: ds) =
        (acc * base + digitValue c) * base ^ ds.length + positional base ds := by
      rw [positional_cons, List.length_cons, Nat.pow_succ]
      ring
    rw [readDigits, digit?_eq hb', List.forall_mem_cons, hsum]
    split
    · rename_i hnone
      split at hnone
      · cases hnone
      · simp [*]
    · rename_i d hd
      split at hd
      · rename_i hlt
        obtain rfl := Option.some.inj hd
        simp only [hlt, true_and]
        split
        · rename_i hlarge
          have hpos : 0 < base ^ ds.length := Nat.pow_pos hb
          have hle : acc * base + digitValue c ≤
              (acc * base + digitValue c) * base ^ ds.length := Nat.le_mul_of_pos_right _ hpos
          simp
          omega
        · exact ih (by omega)
      · cases hd

theorem readUnsigned_eq_ok {base n : Nat} (hb : 0 < base) (hb' : base ≤ 16) {ds : Bytes} :
    readUnsigned base ds = .ok n ↔
      IsDigits base ds ∧ positional base ds = n ∧ n < 0x10000000000000000 := by
  unfold readUnsigned
  split
  · rename_i hnil
    have hnot : ¬IsDigits base ds := fun h => h.ne_nil (List.isEmpty_iff.1 hnil)
    simp [hnot]
  · rename_i hne
    rw [readDigits_eq_ok hb hb' (by decide), Nat.zero_mul, Nat.zero_add]
    have hdigits : IsDigits base ds ↔ ∀ c ∈ ds, digitValue c < base :=
      ⟨fun h => h.lt, fun h => ⟨by simpa using hne, h⟩⟩
    rw [hdigits]

/-- A run of decimal digits has no mark. -/
theorem IsDigits.split_eq {ds : Bytes} (h : IsDigits 10 ds) : split ds = (10, ds) := by
  unfold split
  split
  · rename_i zero mark d rest
    have hmark : digitValue mark < 10 := h.lt mark (by simp)
    have hx : ¬(mark = byte 'x' ∨ mark = byte 'X') := by
      rintro (rfl | rfl) <;> revert hmark <;> decide
    have hb : ¬(mark = byte 'b' ∨ mark = byte 'B') := by
      rintro (rfl | rfl) <;> revert hmark <;> decide
    rw [if_neg hx, if_neg hb, ite_self]
  · rfl

/-- A literal is given by its base and its digits. -/
theorem literal_iff_split {w : Bytes} {n : Nat} : Literal w n ↔
    IsDigits (split w).1 (split w).2 ∧ positional (split w).1 (split w).2 = n := by
  constructor
  · intro h
    cases h with
    | decimal h =>
      rw [h.split_eq]
      exact ⟨h, rfl⟩
    | hexadecimal hm h =>
      obtain ⟨d, rest, rfl⟩ := List.exists_cons_of_ne_nil h.ne_nil
      rcases hm with rfl | rfl <;> exact ⟨h, rfl⟩
    | binary hm h =>
      obtain ⟨d, rest, rfl⟩ := List.exists_cons_of_ne_nil h.ne_nil
      rcases hm with rfl | rfl <;> exact ⟨h, rfl⟩
  · rintro ⟨h, rfl⟩
    unfold split at h ⊢
    split at h
    · rename_i zero mark d rest
      split at h
      · rename_i hzero
        subst hzero
        split at h
        · rename_i hm
          rw [if_pos rfl, if_pos hm]
          exact .hexadecimal hm h
        · rename_i hx
          rw [if_pos rfl, if_neg hx]
          split at h
          · rename_i hm
            rw [if_pos hm]
            exact .binary hm h
          · rename_i hb
            rw [if_neg hb]
            exact .decimal h
      · rename_i hzero
        rw [if_neg hzero]
        exact .decimal h
    · exact .decimal h

/-- A word is a literal of one number at most. -/
theorem Literal.eq {w : Bytes} {n m : Nat} (h : Literal w n) (h' : Literal w m) : n = m :=
  (literal_iff_split.1 h).2.symm.trans (literal_iff_split.1 h').2

theorem split_base (w : Bytes) : 0 < (split w).1 ∧ (split w).1 ≤ 16 := by
  unfold split
  grind

theorem isWordByte_of_mem_split {w : Bytes} (hw : ∀ c ∈ w, isWordByte c = true) :
    ∀ c ∈ (split w).2, isWordByte c = true := by
  intro c hc
  refine hw c ?_
  unfold split at hc
  grind

theorem isWordByte_of_digitValue : ∀ c : UInt8, digitValue c < 16 → isWordByte c = true :=
  forall_byte (by decide +kernel)

/-- Without a sign, a signed number is an unsigned one that is small enough. -/
theorem exists_readUnsigned_of_readSigned {base : Nat} {ds : Bytes} {v : Int}
    (hw : ∀ c ∈ ds, isWordByte c = true) (h : readSigned base ds = .ok v) :
    ∃ n : Nat, v = n ∧ readUnsigned base ds = .ok n ∧ n < intLimit := by
  unfold readSigned at h
  cases ds with
  | nil => cases h
  | cons c rest =>
    have hminus : c ≠ byte '-' := by
      rintro rfl
      exact absurd (hw _ List.mem_cons_self) (by decide)
    have hplus : c ≠ byte '+' := by
      rintro rfl
      exact absurd (hw _ List.mem_cons_self) (by decide)
    simp only [if_neg hminus, if_neg hplus] at h
    obtain ⟨m, hm, hfits⟩ := bind_eq_ok.1 h
    obtain ⟨n, hn, rfl⟩ := map_eq_ok.1 hm
    split at hfits
    · rename_i hlt
      obtain rfl := Except.ok.inj hfits
      exact ⟨n, rfl, hn, Int.ofNat_lt.1 hlt.2⟩
    · cases hfits

/-- A word that is read as a number is a literal of the number. -/
theorem exists_literal_of_read {w : Bytes} {v : Int} (hw : ∀ c ∈ w, isWordByte c = true)
    (h : Numeral.read w = .ok v) : ∃ n : Nat, v = n ∧ Literal w n ∧ n < intLimit := by
  obtain ⟨hb, hb'⟩ := split_base w
  unfold Numeral.read at h
  simp only at h
  split at h
  · rename_i m hm
    obtain rfl := Except.ok.inj h
    obtain ⟨n, hv, hread, hlt⟩ := exists_readUnsigned_of_readSigned (isWordByte_of_mem_split hw) hm
    obtain ⟨hdigits, hvalue, -⟩ := (readUnsigned_eq_ok hb hb').1 hread
    exact ⟨n, hv, literal_iff_split.2 ⟨hdigits, hvalue⟩, hlt⟩
  · cases h

/-- A literal is read as the number it stands for. -/
theorem Literal.read_eq {w : Bytes} {n : Nat} (h : Literal w n) (hn : n < intLimit) :
    Numeral.read w = .ok n := by
  obtain ⟨hb, hb'⟩ := split_base w
  obtain ⟨hdigits, hvalue⟩ := literal_iff_split.1 h
  have hword : ∀ c ∈ (split w).2, isWordByte c = true := fun c hc =>
    isWordByte_of_digitValue c (Nat.lt_of_lt_of_le (hdigits.lt c hc) hb')
  have hread : readUnsigned (split w).1 (split w).2 = .ok n :=
    (readUnsigned_eq_ok hb hb').2 ⟨hdigits, hvalue, Nat.lt_trans hn (by decide)⟩
  rw [Numeral.read]
  simp only [readSigned_of_readUnsigned hword hread hn]

end Asm16.Numeral
