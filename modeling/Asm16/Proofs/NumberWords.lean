import Asm16.Proofs.Normalized
import Asm16.Proofs.WholeWords

/-!
# Words that are numbers

A word is read as a number exactly if it is a literal of the number, and the number is below
`2 ^ 63`. So it does not matter which notation a number is written in, nor how many zeros stand in
front of its digits (`Numeral.read_eq_ok_iff_literal`).

`normalize` writes such a word with its decimal digits if it begins with a zero, and keeps all other
bytes of a text. The digits are a word again, and one that normalising does not change : a text is
normalised in one go, and keeps its value (`Arith.normalize_word_by_word`).
-/

namespace Asm16

/-! ## Notations and zeros -/

namespace Numeral

/-- A mark in front of digits, and the base it stands for. -/
structure Radix where
  mark : Bytes
  base : Nat

/-- The notations of a number. Decimal digits have no mark. -/
def radixes : List Radix := [⟨"", 10⟩, ⟨"0x", 16⟩, ⟨"0X", 16⟩, ⟨"0b", 2⟩, ⟨"0B", 2⟩]

theorem digitValue_zero : digitValue (byte '0') = 0 := by decide

theorem positional_zeros (base k : Nat) (ds : Bytes) :
    positional base (List.replicate k (byte '0') ++ ds) = positional base ds := by
  induction k with
  | zero => rfl
  | succ k ih =>
    rw [List.replicate_succ, List.cons_append, positional_cons, digitValue_zero, ih, Nat.zero_mul,
      Nat.zero_add]

theorem IsDigits.zeros {base : Nat} {ds : Bytes} (h : IsDigits base ds) (k : Nat) :
    IsDigits base (List.replicate k (byte '0') ++ ds) := by
  refine ⟨List.append_ne_nil_of_right_ne_nil _ h.ne_nil,
    List.forall_mem_append.2 ⟨fun c hc => ?_, h.lt⟩⟩
  obtain ⟨d, hd⟩ := List.exists_mem_of_ne_nil ds h.ne_nil
  rw [List.eq_of_mem_replicate hc, digitValue_zero]
  exact Nat.zero_lt_of_lt (h.lt d hd)

theorem literal_of_radix {r : Radix} (hr : r ∈ radixes) {ds : Bytes} (h : IsDigits r.base ds) :
    Literal (r.mark ++ ds) (positional r.base ds) := by
  simp only [radixes, List.mem_cons, List.not_mem_nil, or_false] at hr
  rcases hr with rfl | rfl | rfl | rfl | rfl
  · exact .decimal h
  · exact .hexadecimal (.inl rfl) h
  · exact .hexadecimal (.inr rfl) h
  · exact .binary (.inl rfl) h
  · exact .binary (.inr rfl) h

/-- A literal is read as its number, if that is small enough, and as nothing else. -/
theorem Literal.read_eq_ok {w : Bytes} {n : Nat} (h : Literal w n) {v : Int} :
    Numeral.read w = .ok v ↔ v = n ∧ n < intLimit := by
  constructor
  · intro hread
    obtain ⟨m, rfl, hm, hlt⟩ := exists_literal_of_read (Arith.isWord_of_literal h).all hread
    obtain rfl := h.eq hm
    exact ⟨rfl, hlt⟩
  · rintro ⟨rfl, hn⟩
    exact h.read_eq hn

/-- A word is read as a number exactly if it is a literal of it in one of the three notations and
it is below `2 ^ 63`. Any notation of the same number, with any zeros in front of its digits, is
read alike. -/
theorem read_eq_ok_iff_literal {w : Bytes} (hw : ∀ c ∈ w, isWordByte c = true) (v : Int) :
    (Numeral.read w = .ok v ↔ ∃ n : Nat, v = n ∧ Literal w n ∧ n < 2 ^ 63) ∧
      ∀ r ∈ radixes, ∀ ds, IsDigits r.base ds → Literal w (positional r.base ds) → ∀ k,
        (Numeral.read (r.mark ++ (List.replicate k (byte '0') ++ ds)) = .ok v ↔
          Numeral.read w = .ok v) := by
  refine ⟨⟨exists_literal_of_read hw, ?_⟩, fun r hr ds hds hliteral k => ?_⟩
  · rintro ⟨n, rfl, hliteral, hn⟩
    exact hliteral.read_eq hn
  · have hpadded := literal_of_radix hr (hds.zeros k)
    rw [positional_zeros] at hpadded
    rw [hpadded.read_eq_ok, hliteral.read_eq_ok]

/-- The largest number that is read, in hexadecimal digits of both cases, and in decimal digits
behind four zeros. -/
theorem largest_read_eq_ok_iff_literal :
    Literal "0X7fffFFFFffffFFFF" 9223372036854775807 ∧
      Numeral.read "0X7fffFFFFffffFFFF" = .ok 9223372036854775807 ∧
      Numeral.read "00009223372036854775807" = .ok 9223372036854775807 := by
  have hdigits : IsDigits 16 "7fffFFFFffffFFFF" := ⟨by decide +kernel, by decide +kernel⟩
  have hdecimal : IsDigits 10 "9223372036854775807" := ⟨by decide +kernel, by decide +kernel⟩
  have hliteral : Literal "0X7fffFFFFffffFFFF" 9223372036854775807 :=
    literal_of_radix (r := ⟨"0X", 16⟩) (by simp [radixes]) hdigits
  obtain ⟨hread, halike⟩ :=
    read_eq_ok_iff_literal (Arith.isWord_of_literal hliteral).all 9223372036854775807
  have hok := hread.2 ⟨9223372036854775807, rfl, hliteral, by decide⟩
  exact ⟨hliteral, hok,
    (halike ⟨"", 10⟩ (by simp [radixes]) "9223372036854775807" hdecimal hliteral 4).2 hok⟩

end Numeral

/-! ## Normalising -/

namespace Arith

open Numeral

theorem read_decimal {n : Nat} (hn : n < intLimit) : Numeral.read (decimal n) = .ok n :=
  (literal_decimal n).read_eq hn

section Piece

variable {s p : Bytes} (hp : p ∈ pieces s)
include hp

/-- A piece stays as it is, or it is read as a number and becomes its decimal digits. -/
theorem normalizeWord_cases : normalizeWord p = p ∨
    ∃ n : Nat, n < intLimit ∧ Numeral.read p = .ok n ∧ normalizeWord p = decimal n := by
  rcases (wordCut_pieces s).isPiece p hp with hword | ⟨c, hc, rfl⟩
  · unfold normalizeWord
    split
    · cases hread : Numeral.read p with
      | error e => exact .inl rfl
      | ok v =>
        obtain ⟨n, rfl, -, hn⟩ := exists_literal_of_read hword.all hread
        exact .inr ⟨n, hn, rfl, ofInt_natCast n⟩
    · exact .inl rfl
  · exact .inl (normalizeWord_singleton hc)

theorem pieces_normalizeWord : pieces (normalizeWord p) = [normalizeWord p] := by
  rcases normalizeWord_cases hp with h | ⟨n, -, -, h⟩
  · rw [h, pieces_of_mem_pieces hp]
  · rw [h, pieces_of_isWord (isWord_decimal n)]

theorem read_normalizeWord : Numeral.read (normalizeWord p) = Numeral.read p := by
  rcases normalizeWord_cases hp with h | ⟨n, hn, hread, h⟩
  · rw [h]
  · rw [h, read_decimal hn, hread]

theorem normalizeWord_normalizeWord : normalizeWord (normalizeWord p) = normalizeWord p := by
  rcases normalizeWord_cases hp with h | ⟨n, hn, -, h⟩
  · rw [h, h]
  · rw [h, normalizeWord, read_decimal hn]
    simp only [ofInt_natCast, ite_self]

end Piece

/-- A normalised text has the pieces of the text, each in its plain form. -/
theorem wordCut_normalize (s : Bytes) : WordCut (normalize s) ((pieces s).map normalizeWord) := by
  have hcut := wordCut_flatMap (f := normalizeWord) (fun c hc => normalizeWord_singleton hc) s
  rwa [← normalize_eq_flatMap, List.flatMap_congr fun p hp => pieces_normalizeWord hp,
    ← List.map_eq_flatMap] at hcut

theorem normalize_normalize (s : Bytes) : normalize (normalize s) = normalize s := by
  have hpieces : pieces (normalize s) = (pieces s).map normalizeWord :=
    (wordCut_iff.1 (wordCut_normalize s)).symm
  calc normalize (normalize s)
      = ((pieces s).map normalizeWord).flatMap normalizeWord := by
        rw [normalize_eq_flatMap (normalize s), hpieces]
    _ = (pieces s).flatMap normalizeWord := by
        rw [List.flatMap_map]
        exact List.flatMap_congr fun p hp => normalizeWord_normalizeWord hp
    _ = normalize s := (normalize_eq_flatMap s).symm

/-- For its value, only the normal form of a text counts. -/
theorem evaluate_eq_ok_of_normalize_eq {s t : Bytes} (h : normalize s = normalize t) {v : Int}
    (hs : evaluate s = .ok v) : evaluate t = .ok v := by
  unfold evaluate at hs ⊢
  rw [← h]
  by_cases hnorm :
      ((trim (normalize s)).isEmpty || !(trim (normalize s)).all isArithmeticByte) = true
  · simp only [if_pos hnorm] at hs
    cases hs
  · simp only [if_neg hnorm] at hs ⊢
    cases hread : Tree.read (trim (normalize s)) with
    | error e => simp [hread] at hs
    | ok tree =>
      simp only [hread] at hs ⊢
      cases hvalue : tree.value with
      | error e => simp [hvalue] at hs
      | ok n =>
        simp only [hvalue] at hs ⊢
        by_cases hfits : FitsInt n
        · rw [if_pos hfits] at hs ⊢
          exact hs
        · rw [if_neg hfits] at hs
          cases hs

/-- Normalising acts on the words of a text one by one and keeps the bytes between them. What it
leaves is cut as the text was, every word is read as before, a second pass changes nothing, and the
value of the text is the same. -/
theorem normalize_word_by_word (s : Bytes) :
    WordCut s (pieces s) ∧
      normalize s = (pieces s).flatMap normalizeWord ∧
      WordCut (normalize s) ((pieces s).map normalizeWord) ∧
      (∀ p ∈ pieces s, Numeral.read (normalizeWord p) = Numeral.read p) ∧
      normalize (normalize s) = normalize s ∧
      ∀ v, evaluate s = .ok v ↔ evaluate (normalize s) = .ok v := by
  have hidem := normalize_normalize s
  exact ⟨wordCut_pieces s, normalize_eq_flatMap s, wordCut_normalize s,
    fun _ hp => read_normalizeWord hp, hidem,
    fun _ => ⟨evaluate_eq_ok_of_normalize_eq hidem.symm, evaluate_eq_ok_of_normalize_eq hidem⟩⟩

end Arith

end Asm16
