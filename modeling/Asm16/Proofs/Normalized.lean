import Asm16.Arith.Value
import Asm16.Proofs.Literals
import Asm16.Proofs.Words

/-!
# Normalised texts

`normalize` acts on the words of a text one by one (`normalize_eq_flatMap`) and keeps every byte
between them, so it commutes with trimming (`trim_normalize`). A word of a literal below `intLimit`
becomes its plain decimal digits (`IsPlain`), and no other word becomes plain digits
(`literal_of_isPlain`, `isPlain_of_literal`).
-/

namespace Asm16.Arith

open Numeral

/-! ## Word by word -/

/-- The plain form of a word. -/
def normalizeWord (w : Bytes) : Bytes :=
  if w.head? = some (byte '0') then
    match Numeral.read w with
    | .ok n => Numeral.ofInt n
    | .error _ => w
  else w

section Pieces

variable {c : UInt8} {w rest s t : Bytes}

theorem normalizeFrom_nil (inside : Bool) : normalizeFrom inside [] = [] := by
  rw [normalizeFrom]

@[simp] theorem normalize_nil : normalize [] = [] := normalizeFrom_nil false

theorem normalizeFrom_cons (hc : isWordByte c = false) (inside : Bool) (rest : Bytes) :
    normalizeFrom inside (c :: rest) = c :: normalize rest := by
  have hne : c ≠ byte '0' := by
    rintro rfl
    cases hc
  rw [normalizeFrom, if_neg (by simpa using fun _ => hne), hc, normalize]

theorem normalize_cons (hc : isWordByte c = false) (rest : Bytes) :
    normalize (c :: rest) = c :: normalize rest :=
  normalizeFrom_cons hc false rest

/-- Inside a word nothing changes. -/
theorem normalizeFrom_inside (hw : ∀ c ∈ w, isWordByte c = true) :
    normalizeFrom true (w ++ rest) = w ++ normalizeFrom true rest := by
  induction w with
  | nil => rfl
  | cons c w ih =>
    obtain ⟨hc, hw⟩ := List.forall_mem_cons.1 hw
    rw [List.cons_append, normalizeFrom, if_neg (by simp), hc, ih hw]
    rfl

/-- Behind a word it makes no difference that there is one. -/
theorem normalizeFrom_eq (inside : Bool) (hr : ∀ c, rest.head? = some c → isWordByte c = false) :
    normalizeFrom inside rest = normalize rest := by
  cases rest with
  | nil => rw [normalize, normalizeFrom_nil, normalizeFrom_nil]
  | cons c rest => rw [normalizeFrom_cons (hr c rfl), normalize_cons (hr c rfl)]

theorem normalize_isWord_append (hw : IsWord w)
    (hr : ∀ c, rest.head? = some c → isWordByte c = false) :
    normalize (w ++ rest) = normalizeWord w ++ normalize rest := by
  obtain ⟨c, more, rfl⟩ := List.exists_cons_of_ne_nil hw.ne_nil
  obtain ⟨hc, hmore⟩ := List.forall_mem_cons.1 hw.all
  rw [normalize, List.cons_append, normalizeFrom, normalizeWord, List.head?_cons]
  by_cases hzero : c = byte '0'
  · rw [takeWhile_append_of_head? hmore hr, dropWhile_append_of_head? hmore hr,
      normalizeFrom_eq _ hr, if_pos (by simp [hzero])]
    exact congrArg (· ++ normalize rest) (if_pos (by rw [hzero])).symm
  · rw [if_neg (by simpa using hzero), if_neg (by simpa using hzero), hc,
      normalizeFrom_inside hmore, normalizeFrom_eq _ hr]
    rfl

theorem normalizeWord_singleton (hc : isWordByte c = false) : normalizeWord [c] = [c] := by
  rw [normalizeWord, if_neg]
  rintro hzero
  obtain rfl := Option.some.inj hzero
  cases hc

/-- Normalising acts on the pieces of a text one by one. -/
theorem normalize_eq_flatMap (s : Bytes) : normalize s = (pieces s).flatMap normalizeWord := by
  induction s using textInduction with
  | nil => rw [normalize_nil, pieces_nil, List.flatMap_nil]
  | cons c rest hc ih =>
    rw [normalize_cons hc, ih, pieces_cons hc, List.flatMap_cons, normalizeWord_singleton hc,
      List.singleton_append]
  | append w rest hw hr ih =>
    rw [normalize_isWord_append hw hr, ih, pieces_isWord_append hw hr, List.flatMap_cons]

theorem normalize_append (h : ∀ a ∈ s.getLast?, ∀ b ∈ t.head?, joins a b = false) :
    normalize (s ++ t) = normalize s ++ normalize t := by
  simp only [normalize_eq_flatMap, pieces_append h, List.flatMap_append]

/-- Bytes of no word stay as they are. -/
theorem normalize_of_forall {g : Bytes} (hg : ∀ c ∈ g, isWordByte c = false) (t : Bytes) :
    normalize (g ++ t) = g ++ normalize t := by
  induction g with
  | nil => rfl
  | cons c g ih =>
    obtain ⟨hc, hg⟩ := List.forall_mem_cons.1 hg
    rw [List.cons_append, normalize_cons hc, ih hg, List.cons_append]

end Pieces

/-! ## Plain digits -/

/-- Digits that begin with a zero only if there are no others. -/
structure IsPlain (ds : Bytes) : Prop where
  digits : ∀ c ∈ ds, isDigit c = true
  zeros : ds.head? = some (byte '0') → ∀ c ∈ ds, c = byte '0'

theorem literalFlaw?_eq_none {ds : Bytes} {start stop : Nat} :
    Stream.literalFlaw? ds start stop = none ↔
      (ds.head? = some (byte '0') → ∀ c ∈ ds, c = byte '0') := by
  cases ds with
  | nil => simp [Stream.literalFlaw?]
  | cons c ds =>
    unfold Stream.literalFlaw?
    simp only [List.head?_cons, Option.some.injEq]
    split
    · rename_i h
      obtain ⟨d, hd, hne⟩ := List.any_eq_true.1 h.2
      have hright : ¬(c = byte '0' → ∀ c_1 ∈ c :: ds, c_1 = byte '0') := fun hall => by
        simp [hall h.1 d hd] at hne
      simp only [hright, iff_false]
      split <;> simp
    · rename_i h
      simpa using h

theorem digitsValue_eq {ds : Bytes} (h : ∀ c ∈ ds, isDigit c = true) :
    Stream.digitsValue ds = positional 10 ds := by
  suffices hacc : ∀ acc : Nat, ds.foldl (fun n d => n * 10 + (d.toNat - 0x30)) acc =
      acc * 10 ^ ds.length + positional 10 ds by
    rw [Stream.digitsValue, hacc, Nat.zero_mul, Nat.zero_add]
  induction ds with
  | nil => simp
  | cons c ds ih =>
    obtain ⟨hc, hds⟩ := List.forall_mem_cons.1 h
    intro acc
    rw [List.foldl_cons, ih hds, positional_cons, digitValue_of_isDigit c hc, List.length_cons,
      Nat.pow_succ]
    ring

theorem ofInt_natCast (n : Nat) : Numeral.ofInt n = decimal n := by
  rw [Numeral.ofInt, if_neg (by omega), Int.natAbs_natCast]

/-- Only zero is written with a leading zero. -/
theorem eq_zero_of_head?_decimal {n : Nat} (h : (decimal n).head? = some (byte '0')) : n = 0 := by
  induction n using Nat.strongRecOn with
  | ind n ih =>
    rw [decimal, digits_eq (by decide)] at h
    split at h
    · rename_i hlt
      have hdigit : ∀ d < 10, byte d.digitChar = byte '0' → d = 0 := by decide
      exact hdigit n hlt (Option.some.inj h)
    · rename_i hge
      rw [List.head?_append_of_ne_nil _ (digits_ne_nil (by decide) _)] at h
      have := ih (n / 10) (by omega) h
      omega

/-- The decimal digits of a number are plain, and their value is the number. -/
theorem isPlain_decimal {n : Nat} (hn : n < intLimit) :
    IsPlain (decimal n) ∧ Stream.digitsValue (decimal n) = n := by
  have hread : readDigits 10 0 (decimal n) = .ok n :=
    readDigits_digits (by decide) (by decide) (Nat.lt_trans hn (by decide))
  obtain ⟨hvalues, hsum, -⟩ := (readDigits_eq_ok (by decide) (by decide) (by decide)).1 hread
  rw [Nat.zero_mul, Nat.zero_add] at hsum
  have hdigits : ∀ c ∈ decimal n, isDigit c = true := fun c hc => (isDigit_iff c).2 (hvalues c hc)
  refine ⟨⟨hdigits, fun hzero => ?_⟩, by rw [digitsValue_eq hdigits]; exact hsum⟩
  obtain rfl := eq_zero_of_head?_decimal hzero
  decide +kernel

theorem isDigits_iff {ds : Bytes} : IsDigits 10 ds ↔ ds ≠ [] ∧ ∀ c ∈ ds, isDigit c = true := by
  simp only [isDigit_iff]
  exact ⟨fun h => ⟨h.ne_nil, h.lt⟩, fun h => ⟨h.1, h.2⟩⟩

theorem isWord_of_literal {w : Bytes} {n : Nat} (h : Literal w n) : IsWord w := by
  have hdigits : ∀ {base : Nat} {ds : Bytes}, base ≤ 16 → IsDigits base ds →
      ∀ c ∈ ds, isWordByte c = true := fun hb h c hc =>
    isWordByte_of_digitValue c (Nat.lt_of_lt_of_le (h.lt c hc) hb)
  cases h with
  | decimal h => exact ⟨h.ne_nil, hdigits (by decide) h⟩
  | hexadecimal hm h =>
    refine ⟨List.cons_ne_nil _ _, List.forall_mem_cons.2 ⟨rfl, List.forall_mem_cons.2 ⟨?_, ?_⟩⟩⟩
    · rcases hm with rfl | rfl <;> rfl
    · exact hdigits (by decide) h
  | binary hm h =>
    refine ⟨List.cons_ne_nil _ _, List.forall_mem_cons.2 ⟨rfl, List.forall_mem_cons.2 ⟨?_, ?_⟩⟩⟩
    · rcases hm with rfl | rfl <;> rfl
    · exact hdigits (by decide) h

theorem isPlain_of_literal {w : Bytes} {n : Nat} (h : Literal w n) (hn : n < intLimit) :
    IsPlain (normalizeWord w) ∧ Stream.digitsValue (normalizeWord w) = n := by
  unfold normalizeWord
  split
  · rw [h.read_eq hn]
    simp only [ofInt_natCast]
    exact isPlain_decimal hn
  · rename_i hzero
    cases h with
    | decimal h =>
      obtain ⟨-, hdigits⟩ := isDigits_iff.1 h
      exact ⟨⟨hdigits, fun h => absurd h hzero⟩, digitsValue_eq hdigits⟩
    | hexadecimal _ _ => exact absurd rfl hzero
    | binary _ _ => exact absurd rfl hzero

theorem literal_of_digits {w : Bytes} (hw : w ≠ []) (h : ∀ c ∈ w, isDigit c = true) :
    Literal w (Stream.digitsValue w) := by
  rw [digitsValue_eq h]
  exact .decimal (isDigits_iff.2 ⟨hw, h⟩)

theorem digitValue_digitChar : ∀ d < 10, digitValue (byte d.digitChar) = d := by decide

theorem isDigits_decimal (n : Nat) : IsDigits 10 (decimal n) ∧ positional 10 (decimal n) = n := by
  induction n using Nat.strongRecOn with
  | ind n ih =>
    rw [decimal, digits_eq (by decide)]
    split
    · rename_i hlt
      have hvalue := digitValue_digitChar n hlt
      refine ⟨⟨List.cons_ne_nil _ _, List.forall_mem_singleton.2 (by omega)⟩, ?_⟩
      simp [positional, hvalue]
    · rename_i hge
      have hvalue := digitValue_digitChar (n % 10) (Nat.mod_lt n (by decide))
      obtain ⟨hdigits, hsum⟩ := ih (n / 10) (by omega)
      rw [decimal] at hdigits hsum
      refine ⟨⟨by simp, List.forall_mem_append.2 ⟨hdigits.lt, List.forall_mem_singleton.2 ?_⟩⟩, ?_⟩
      · omega
      · rw [positional_concat, hsum, hvalue]
        omega

/-- The digits of a number are a literal of it. -/
theorem literal_decimal (n : Nat) : Literal (decimal n) n := by
  obtain ⟨hdigits, hvalue⟩ := isDigits_decimal n
  have hliteral := Literal.decimal hdigits
  rwa [hvalue] at hliteral

theorem isWord_decimal (n : Nat) : IsWord (decimal n) := isWord_of_literal (literal_decimal n)

theorem literal_of_isPlain {w : Bytes} (hw : IsWord w) (h : IsPlain (normalizeWord w)) :
    Literal w (Stream.digitsValue (normalizeWord w)) := by
  unfold normalizeWord at h ⊢
  split at h
  · rename_i hzero
    rw [if_pos hzero]
    cases hread : Numeral.read w with
    | error e =>
      rw [hread] at h
      exact literal_of_digits hw.ne_nil h.digits
    | ok v =>
      obtain ⟨n, rfl, hliteral, hn⟩ := exists_literal_of_read hw.all hread
      simp only [ofInt_natCast, (isPlain_decimal hn).2]
      exact hliteral
  · rename_i hzero
    rw [if_neg hzero]
    exact literal_of_digits hw.ne_nil h.digits

/-! ## White space around a text -/

theorem isWord_normalizeWord {w : Bytes} (hw : IsWord w) : IsWord (normalizeWord w) := by
  unfold normalizeWord
  split
  · cases hread : Numeral.read w with
    | error e => exact hw
    | ok v =>
      obtain ⟨n, rfl, -, -⟩ := exists_literal_of_read hw.all hread
      simp only [ofInt_natCast]
      exact ⟨digits_ne_nil (by decide) n, fun c => isWordByte_of_mem_digits (by decide) (by decide)⟩
  · exact hw

/-- A map of texts that keeps the bytes before the first word, and where a word begins. -/
structure KeepsFront (f : Bytes → Bytes) : Prop where
  nil : f [] = []
  cons : ∀ {c}, isWordByte c = false → ∀ t, f (c :: t) = c :: f t
  word : ∀ {c}, isWordByte c = true → ∀ t, ∃ d u, f (c :: t) = d :: u ∧ isWordByte d = true

theorem after?_cons (c d : UInt8) (front t : Bytes) :
    Bytes.after? (c :: front) (d :: t) = if c = d then Bytes.after? front t else none := by
  by_cases h : c = d <;> simp [Bytes.after?, h]

section KeepsFront

variable {f : Bytes → Bytes} (hf : KeepsFront f)
include hf

theorem KeepsFront.after?_eq {front : Bytes} (hfront : ∀ c ∈ front, isWordByte c = false)
    (s : Bytes) : Bytes.after? front (f s) = (Bytes.after? front s).map f := by
  induction front generalizing s with
  | nil => simp [Bytes.after?]
  | cons c front ih =>
    obtain ⟨hc, hfront⟩ := List.forall_mem_cons.1 hfront
    cases s with
    | nil => simp [hf.nil, Bytes.after?]
    | cons d t =>
      cases hd : isWordByte d with
      | false =>
        rw [hf.cons hd, after?_cons, after?_cons, apply_ite (Option.map f), ih hfront]
        rfl
      | true =>
        have hne : ∀ b, isWordByte b = true → c ≠ b := by
          rintro b hb rfl
          rw [hc] at hb
          cases hb
        obtain ⟨b, u, hu, hb⟩ := hf.word hd t
        rw [hu, after?_cons, after?_cons, if_neg (hne b hb), if_neg (hne d hd)]
        rfl

theorem KeepsFront.afterAny?_eq {fronts : List Bytes}
    (hfronts : ∀ front ∈ fronts, ∀ c ∈ front, isWordByte c = false) (s : Bytes) :
    afterAny? fronts (f s) = (afterAny? fronts s).map f := by
  induction fronts with
  | nil => rfl
  | cons front fronts ih =>
    obtain ⟨hfront, hfronts⟩ := List.forall_mem_cons.1 hfronts
    unfold afterAny? at ih ⊢
    rw [List.findSome?_cons, List.findSome?_cons, hf.after?_eq hfront]
    cases front.isEmpty with
    | true => exact ih hfronts
    | false =>
      cases Bytes.after? front s with
      | none => exact ih hfronts
      | some t => rfl

theorem KeepsFront.dropAll_eq {fronts : List Bytes}
    (hfronts : ∀ front ∈ fronts, ∀ c ∈ front, isWordByte c = false) (s : Bytes) :
    dropAll fronts (f s) = f (dropAll fronts s) := by
  fun_induction dropAll fronts s with
  | case1 s h => exact dropAll_of_none (by rw [hf.afterAny?_eq hfronts, h, Option.map_none])
  | case2 s t h ih =>
    rw [dropAll_of_some (by rw [hf.afterAny?_eq hfronts, h, Option.map_some])]
    exact ih

end KeepsFront

theorem keepsFront_normalize : KeepsFront normalize where
  nil := normalize_nil
  cons hc t := normalize_cons hc t
  word := by
    intro c hc t
    obtain ⟨w, rest, hsplit, hw, hr⟩ := exists_isWord_append hc t
    obtain ⟨d, u, hd⟩ := List.exists_cons_of_ne_nil (isWord_normalizeWord hw).ne_nil
    refine ⟨d, u ++ normalize rest, ?_, (isWord_normalizeWord hw).all d (by simp [hd])⟩
    rw [hsplit, normalize_isWord_append hw hr, hd, List.cons_append]

/-- A text that ends with a byte of a word still does when it is normalised. -/
theorem isWordByte_getLast_normalize {s : Bytes} {c : UInt8} (hc : isWordByte c = true)
    (hs : s.getLast? = some c) : ∃ d, (normalize s).getLast? = some d ∧ isWordByte d = true := by
  induction s using textInduction with
  | nil => cases hs
  | cons b rest hb ih =>
    cases rest with
    | nil =>
      obtain rfl : b = c := by simpa using hs
      rw [hb] at hc
      cases hc
    | cons a rest =>
      obtain ⟨d, hd, hword⟩ := ih hs
      refine ⟨d, ?_, hword⟩
      rw [normalize_cons hb, List.getLast?_cons, hd]
      rfl
  | append w rest hw hr ih =>
    rw [normalize_isWord_append hw hr, List.getLast?_append]
    cases rest with
    | nil =>
      have hne := (isWord_normalizeWord hw).ne_nil
      refine ⟨(normalizeWord w).getLast hne, ?_, ?_⟩
      · rw [normalize_nil, List.getLast?_nil, Option.none_or, List.getLast?_eq_getLast_of_ne_nil]
      · exact (isWord_normalizeWord hw).all _ (List.getLast_mem hne)
    | cons a rest =>
      obtain ⟨d, hd, hword⟩ := ih (by simpa using hs)
      exact ⟨d, by rw [hd, Option.some_or], hword⟩

theorem keepsFront_reverse : KeepsFront fun t => (normalize t.reverse).reverse where
  nil := by simp
  cons := by
    intro c hc t
    have hjoin : ∀ a ∈ t.reverse.getLast?, ∀ b ∈ [c].head?, joins a b = false := by
      intro a _ b hb
      obtain rfl := Option.some.inj hb
      simp [joins, hc]
    rw [List.reverse_cons, normalize_append hjoin, normalize_cons hc, normalize_nil,
      List.reverse_append]
    rfl
  word := by
    intro c hc t
    obtain ⟨d, hd, hword⟩ := isWordByte_getLast_normalize (s := (c :: t).reverse) hc (by simp)
    rw [← List.head?_reverse] at hd
    obtain ⟨u, hu⟩ := List.head?_eq_some_iff.1 hd
    exact ⟨d, u, hu, hword⟩

theorem trim_normalize (s : Bytes) : trim (normalize s) = normalize (trim s) := by
  have hreversed : ∀ front ∈ blanks.map List.reverse, ∀ c ∈ front, isWordByte c = false := by
    intro x hx c hc
    obtain ⟨y, hy, rfl⟩ := List.mem_map.1 hx
    exact isWordByte_of_mem_blanks y hy c (List.mem_reverse.1 hc)
  have hback := keepsFront_reverse.dropAll_eq hreversed (dropAll blanks s).reverse
  simp only [List.reverse_reverse] at hback
  rw [trim, trim, keepsFront_normalize.dropAll_eq isWordByte_of_mem_blanks, hback,
    List.reverse_reverse]

end Asm16.Arith
