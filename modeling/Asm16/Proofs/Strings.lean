import Asm16.Proofs.ExpressionTexts

/-!
# Strings

A character that was written as UTF-8 is read back (`Utf8.char?_encode`), so a text is the list of
its characters (`Utf8.chars_ofString`). A string literal is read up to its closing quote, whatever
follows it (`Lexer.string?_append`), and with a backslash before each quote and each backslash its
contents are the text that was written (`Lexer.string?_escaped`).
-/

namespace Asm16

theorem Bytes.ofString_eq (s : String) : Bytes.ofString s = s.toList.flatMap Utf8.encode := by
  rw [Bytes.ofString, ← String.utf8Encode_toList, List.utf8Encode, List.toList_data_toByteArray]
  rfl

namespace Utf8

/-! ## Characters -/

theorem tail?_ofNat {n : Nat} (h : n < 64) : tail? (UInt8.ofNat (n + 0x80)) = some n := by
  have htoNat : (UInt8.ofNat (n + 0x80)).toNat = n + 0x80 :=
    UInt8.toNat_ofNat_of_lt' (Nat.lt_of_lt_of_le (Nat.add_lt_add_right h 0x80) (by decide))
  rw [tail?, if_pos, htoNat, Nat.add_sub_cancel]
  rw [UInt8.le_iff_toNat_le, UInt8.lt_iff_toNat_lt, htoNat]
  exact ⟨Nat.le_add_left _ _, Nat.add_lt_add_right h 0x80⟩

theorem scalar?_toNat {least : Nat} {c : Char} (h : least ≤ c.toNat) :
    scalar? least c.toNat = some c := by
  rw [scalar?, if_pos ⟨h, c.valid⟩, Char.ofNat_toNat]

theorem lt_iff_of_toNat {a : UInt8} {n : Nat} (ha : a.toNat = n) (k : UInt8) :
    a < k ↔ n < k.toNat := by
  rw [UInt8.lt_iff_toNat_lt, ha]

/-- The character that was written is read back, whatever follows it. -/
theorem char?_encode (c : Char) (rest : Bytes) :
    char? (encode c ++ rest) = some (c, (encode c).length) := by
  have hvalid : c.toNat < 0x110000 := by
    have := c.valid
    simp only [UInt32.isValidChar, Nat.isValidChar] at this
    rw [Char.toNat]
    omega
  have hlead {n : Nat} (hn : n < 256) : (UInt8.ofNat n).toNat = n := UInt8.toNat_ofNat_of_lt' hn
  unfold encode String.utf8EncodeChar
  rw [show c.val.toNat = c.toNat from rfl]
  dsimp only
  split_ifs with h₁ h₂ h₃
  · have ha := hlead (n := c.toNat) (by omega)
    simp only [char?, List.cons_append, List.nil_append, lt_iff_of_toNat ha]
    rw [if_pos (by simp; omega), ha, Char.ofNat_toNat]
    rfl
  · have ha := hlead (n := c.toNat / 64 % 32 + 192) (by omega)
    simp only [char?, List.cons_append, List.nil_append, lt_iff_of_toNat ha, ha]
    rw [if_neg (by simp), if_neg (by simp), if_pos (by simp; omega),
      tail?_ofNat (Nat.mod_lt _ (by decide))]
    simp only [Option.bind_eq_bind, Option.bind_some]
    rw [show (c.toNat / 64 % 32 + 192 - 0xc0) * 64 + c.toNat % 64 = c.toNat by omega,
      scalar?_toNat (by omega)]
    rfl
  · have ha := hlead (n := c.toNat / 4096 % 16 + 224) (by omega)
    simp only [char?, List.cons_append, List.nil_append, lt_iff_of_toNat ha, ha]
    rw [if_neg (by simp), if_neg (by simp), if_neg (by simp), if_pos (by simp; omega),
      tail?_ofNat (Nat.mod_lt _ (by decide)), tail?_ofNat (Nat.mod_lt _ (by decide))]
    simp only [Option.bind_eq_bind, Option.bind_some]
    rw [show ((c.toNat / 4096 % 16 + 224 - 0xe0) * 64 + c.toNat / 64 % 64) * 64 + c.toNat % 64 =
        c.toNat by omega, scalar?_toNat (by omega)]
    rfl
  · have ha := hlead (n := c.toNat / 262144 % 8 + 240) (by omega)
    simp only [char?, List.cons_append, List.nil_append, lt_iff_of_toNat ha, ha]
    rw [if_neg (by simp), if_neg (by simp), if_neg (by simp), if_neg (by simp),
      tail?_ofNat (Nat.mod_lt _ (by decide)), tail?_ofNat (Nat.mod_lt _ (by decide)),
      tail?_ofNat (Nat.mod_lt _ (by decide))]
    simp only [Option.bind_eq_bind, Option.bind_some]
    rw [show (((c.toNat / 262144 % 8 + 240 - 0xf0) * 64 + c.toNat / 4096 % 64) * 64 +
        c.toNat / 64 % 64) * 64 + c.toNat % 64 = c.toNat by omega, scalar?_toNat (by omega)]
    rfl

/-- A byte of the ASCII range is a character of its own. -/
theorem toNat_of_mem_encode {c : Char} {b : UInt8} (hb : b ∈ encode c) (hlow : b < 0x80) :
    c.toNat = b.toNat := by
  have hlead {n : Nat} (hn : n < 256) : (UInt8.ofNat n).toNat = n := UInt8.toNat_ofNat_of_lt' hn
  have hlow : b.toNat < 0x80 := UInt8.lt_iff_toNat_lt.1 hlow
  unfold encode String.utf8EncodeChar at hb
  rw [show c.val.toNat = c.toNat from rfl] at hb
  dsimp only at hb
  split_ifs at hb with h₁ h₂ h₃
  · rw [List.mem_singleton.1 hb, hlead (by omega)]
  all_goals
    simp only [List.mem_cons, List.not_mem_nil, or_false] at hb
    rcases hb with rfl | rfl | rfl | rfl <;> rw [hlead (by omega)] at hlow <;> omega

theorem exists_encode_eq (c : Char) : ∃ a more, encode c = a :: more :=
  List.exists_cons_of_ne_nil String.utf8EncodeChar_ne_nil

/-- The next character of a text that begins with a written one. -/
theorem next_encode {c : Char} {a : UInt8} {more : Bytes} (h : encode c = a :: more)
    (rest : Bytes) : next a (more ++ rest) = (c, rest) := by
  have hchar := char?_encode c rest
  rw [h, List.cons_append] at hchar
  rw [next, hchar]
  simp

/-- The characters of a text that was written are those it was written from. -/
theorem chars_flatMap_encode (cs : List Char) : chars (cs.flatMap encode) = cs := by
  induction cs with
  | nil => rw [List.flatMap_nil, chars]
  | cons c cs ih =>
    obtain ⟨a, more, h⟩ := exists_encode_eq c
    rw [List.flatMap_cons, h, List.cons_append, chars, next_encode h, ih]

theorem chars_ofString (s : String) : chars (Bytes.ofString s) = s.toList := by
  rw [Bytes.ofString_eq, chars_flatMap_encode]

/-- A byte that continues no character leaves broken what is broken before it. -/
theorem char?_append_of_none {c d : UInt8} {rest : Bytes} (h : char? (c :: rest) = none)
    (hd : d ∈ rest) (hplain : tail? d = none) (tail : Bytes) :
    char? (c :: (rest ++ tail)) = none := by
  unfold char? at h ⊢
  simp only at h ⊢
  split_ifs at h ⊢ with h₁ h₂ h₃ h₄
  · rfl
  · match rest with
    | b :: more => exact h
  · match rest with
    | [b] =>
      obtain rfl := List.mem_singleton.1 hd
      cases tail <;> simp [hplain]
    | b :: c :: more => exact h
  · match rest with
    | [b] =>
      obtain rfl := List.mem_singleton.1 hd
      match tail with
      | [] | [_] => rfl
      | _ :: _ :: _ => simp [hplain]
    | [b, b'] =>
      cases tail with
      | nil => rfl
      | cons t tail =>
        rcases List.mem_cons.1 hd with rfl | hd
        · simp [hplain]
        · obtain rfl := List.mem_singleton.1 hd
          simp [hplain]
    | b :: b' :: b'' :: more => exact h

end Utf8

namespace Lexer

/-! ## String literals -/

theorem quote_mem_of_string? {body contents after : Bytes}
    (h : string? body = some (contents, after)) : byte '"' ∈ body := by
  fun_induction string? body generalizing contents after with
  | case1 => cases h
  | case2 rest => exact List.mem_cons_self
  | case3 => cases h
  | case4 c d more ih =>
    simp only [Option.bind_eq_bind, Option.bind_eq_some_iff] at h
    obtain ⟨ch, -, ⟨cs, af⟩, hs, -⟩ := h
    exact List.mem_cons_of_mem _ (List.mem_cons_of_mem _ (ih hs))
  | case5 c rest _ _ ih =>
    simp only [Option.bind_eq_bind, Option.bind_eq_some_iff] at h
    obtain ⟨⟨cs, af⟩, hs, -⟩ := h
    exact List.mem_cons_of_mem _ ((isSuffix_next c rest).mem (ih hs))

/-- Before the end of a string a character is the same with more text behind. -/
theorem next_append_of_quote_mem {c : UInt8} {rest : Bytes} (h : byte '"' ∈ rest) (tail : Bytes) :
    Utf8.next c (rest ++ tail) = ((Utf8.next c rest).1, (Utf8.next c rest).2 ++ tail) := by
  cases hchar : Utf8.char? (c :: rest) with
  | some p => exact Utf8.next_append hchar tail
  | none =>
    have hnone := Utf8.char?_append_of_none hchar h rfl tail
    unfold Utf8.next
    rw [hchar, hnone]

theorem string?_quote (rest : Bytes) : string? (byte '"' :: rest) = some ([], rest) := by
  rw [string?.eq_def]
  exact if_pos rfl

theorem string?_escape {d : UInt8} {ch : Char} (hd : escape? d = some ch) (more : Bytes) :
    string? (byte '\\' :: d :: more) =
      (string? more).map fun p => (Utf8.encode ch ++ p.1, p.2) := by
  rw [string?.eq_def]
  simp only [if_neg (show byte '\\' ≠ byte '"' by decide), if_true, hd]
  cases string? more <;> rfl

theorem string?_cons {c : UInt8} (hquote : c ≠ byte '"') (hslash : c ≠ byte '\\') (rest : Bytes) :
    string? (c :: rest) =
      (string? (Utf8.next c rest).2).map fun p =>
        (Utf8.encode (Utf8.next c rest).1 ++ p.1, p.2) := by
  rw [string?.eq_def]
  simp only [if_neg hquote, if_neg hslash]
  cases string? (Utf8.next c rest).2 <;> rfl

theorem string?_append {body contents after : Bytes} (h : string? body = some (contents, after))
    (tail : Bytes) : string? (body ++ tail) = some (contents, after ++ tail) := by
  fun_induction string? body generalizing contents after with
  | case1 => cases h
  | case2 rest =>
    obtain ⟨rfl, rfl⟩ := Prod.mk.inj (Option.some.inj h)
    exact string?_quote (rest ++ tail)
  | case3 => cases h
  | case4 hne d more ih =>
    simp only [Option.bind_eq_bind, Option.bind_eq_some_iff] at h
    obtain ⟨ch, hch, ⟨cs, af⟩, hs, he⟩ := h
    obtain ⟨rfl, rfl⟩ := Prod.mk.inj (Option.some.inj he)
    rw [List.cons_append, List.cons_append, string?_escape hch, ih hs]
    rfl
  | case5 c rest hquote hslash ih =>
    simp only [Option.bind_eq_bind, Option.bind_eq_some_iff] at h
    obtain ⟨⟨cs, af⟩, hs, he⟩ := h
    obtain ⟨rfl, rfl⟩ := Prod.mk.inj (Option.some.inj he)
    have hmem : byte '"' ∈ rest := (isSuffix_next c rest).mem (quote_mem_of_string? hs)
    rw [List.cons_append, string?_cons hquote hslash, next_append_of_quote_mem hmem, ih hs]
    rfl

/-! ## Escaped texts -/

/-- A text with a backslash before each double quote and each backslash. -/
def escaped (s : Bytes) : Bytes :=
  s.flatMap fun c => if c = byte '"' ∨ c = byte '\\' then [byte '\\', c] else [c]

theorem escaped_append (s t : Bytes) : escaped (s ++ t) = escaped s ++ escaped t :=
  List.flatMap_append

/-- The bytes of the other characters are none of the two. -/
theorem ne_of_mem_encode {c : Char} (hquote : c ≠ '"') (hslash : c ≠ '\\') {b : UInt8}
    (hb : b ∈ Utf8.encode c) : b ≠ byte '"' ∧ b ≠ byte '\\' := by
  constructor
  · rintro rfl
    exact hquote (Char.toNat_inj.1 (Utf8.toNat_of_mem_encode hb (by decide)))
  · rintro rfl
    exact hslash (Char.toNat_inj.1 (Utf8.toNat_of_mem_encode hb (by decide)))

theorem escaped_of_forall_ne {s : Bytes} (h : ∀ b ∈ s, b ≠ byte '"' ∧ b ≠ byte '\\') :
    escaped s = s := by
  induction s with
  | nil => rfl
  | cons b s ih =>
    obtain ⟨hb, hs⟩ := List.forall_mem_cons.1 h
    rw [escaped, List.flatMap_cons, if_neg (not_or.2 hb), ← escaped, ih hs]
    rfl

/-- One character of an escaped text. -/
theorem string?_escaped_encode (c : Char) (rest : Bytes) :
    string? (escaped (Utf8.encode c) ++ rest) =
      (string? rest).map fun p => (Utf8.encode c ++ p.1, p.2) := by
  by_cases hquote : c = '"'
  · subst hquote
    exact string?_escape (d := byte '"') rfl rest
  by_cases hslash : c = '\\'
  · subst hslash
    exact string?_escape (d := byte '\\') rfl rest
  obtain ⟨a, more, h⟩ := Utf8.exists_encode_eq c
  have hne := fun b hb => ne_of_mem_encode hquote hslash (b := b) hb
  obtain ⟨ha, ha'⟩ := hne a (h ▸ List.mem_cons_self)
  rw [escaped_of_forall_ne hne, h, List.cons_append, string?_cons ha ha', Utf8.next_encode h, ← h]

/-- An escaped text is read back as the contents of a string. -/
theorem string?_escaped (s : String) (rest : Bytes) :
    string? (escaped (Bytes.ofString s) ++ byte '"' :: rest) = some (Bytes.ofString s, rest) := by
  rw [Bytes.ofString_eq]
  induction s.toList with
  | nil => exact string?_quote rest
  | cons c cs ih =>
    rw [List.flatMap_cons, escaped_append, List.append_assoc, string?_escaped_encode, ih]
    rfl

end Lexer

end Asm16
