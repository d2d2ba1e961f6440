import Asm16.Proofs.Alike
import Asm16.Proofs.Cycles
import Asm16.Proofs.Leftover
import Mathlib.Data.List.TakeWhile

/-!
# The replacement text of a define

Two scans decide where the replacement text of a define ends. The parameters of the directive end at
a semicolon outside quotes (`Lexer.parametersOf`). What stands behind the key in them is cut again
at the first semicolon or line break, in quotes or not (`Define.upToBreak`), so all of it is kept
only if there is none.

White space around the text changes nothing in this : expansion leaves it where it is
(`Defines.expand_surrounded`), and trimming takes it away (`trim_surrounded`).
-/

namespace Asm16

/-! ## White space around a text -/

theorem isBlank_cases {c : UInt8} (h : isBlank c = true) :
    c = 0x20 ∨ c = 0x09 ∨ c = 0x0a ∨ c = 0x0b ∨ c = 0x0c ∨ c = 0x0d := by
  unfold isBlank at h
  grind

section Blanks

variable {c : UInt8} (hc : isBlank c = true)
include hc

theorem dropAll_blanks_cons (s : Bytes) : dropAll blanks (c :: s) = dropAll blanks s := by
  refine dropAll_of_some ?_
  rcases isBlank_cases hc with rfl | rfl | rfl | rfl | rfl | rfl <;> rfl

theorem dropAll_reverse_blanks_cons (s : Bytes) :
    dropAll (blanks.map List.reverse) (c :: s) = dropAll (blanks.map List.reverse) s := by
  refine dropAll_of_some ?_
  rcases isBlank_cases hc with rfl | rfl | rfl | rfl | rfl | rfl <;> rfl

/-- No longer sequence of white space has such a byte in it. -/
theorem isPrefix_of_mem_blanks {s front : Bytes} (hs : s ≠ []) (hfront : front ∈ blanks)
    (h : front <+: s ++ [c]) : front <+: s := by
  have hsingle : ∀ front ∈ blanks, ∀ d ∈ front, isBlank d = true → front = [d] := by
    decide +kernel
  rcases List.prefix_concat_iff.1 h with rfl | h
  · have := hsingle _ hfront c (by simp) hc
    simp [hs] at this
  · exact h

theorem after?_append {s front : Bytes} (hs : s ≠ []) (hfront : front ∈ blanks) :
    Bytes.after? front (s ++ [c]) = (Bytes.after? front s).map (· ++ [c]) := by
  by_cases h : front <+: s
  · have hlonger : front <+: s ++ [c] := h.trans (List.prefix_append s [c])
    simp [Bytes.after?, h, hlonger, List.drop_append_of_le_length h.length_le]
  · have hlonger : ¬front <+: s ++ [c] := fun hp => h (isPrefix_of_mem_blanks hc hs hfront hp)
    simp [Bytes.after?, h, hlonger]

theorem afterAny?_blanks_append {s : Bytes} (hs : s ≠ []) :
    afterAny? blanks (s ++ [c]) = (afterAny? blanks s).map (· ++ [c]) := by
  have hafter {front : Bytes} (h : front ∈ blanks) := after?_append hc hs h
  unfold afterAny?
  generalize blanks = fronts at hafter
  induction fronts with
  | nil => rfl
  | cons front fronts ih =>
    have ih := ih fun h => hafter (List.mem_cons_of_mem _ h)
    rw [List.findSome?_cons, List.findSome?_cons, hafter List.mem_cons_self]
    cases front.isEmpty with
    | true => exact ih
    | false =>
      cases Bytes.after? front s with
      | none => exact ih
      | some t => rfl

/-- Cutting white space off the front takes a byte at the end only if nothing else is left. -/
theorem dropAll_blanks_append (s : Bytes) :
    dropAll blanks (s ++ [c]) = if dropAll blanks s = [] then [] else dropAll blanks s ++ [c] := by
  fun_induction dropAll blanks s with
  | case1 s h =>
    by_cases hs : s = []
    · subst hs
      rw [List.nil_append, dropAll_blanks_cons hc, dropAll_of_none h, if_pos rfl]
    · rw [if_neg hs]
      refine dropAll_of_none ?_
      rw [afterAny?_blanks_append hc hs, h]
      rfl
  | case2 s t h ih =>
    have hs : s ≠ [] := by
      rintro rfl
      exact absurd (afterAny?_lt h) (by simp)
    rw [← ih]
    refine dropAll_of_some ?_
    rw [afterAny?_blanks_append hc hs, h]
    rfl

theorem trim_cons (s : Bytes) : trim (c :: s) = trim s := by
  rw [trim, dropAll_blanks_cons hc, trim]

theorem trim_concat (s : Bytes) : trim (s ++ [c]) = trim s := by
  rw [trim, dropAll_blanks_append hc, trim]
  split
  · rename_i hnil
    rw [hnil]
  · rw [List.reverse_concat, dropAll_reverse_blanks_cons hc]

end Blanks

/-- White space around a text is trimmed with it. -/
theorem trim_surrounded {front back : Bytes} (hfront : ∀ c ∈ front, isBlank c = true)
    (hback : ∀ c ∈ back, isBlank c = true) (s : Bytes) : trim (front ++ s ++ back) = trim s := by
  induction front with
  | nil =>
    induction back generalizing s with
    | nil => rw [List.nil_append, List.append_nil]
    | cons c back ih =>
      obtain ⟨hc, hback⟩ := List.forall_mem_cons.1 hback
      rw [List.nil_append, List.append_cons, ← List.nil_append (s ++ [c]), ih hback, trim_concat hc]
  | cons c front ih =>
    obtain ⟨hc, hfront⟩ := List.forall_mem_cons.1 hfront
    rw [List.cons_append, List.cons_append, trim_cons hc, ih hfront]

/-! ## Texts between bytes of no word -/

namespace Defines

variable {entries : List Define} {front back : Bytes}

section Surrounded

variable (hw : ∀ d ∈ entries, IsWord d.key) (hfront : ∀ c ∈ front, isWordByte c = false)
  (hback : ∀ c ∈ back, isWordByte c = false)
include hw hfront hback

theorem sweep_surrounded (s : Bytes) :
    sweep entries (front ++ s ++ back) = front ++ sweep entries s ++ back := by
  have hwordless (t : Bytes) {u : Bytes} (hu : ∀ c ∈ u, isWordByte c = false) :
      sweep entries (u ++ t) = u ++ sweep entries t := by
    induction u with
    | nil => rfl
    | cons c u ih =>
      obtain ⟨hc, hu⟩ := List.forall_mem_cons.1 hu
      rw [List.cons_append, sweep_cons hw hc, ih hu, List.cons_append]
  rw [List.append_assoc, hwordless _ hfront, sweep_append hw, List.append_assoc]
  · congr 2
    have := hwordless [] hback
    rwa [sweep_nil hw, List.append_nil] at this
  · exact fun c hc => hback c (List.mem_of_mem_head? hc)

theorem settle_surrounded (n : Nat) (s : Bytes) (changed : Bool) :
    settle entries n (front ++ s ++ back) changed =
      (settle entries n s changed).map fun r => (front ++ r.1 ++ back, r.2) := by
  have hsame {t u : Bytes} : front ++ t ++ back = front ++ u ++ back ↔ t = u := by
    rw [List.append_left_inj, List.append_right_inj]
  induction n generalizing s changed with
  | zero =>
    unfold settle
    simp only [sweep_surrounded hw hfront hback, hsame]
    split <;> rfl
  | succ n ih =>
    unfold settle
    simp only [sweep_surrounded hw hfront hback, hsame, ih]
    split <;> rfl

end Surrounded

/-- What stands around a text is left as it is, if there is no word in it. -/
theorem expand_surrounded {ds : Defines} (hw : ∀ d ∈ ds.entries, IsWord d.key)
    (hfront : ∀ c ∈ front, isWordByte c = false) (hback : ∀ c ∈ back, isWordByte c = false)
    {s t : Bytes} {b : Bool} (h : ds.expand s = .ok (t, b)) :
    ds.expand (front ++ s ++ back) = .ok (front ++ t ++ back, b) := by
  rw [expand, settle_surrounded hw hfront hback, settle_of_expand h]
  rfl

end Defines

/-! ## Define lines -/

namespace Define

/-- A text up to the first break behind the white space at its front. -/
def upToBreak (t : Bytes) : Bytes :=
  t.takeWhile isGap ++ (t.dropWhile isGap).takeWhile (!isBreak ·)

theorem upToBreak_eq_self {t : Bytes} (h : ∀ c ∈ t.dropWhile isGap, isBreak c = false) :
    upToBreak t = t := by
  have htake : (t.dropWhile isGap).takeWhile (!isBreak ·) = t.dropWhile isGap :=
    List.takeWhile_eq_self_iff.2 fun c hc => by simp [h c hc]
  rw [upToBreak, htake, List.takeWhile_append_dropWhile]

theorem isBlank_of_isGap {c : UInt8} (h : isGap c = true) : isBlank c = true :=
  (Bool.and_eq_true_iff.1 h).1

end Define

/-- Tables stay built. -/
theorem Defines.keptByLines_built : KeptByLines fun p => p.defines.Built := by
  intro doc number raw p line q hline hp
  obtain ⟨r, ds, happly, -, -, rfl⟩ := readLine_eq_ok.1 hline
  cases applyDefines_eq_ok.1 happly with
  | define _ _ _ hd hadd => exact hp.add hd hadd
  | inclusion | plain => exact hp

/-- The replacement text that is cut out and the text up to a break are expanded to the same, apart
from white space around it. -/
theorem Define.Cut.exists_expand {params value : Bytes} {parts : Define.Parts} {ds : Defines}
    {changed : Bool} (h : Define.Cut params parts) (hds : ds.Built)
    (hexpand : ds.expand parts.value = .ok (value, changed)) :
    ∃ t, ds.expand (upToBreak (textOf params)) = .ok (t, changed) ∧ trim t = trim value := by
  obtain ⟨blank, hvalue, hblank⟩ := h.value_eq
  have hgap : ∀ c ∈ (textOf params).takeWhile isGap, isBlank c = true :=
    fun c hc => isBlank_of_isGap (List.mem_takeWhile_imp hc)
  refine ⟨_, ?_, trim_surrounded hgap hblank value⟩
  rw [upToBreak, hvalue, ← List.append_assoc]
  exact Defines.expand_surrounded hds.keyed.isWord (fun c hc => isWordByte_of_isBlank (hgap c hc))
    (fun c hc => isWordByte_of_isBlank (hblank c hc)) hexpand

namespace Assembler

variable {asm : Assembler} {name text : Bytes} {s after : Place} {line : Line}

theorem exists_addDefines {defines : Defines} (h : asm.initialDefines = .ok defines) :
    ∃ pairs, addDefines ⟨asm.defineLimit, []⟩ pairs = .ok defines := by
  unfold initialDefines at h
  split at h
  · rename_i ds hadd
    obtain rfl : ds = defines := Except.ok.inj h
    exact ⟨_, hadd⟩
  · cases h

theorem ComesBy.built (h : asm.ComesBy name text s) : s.progress.defines.Built := by
  obtain ⟨defines, hd, hreaches⟩ := h
  obtain ⟨pairs, hadd⟩ := exists_addDefines hd
  exact hreaches.kept Defines.keptByLines_built ((Defines.Built.empty _).addDefines hadd)

/-- Of its parameters behind the key a define line keeps the text up to a break, expanded and
trimmed. That is all of it if there is no break. -/
theorem define_keeps_text_up_to_break {word params : Bytes} (hs : asm.ComesBy name text s)
    (ht : s.Takes line after)
    (hdirective : (Reading.ofText .initial line.raw).directive = some ⟨.define, word, params⟩) :
    ∃ x y value changed, line.raw = x ++ params ++ y ∧ params = Lexer.parametersOf (params ++ y) ∧
      s.progress.defines.expand (Define.upToBreak (Define.textOf params)) = .ok (value, changed) ∧
      after.progress.defines = { s.progress.defines with
        entries := s.progress.defines.entries ++
          [⟨Define.keyOf params, trim value, some line.site⟩] } ∧
      ((∀ c ∈ (Define.textOf params).dropWhile Define.isGap, Define.isBreak c = false) →
        s.progress.defines.expand (Define.textOf params) = .ok (value, changed)) := by
  obtain ⟨raw, rest, q, -, hline, rfl⟩ := ht
  obtain ⟨r, ds, happly, -, rfl, rfl⟩ := readLine_eq_ok.1 hline
  obtain ⟨parts, v, changed, hparts, hv, -, hds⟩ :=
    (applyDefines_eq_ok.1 happly).of_define hdirective
  obtain ⟨x, y, hraw, hparams, -⟩ := exists_directive_rewrite hdirective hparts
  have hcut := Define.cut_of_split hparts
  obtain ⟨value, hexpand, htrim⟩ := hcut.exists_expand hs.built hv
  refine ⟨x, y, value, changed, hraw, hparams, hexpand, ?_, fun hbreak => ?_⟩
  · rw [hds, hcut.key_eq, htrim]
    rfl
  · rwa [Define.upToBreak_eq_self hbreak] at hexpand

/-- Quotes, escapes and an earlier define in a replacement text. -/
def quotingText : Bytes := "#define K \t A+'A' \"x\\\"y\"  ; note"

theorem quoting_define_keeps_text :
    ∃ s line after value changed, ComesBy { predefines := [("A", "1")] } "m" quotingText s ∧
      s.Takes line after ∧ (Reading.ofText .initial line.raw).directive =
        some ⟨.define, "#define", "K \t A+'A' \"x\\\"y\""⟩ ∧
      s.progress.defines.expand " \t A+'A' \"x\\\"y\"" = .ok (value, changed) ∧
      after.progress.defines.entries = s.progress.defines.entries ++
        [⟨"K", trim value, some line.site⟩] := by
  have hd : initialDefines { predefines := [("A", "1")] } = .ok ⟨0, [⟨"A", "1", none⟩]⟩ := by
    decide +kernel
  have hs : ComesBy { predefines := [("A", "1")] } "m" quotingText
      (opening {} "m" quotingText ⟨0, [⟨"A", "1", none⟩]⟩) := ⟨_, hd, .refl⟩
  obtain ⟨⟨line, q⟩, hline, hp⟩ := exists_ok
    (x := (readLine ⟨"m", []⟩ 1 quotingText
      ⟨⟨0, [⟨"A", "1", none⟩]⟩, .empty false, [], 0, []⟩).result)
    (p := fun r => (Reading.ofText .initial r.1.raw).directive ==
      some ⟨.define, "#define", "K \t A+'A' \"x\\\"y\""⟩) (by decide +kernel)
  have ht : (opening {} "m" quotingText ⟨0, [⟨"A", "1", none⟩]⟩).Takes line _ :=
    ⟨quotingText, [], q, by decide +kernel, hline, rfl⟩
  have hdirective := eq_of_beq hp
  obtain ⟨x, y, value, changed, -, -, -, hds, hwhole⟩ :=
    define_keeps_text_up_to_break hs ht hdirective
  exact ⟨_, line, _, value, changed, hs, ht, hdirective, hwhole (by decide +kernel),
    congrArg Defines.entries hds⟩

/-- A semicolon in quotes is part of the parameters, and the replacement text ends before it. -/
theorem quoted_semicolon_cuts_text :
    ∃ s line after, ComesBy {} "m" "#define S \"a;b\"" s ∧ s.Takes line after ∧
      (Reading.ofText .initial line.raw).directive = some ⟨.define, "#define", "S \"a;b\""⟩ ∧
      s.progress.defines.expand (Define.textOf "S \"a;b\"") = .ok (" \"a;b\"", false) ∧
      trim " \"a;b\"" = "\"a;b\"" ∧
      after.progress.defines.entries.map (·.value) = ["\"a"] := by
  have hd : initialDefines {} = .ok ⟨0, []⟩ := by decide +kernel
  obtain ⟨⟨line, q⟩, hline, hp⟩ := exists_ok
    (x := (readLine ⟨"m", []⟩ 1 "#define S \"a;b\"" ⟨⟨0, []⟩, .empty false, [], 0, []⟩).result)
    (p := fun r => (Reading.ofText .initial r.1.raw).directive ==
      some ⟨.define, "#define", "S \"a;b\""⟩ && r.2.defines.entries.map (·.value) == ["\"a"])
    (by decide +kernel)
  obtain ⟨hdirective, hvalue⟩ := Bool.and_eq_true_iff.1 hp
  exact ⟨opening {} "m" "#define S \"a;b\"" ⟨0, []⟩, line, _, ⟨_, hd, .refl⟩,
    ⟨_, [], q, by decide +kernel, hline, rfl⟩, eq_of_beq hdirective, by decide +kernel,
    by decide +kernel, eq_of_beq hvalue⟩

end Assembler

end Asm16
