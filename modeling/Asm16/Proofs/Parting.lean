import Asm16.Proofs.Arithmetic

/-!
# Texts with one spelling

A text may spell more than one list of symbols : `12` is a number or two numbers, `//` a division or
two. With the symbols of a source line, and numbers that end where their word ends, there is only
one list (`Parted.eq`).

The symbols of an expression are of that kind in any text without `//` (`Derives.parted`), since a
number never follows a number in an expression. So if such a text is cut into symbols in that way,
`evaluate` reads the same symbols (`Parted.evaluate_eq_ok`), and white space at the ends of the text
does not matter (`Spelled.trim`).
-/

namespace Asm16.Arith

open Numeral

/-! ## Cut texts -/

/-- The marks of a source line. -/
def sourceMarks : List Symbol :=
  [.plus, .minus, .star, .slash, .percent, .amp, .pipe, .caret, .tilde, .shiftLeft, .shiftRight,
    .parenOpen, .parenClose]

/-- A text is cut into the marks of a source line and numbers that are whole words. -/
inductive Parted : List Symbol → Bytes → Prop
  | nil {g : Bytes} (hg : IsGap g) : Parted [] g
  | int {n : Nat} {syms : List Symbol} {g w t : Bytes} (hg : IsGap g) (hw : Literal w n)
    (ht : ∀ c, t.head? = some c → isWordByte c = false) (h : Parted syms t) :
    Parted (.int n :: syms) (g ++ w ++ t)
  | mark {symbol : Symbol} {syms : List Symbol} {g t : Bytes} (hg : IsGap g)
    (hs : symbol ∈ sourceMarks) (h : Parted syms t) :
    Parted (symbol :: syms) (g ++ symbol.spelling ++ t)

theorem isMark_of_mem_sourceMarks : ∀ symbol ∈ sourceMarks, symbol.isMark = true := by decide

/-- A mark of a source line is known by its first byte. -/
theorem eq_of_head?_spelling : ∀ symbol ∈ sourceMarks, ∀ symbol' ∈ sourceMarks,
    symbol.spelling.head? = symbol'.spelling.head? → symbol = symbol' := by
  decide +kernel

theorem Parted.spelled {syms : List Symbol} {s : Bytes} (h : Parted syms s) : Spelled syms s := by
  induction h with
  | nil hg => exact .nil hg
  | int hg hw _ _ ih => exact .cons hg (.int hw) ih
  | mark hg hs _ ih => exact .cons hg (.mark (isMark_of_mem_sourceMarks _ hs)) ih

theorem Parted.gap_append {syms : List Symbol} {g s : Bytes} (hg : IsGap g) (h : Parted syms s) :
    Parted syms (g ++ s) := by
  cases h with
  | nil hg' => exact .nil (hg.append hg')
  | int hg' hw ht h =>
    rw [← List.append_assoc, ← List.append_assoc]
    exact .int (hg.append hg') hw ht h
  | mark hg' hs h =>
    rw [← List.append_assoc, ← List.append_assoc]
    exact .mark (hg.append hg') hs h

/-! ## Bytes -/

theorem IsGap.isBlank_eq {g : Bytes} (hg : IsGap g) : ∀ c ∈ g, isBlank c = true := by
  intro c hc
  rcases hg c hc with rfl | rfl <;> rfl

theorem Symbol.isBlank_of_isMark {symbol : Symbol} (h : symbol.isMark = true) :
    ∀ c ∈ symbol.spelling, isBlank c = false := by
  cases symbol with
  | int n => cases h
  | _ => decide +kernel

/-- A symbol is written with at least one byte, and no white space. -/
theorem Symbol.Spells.solid {symbol : Symbol} {w : Bytes} (h : symbol.Spells w) :
    w ≠ [] ∧ ∀ c ∈ w, isBlank c = false := by
  cases h with
  | int hw =>
    have hword := isWord_of_literal hw
    exact ⟨hword.ne_nil, fun c hc => isBlank_of_isWordByte (hword.all c hc)⟩
  | mark hm => exact ⟨(Symbol.spelling_of_isMark hm).1, Symbol.isBlank_of_isMark hm⟩

theorem head?_solid {w t : Bytes} (h : w ≠ [] ∧ ∀ c ∈ w, isBlank c = false) :
    ∀ c, (w ++ t).head? = some c → isBlank c = false := by
  intro c hc
  rw [List.head?_append_of_ne_nil _ h.1] at hc
  exact h.2 c (List.mem_of_head? hc)

/-- Where a run of bytes of one class ends, it ends in every way to cut the text. -/
theorem append_inj_of_head? {p : UInt8 → Bool} {x x' r r' : Bytes} (hx : ∀ c ∈ x, p c = true)
    (hx' : ∀ c ∈ x', p c = true) (hr : ∀ c, r.head? = some c → p c = false)
    (hr' : ∀ c, r'.head? = some c → p c = false) (h : x ++ r = x' ++ r') : x = x' ∧ r = r' := by
  constructor
  · rw [← takeWhile_append_of_head? hx hr, h, takeWhile_append_of_head? hx' hr']
  · rw [← dropWhile_append_of_head? hx hr, h, dropWhile_append_of_head? hx' hr']

theorem gap_append_inj {g g' w w' t t' : Bytes} (hg : IsGap g) (hg' : IsGap g')
    (hw : w ≠ [] ∧ ∀ c ∈ w, isBlank c = false) (hw' : w' ≠ [] ∧ ∀ c ∈ w', isBlank c = false)
    (h : g ++ w ++ t = g' ++ w' ++ t') : w ++ t = w' ++ t' := by
  rw [List.append_assoc, List.append_assoc] at h
  exact (append_inj_of_head? hg.isBlank_eq hg'.isBlank_eq (head?_solid hw) (head?_solid hw') h).2

theorem IsGap.ne_append {g g' w t : Bytes} (hg : IsGap g)
    (hw : w ≠ [] ∧ ∀ c ∈ w, isBlank c = false) : g ≠ g' ++ w ++ t := by
  rintro rfl
  obtain ⟨c, w, rfl⟩ := List.exists_cons_of_ne_nil hw.1
  have hblank := hg.isBlank_eq c (by simp)
  rw [hw.2 c List.mem_cons_self] at hblank
  cases hblank

/-! ## One list of symbols -/

theorem literal_ne_mark {w t t' : Bytes} {n : Nat} {symbol : Symbol} (hw : Literal w n)
    (hm : symbol.isMark = true) : w ++ t ≠ symbol.spelling ++ t' := by
  intro h
  have hword := isWord_of_literal hw
  obtain ⟨c, w, rfl⟩ := List.exists_cons_of_ne_nil hword.ne_nil
  have hc := head?_spelling_append symbol hm t' c (by rw [← h]; rfl)
  exact not_isWord_cons hc w hword

/-- A text is cut in one way only. -/
theorem Parted.eq {syms syms' : List Symbol} {s : Bytes} (h : Parted syms s)
    (h' : Parted syms' s) : syms = syms' := by
  have hsolid {symbol : Symbol} (hs : symbol ∈ sourceMarks) :=
    (Symbol.Spells.mark (isMark_of_mem_sourceMarks symbol hs)).solid
  have hliteral {w : Bytes} {n : Nat} (hw : Literal w n) := (Symbol.Spells.int hw).solid
  induction h generalizing syms' with
  | @nil g hg =>
    generalize hu : g = u at h'
    cases h' with
    | nil _ => rfl
    | int _ hw _ _ => exact absurd hu (hg.ne_append (hliteral hw))
    | mark _ hs _ => exact absurd hu (hg.ne_append (hsolid hs))
  | @int n syms g w t hg hw ht _ ih =>
    generalize hu : g ++ w ++ t = u at h'
    cases h' with
    | nil hg' => exact absurd hu.symm (hg'.ne_append (hliteral hw))
    | int hg' hw' ht' h' =>
      have hsame := gap_append_inj hg hg' (hliteral hw) (hliteral hw') hu
      obtain ⟨rfl, rfl⟩ := append_inj_of_head? (isWord_of_literal hw).all
        (isWord_of_literal hw').all ht ht' hsame
      rw [hw.eq hw', ih h']
    | mark hg' hs' _ =>
      have hsame := gap_append_inj hg hg' (hliteral hw) (hsolid hs') hu
      exact absurd hsame (literal_ne_mark hw (isMark_of_mem_sourceMarks _ hs'))
  | @mark symbol syms g t hg hs _ ih =>
    generalize hu : g ++ symbol.spelling ++ t = u at h'
    cases h' with
    | nil hg' => exact absurd hu.symm (hg'.ne_append (hsolid hs))
    | int hg' hw' _ _ =>
      have hsame := gap_append_inj hg hg' (hsolid hs) (hliteral hw') hu
      exact absurd hsame.symm (literal_ne_mark hw' (isMark_of_mem_sourceMarks _ hs))
    | @mark symbol' _ _ _ hg' hs' h' =>
      have hsame := gap_append_inj hg hg' (hsolid hs) (hsolid hs') hu
      have hhead := congrArg List.head? hsame
      rw [List.head?_append_of_ne_nil _ (hsolid hs).1,
        List.head?_append_of_ne_nil _ (hsolid hs').1] at hhead
      obtain rfl := eq_of_head?_spelling symbol hs symbol' hs' hhead
      obtain rfl := List.append_cancel_left hsame
      rw [ih h']

/-! ## The symbols of an expression -/

/-- A number never follows a number in an expression. -/
theorem Derives.isChain {rank : Nat} {syms : List Symbol} {e : Expr} (h : Derives rank syms e) :
    syms.IsChain fun a b => a.isMark = true ∨ b.isMark = true := by
  induction h with
  | literal _ => exact .singleton _
  | paren _ ih =>
    refine List.isChain_cons.2 ⟨fun _ _ => Or.inl rfl, List.isChain_append.2 ⟨ih, .singleton _, ?_⟩⟩
    intro a _ b hb
    obtain rfl := Option.some.inj hb
    exact Or.inr rfl
  | @unary _ op _ _ _ ih => exact List.isChain_cons.2 ⟨fun _ _ => Or.inl op.isMark_symbol, ih⟩
  | @binary _ op _ _ _ _ _ _ _ ihx ihy =>
    refine List.isChain_append.2 ⟨ihx, List.isChain_cons.2 ⟨?_, ihy⟩, ?_⟩
    · exact fun _ _ => Or.inl op.isMark_symbol
    · intro a _ b hb
      obtain rfl := Option.some.inj hb
      exact Or.inr op.isMark_symbol

/-- Of the marks of an expression, only `//` is none of a source line. -/
theorem Derives.mem_sourceMarks {rank : Nat} {syms : List Symbol} {e : Expr}
    (h : Derives rank syms e) : ∀ symbol ∈ syms, symbol.isMark = true →
      symbol ∈ sourceMarks ∨ symbol = .slashSlash := by
  have hunary (op : UnaryOp) : op.symbol ∈ sourceMarks := by cases op <;> decide
  have hoperator (op : Operator) : op.symbol ∈ sourceMarks ∨ op.symbol = .slashSlash := by
    cases op <;> decide
  induction h with
  | literal _ => simp [Symbol.isMark]
  | paren _ ih =>
    refine List.forall_mem_cons.2 ⟨fun _ => Or.inl (by decide), List.forall_mem_append.2 ⟨ih, ?_⟩⟩
    exact List.forall_mem_singleton.2 fun _ => Or.inl (by decide)
  | @unary _ op _ _ _ ih => exact List.forall_mem_cons.2 ⟨fun _ => Or.inl (hunary op), ih⟩
  | @binary _ op _ _ _ _ _ _ _ ihx ihy =>
    exact List.forall_mem_append.2 ⟨ihx, List.forall_mem_cons.2 ⟨fun _ => hoperator op, ihy⟩⟩

/-- No two slashes stand side by side. -/
def SlashesApart (s : Bytes) : Prop := s.IsChain fun a b => ¬(a = byte '/' ∧ b = byte '/')

theorem SlashesApart.right {s t : Bytes} (h : SlashesApart (s ++ t)) : SlashesApart t :=
  List.IsChain.right_of_append h

theorem slashesApart_spelling : ∀ symbol ∈ sourceMarks, SlashesApart symbol.spelling := by
  unfold SlashesApart
  decide +kernel

theorem slashesApart_of_isWord {w : Bytes} (h : ∀ c ∈ w, isWordByte c = true) : SlashesApart w := by
  refine List.Pairwise.isChain (List.pairwise_of_forall_mem_list fun a ha b _ => ?_)
  rintro ⟨rfl, -⟩
  cases h _ ha

theorem SlashesApart.append_gap {s t : Bytes} (hs : SlashesApart s) (ht : SlashesApart t) :
    SlashesApart (s ++ " " ++ t) := by
  rw [List.append_assoc]
  refine List.isChain_append.2 ⟨hs, List.isChain_cons.2 ⟨?_, ht⟩, ?_⟩
  · rintro b _ ⟨h, -⟩
    cases h
  · intro a _ b hb
    obtain rfl := Option.some.inj hb
    rintro ⟨-, h⟩
    cases h

/-- What follows a number is a gap or a mark. -/
theorem Spelled.isWordByte_of_head? {syms : List Symbol} {s : Bytes} (h : Spelled syms s)
    (hs : ∀ symbol ∈ syms.head?, symbol.isMark = true) :
    ∀ c, s.head? = some c → isWordByte c = false := by
  cases h with
  | nil hg => exact fun c hc => hg.wordless c (List.mem_of_head? hc)
  | @cons symbol _ g w t hg hw _ =>
    have hm := hs symbol rfl
    cases hw with
    | int _ => cases hm
    | mark _ =>
      rw [List.append_assoc]
      exact hg.head?_append (head?_spelling_append symbol hm t)

theorem Spelled.parted {syms : List Symbol} {s : Bytes} (h : Spelled syms s)
    (hslash : SlashesApart s) (hchain : syms.IsChain fun a b => a.isMark = true ∨ b.isMark = true)
    (hmarks : ∀ symbol ∈ syms, symbol.isMark = true →
      symbol ∈ sourceMarks ∨ symbol = .slashSlash) : Parted syms s := by
  induction h with
  | nil hg => exact .nil hg
  | cons hg hw h ih =>
    obtain ⟨hnext, hchain⟩ := List.isChain_cons.1 hchain
    obtain ⟨hmark, hmarks⟩ := List.forall_mem_cons.1 hmarks
    have hrest := ih hslash.right hchain hmarks
    cases hw with
    | int hw =>
      refine .int hg hw (h.isWordByte_of_head? fun symbol hsymbol => ?_) hrest
      exact (hnext symbol hsymbol).resolve_left Bool.false_ne_true
    | mark hm =>
      refine .mark hg ((hmark hm).resolve_right ?_) hrest
      rintro rfl
      rw [List.append_assoc] at hslash
      exact (List.isChain_cons_cons.1 hslash.right).1 ⟨rfl, rfl⟩

/-- The symbols of an expression are the ones a text without `//` is cut into. -/
theorem Derives.parted {rank : Nat} {syms : List Symbol} {e : Expr} (h : Derives rank syms e)
    {s : Bytes} (hs : Spelled syms s) (hslash : SlashesApart s) : Parted syms s :=
  hs.parted hslash h.isChain h.mem_sourceMarks

/-! ## White space at the ends -/

/-- Of the bytes that spell symbols, only spaces and tabs occur in white space characters. -/
theorem isGap_of_mem_blanks : ∀ front ∈ blanks, ∀ c ∈ front,
    isWordByte c = true ∨ isArithmeticByte c = true → c = byte ' ' ∨ c = byte '\t' := by
  decide +kernel

theorem Spelled.bytes {syms : List Symbol} {s : Bytes} (h : Spelled syms s) :
    ∀ c ∈ s, isWordByte c = true ∨ isArithmeticByte c = true := by
  have hgap {g : Bytes} (hg : IsGap g) :
      ∀ c ∈ g, isWordByte c = true ∨ isArithmeticByte c = true := by
    intro c hc
    rcases hg c hc with rfl | rfl <;> exact Or.inr rfl
  induction h with
  | nil hg => exact hgap hg
  | cons hg hw _ ih =>
    refine List.forall_mem_append.2 ⟨List.forall_mem_append.2 ⟨hgap hg, fun c hc => ?_⟩, ih⟩
    cases hw with
    | int hw => exact Or.inl ((isWord_of_literal hw).all c hc)
    | mark hm => exact Or.inr ((Symbol.spelling_of_isMark hm).2 c hc).2

theorem Spelled.of_gap_append {syms : List Symbol} {g s : Bytes} (hg : IsGap g)
    (h : Spelled syms (g ++ s)) : Spelled syms s := by
  induction g with
  | nil => exact h
  | cons b g ih =>
    obtain ⟨hb, hg⟩ := List.forall_mem_cons.1 hg
    refine ih hg ?_
    generalize hu : b :: g ++ s = u at h
    cases h with
    | nil hg' =>
      subst hu
      exact .nil (List.forall_mem_cons.1 hg').2
    | @cons symbol syms g' w t hg' hw h =>
      cases g' with
      | nil =>
        have hblank := head?_solid hw.solid (t := t) b (by rw [← List.nil_append w, ← hu]; rfl)
        rcases hb with rfl | rfl <;> cases hblank
      | cons b' g' =>
        have hrest : g ++ s = g' ++ w ++ t := (List.cons.inj hu).2
        rw [hrest]
        exact .cons (List.forall_mem_cons.1 hg').2 hw h

theorem Spelled.of_append_gap {syms : List Symbol} {g s : Bytes} (hg : IsGap g)
    (h : Spelled syms (s ++ g)) : Spelled syms s := by
  generalize hu : s ++ g = u at h
  induction h generalizing s with
  | nil hg' =>
    subst hu
    exact .nil (List.forall_mem_append.1 hg').1
  | @cons symbol syms g' w t hg' hw h ih =>
    -- the gap ends the text of the symbols that follow
    rcases List.append_eq_append_iff.1 hu with ⟨x, hx, rfl⟩ | ⟨x, rfl, hx⟩
    · have hnil : x = [] := by
        by_contra hne
        obtain ⟨hwne, hsolid⟩ := hw.solid
        have hlast := congrArg List.getLast? hx
        rw [List.getLast?_append_of_ne_nil _ hwne, List.getLast?_append_of_ne_nil _ hne] at hlast
        obtain ⟨b, hb⟩ := Option.ne_none_iff_exists'.1 (mt List.getLast?_eq_none_iff.1 hwne)
        have hblank := hg.isBlank_eq b
          (List.mem_append_left t (List.mem_of_getLast? (hlast.symm.trans hb)))
        rw [hsolid b (List.mem_of_getLast? hb)] at hblank
        cases hblank
      subst hnil
      rw [List.append_nil] at hx
      rw [← hx, ← List.append_nil (g' ++ w)]
      exact .cons hg' hw (ih rfl)
    · exact .cons hg' hw (ih hx.symm)

/-- White space at the ends of a text spells nothing. -/
theorem Spelled.trim {syms syms' : List Symbol} {s : Bytes} (h : Spelled syms s) :
    Spelled syms' (trim s) ↔ Spelled syms' s := by
  obtain ⟨front, back, hs, hf, hb⟩ := exists_trim isGap_of_mem_blanks s
  have hfront : IsGap front := fun c hc => hf c hc (h.bytes c (by rw [hs]; simp [hc]))
  have hback : IsGap back := fun c hc => hb c hc (h.bytes c (by rw [hs]; simp [hc]))
  constructor
  · intro htrim
    have hspelled := (htrim.gap_append hfront).append (.nil hback)
    rwa [List.append_nil, ← hs] at hspelled
  · intro hspelled
    rw [hs] at hspelled
    exact (hspelled.of_append_gap hback).of_gap_append hfront

/-- Evaluation reads the symbols a text is cut into, if the text has no `//`. -/
theorem Parted.evaluate_eq_ok {syms : List Symbol} {s : Bytes} (h : Parted syms s)
    (hslash : SlashesApart s) {v : Int} : evaluate s = .ok v ↔
      ∃ e, Derives 0 syms e ∧ e.value? = some v ∧ FitsInt v := by
  rw [Arith.evaluate_eq_ok]
  constructor
  · rintro ⟨syms', e, hspelled, hderives, hvalue⟩
    have hparted := hderives.parted (h.spelled.trim.1 hspelled) hslash
    exact ⟨e, h.eq hparted ▸ hderives, hvalue⟩
  · rintro ⟨e, hderives, hvalue⟩
    exact ⟨syms, e, h.spelled.trim.2 h.spelled, hderives, hvalue⟩

end Asm16.Arith
