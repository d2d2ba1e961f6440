import Asm16.Proofs.Placement
import Mathlib.Data.List.Chain

/-!
# Addresses in order

A layout goes forward : no line has a size below zero, and each line starts where the one before it
ends. `Ascending` says so in exact integers. The layout itself adds addresses in 64 bit arithmetic
and only `origin`, `align` and `reserve` look at where they go, so a program can walk over the
highest address and come out below zero, as `highText` does.

`Assembler.ascending_iff` is the exact condition : the lines of an accepted program ascend if and
only if every line that is not the last ends below `addressLimit`. The backtrack checks do the rest,
since a line measured at an address that is not negative has a size that is not negative
(`Line.size_nonneg`). A program that fits an image ascends (`Packed.ascending`).
-/

namespace Asm16

/-! ## Lines that go forward -/

/-- Lines that go forward from address zero, in exact integers. -/
structure Ascending (lines : List Line) : Prop where
  head_offset : ∀ l, lines.head? = some l → l.offset = 0
  size_nonneg : ∀ l ∈ lines, 0 ≤ l.size
  next_offset : lines.IsChain fun l m => m.offset = l.offset + l.size
  offset_nonneg : ∀ l ∈ lines, 0 ≤ l.offset
  offset_le : lines.Pairwise fun l m => l.offset ≤ m.offset
  offset_lt : lines.Pairwise fun l m => l.size ≠ 0 → l.offset < m.offset

/-- Line `m` starts where `l` ends or behind it, and does not end before its start. -/
def Line.Before (l m : Line) : Prop := 0 ≤ m.size ∧ l.offset + l.size ≤ m.offset

instance : Trans Line.Before Line.Before Line.Before where
  trans h h' := ⟨h'.1, by have := h.1; have := h.2; have := h'.2; omega⟩

/-- Sizes and the step from line to line say all there is to say. -/
theorem Ascending.of_next {lines : List Line} (hhead : ∀ l, lines.head? = some l → l.offset = 0)
    (hsize : ∀ l ∈ lines, 0 ≤ l.size)
    (hnext : lines.IsChain fun l m => m.offset = l.offset + l.size) : Ascending lines := by
  have hbefore : lines.Pairwise Line.Before := by
    refine List.isChain_iff_pairwise.1 (hnext.imp_of_mem_imp ?_)
    intro l m _ hm h
    exact ⟨hsize m hm, Int.le_of_eq h.symm⟩
  have hle : lines.Pairwise fun l m => l.offset ≤ m.offset := by
    refine hbefore.imp_of_mem ?_
    intro l m hl _ h
    have := hsize l hl
    have := h.2
    omega
  refine ⟨hhead, hsize, hnext, ?_, hle, hbefore.imp_of_mem ?_⟩
  · intro l hl
    cases lines with
    | nil => cases hl
    | cons first rest =>
      have hfirst := hhead first rfl
      rcases List.mem_cons.1 hl with rfl | hl
      · exact Int.le_of_eq hfirst.symm
      · exact hfirst ▸ (List.pairwise_cons.1 hle).1 l hl
  · intro l m hl _ h hne
    have := hsize l hl
    have := h.2
    omega

/-! ## Measured lines -/

theorem wrap_lt (n : Int) : wrap n < addressLimit := by
  have : wrap n < (0x10000000000000000 + 1) / 2 := Int.bmod_lt (by decide)
  unfold addressLimit
  omega

theorem Arith.fitsInt_of_evaluate {s : Bytes} {n : Int} (h : evaluate s = .ok n) :
    Numeral.FitsInt n := by
  unfold evaluate at h
  simp only at h
  split at h
  · cases h
  · split at h
    · cases h
    · split at h
      · cases h
      · split at h
        · obtain rfl := Except.ok.inj h
          assumption
        · cases h

theorem Directive.fitsInt_of_evaluate {d : Directive} {n : Int} (h : d.evaluate = .ok n) :
    Numeral.FitsInt n := by
  unfold evaluate at h
  split at h
  · obtain rfl := Except.ok.inj h
    exact Arith.fitsInt_of_evaluate ‹_›
  · cases h

/-- Going forward from an address that is not negative does not wrap around. -/
theorem wrap_sub_nonneg {target offset : Int} (ht : Numeral.FitsInt target) (h0 : 0 ≤ offset)
    (hle : offset ≤ target) : 0 ≤ wrap (target - offset) := by
  have hlt : target < addressLimit := ht.2
  rw [wrap_eq_self (by omega) (by omega)]
  omega

/-- A line that is measured at an address that is not negative has a size that is not negative. -/
theorem Line.size_nonneg {l : Line} {offset : Int} (h : l.measure offset = .ok (l.size, l.code))
    (h0 : 0 ≤ offset) : 0 ≤ l.size := by
  cases hd : l.directive with
  | none =>
    rw [(measure_instruction h hd).2]
    cases l.code with
    | none => exact Int.le_refl 0
    | some c => exact Int.natCast_nonneg _
  | some d =>
    cases hk : d.kind with
    | data =>
      obtain ⟨runs, -, hs⟩ := measure_data h (by rw [kind?, hd, Option.map_some, hk])
      rw [hs]
      exact Int.natCast_nonneg _
    | inclusion | define => exact Int.le_of_eq (measure_empty h hd (by simp [hk])).symm
    | origin | align =>
      simp only [measure, hd, hk] at h
      obtain ⟨target, htarget, h⟩ := bind_eq_ok.1 h
      split at h
      · cases h
      · obtain ⟨hs, -⟩ := Prod.mk.inj (Except.ok.inj h)
        rw [← hs]
        exact wrap_sub_nonneg (Directive.fitsInt_of_evaluate htarget) h0 (by omega)
    | reserve =>
      simp only [measure, hd, hk] at h
      obtain ⟨count, -, h⟩ := bind_eq_ok.1 h
      split at h
      · cases h
      · obtain ⟨hs, -⟩ := Prod.mk.inj (Except.ok.inj h)
        omega

/-! ## Programs -/

/-- A layout steps exactly while no line but the last reaches the address limit. -/
theorem Laid.next_offset {lines : List Line} {offset : Int} (h : Laid offset lines)
    (h0 : 0 ≤ offset) (hend : ∀ l ∈ lines.dropLast, l.offset + l.size < addressLimit) :
    (∀ l ∈ lines, 0 ≤ l.size) ∧ lines.IsChain fun l m => m.offset = l.offset + l.size := by
  induction lines generalizing offset with
  | nil => exact ⟨by simp, .nil⟩
  | cons l rest ih =>
    obtain ⟨ho, hm, hrest⟩ := h
    have hsize := Line.size_nonneg hm h0
    cases rest with
    | nil => exact ⟨by simpa using hsize, .singleton _⟩
    | cons m more =>
      rw [List.dropLast_cons_cons] at hend
      -- the line ends below the limit, so the next one starts exactly there
      have hstop : l.stop = l.offset + l.size :=
        wrap_eq_self (by omega) (hend l List.mem_cons_self)
      obtain ⟨hsizes, hchain⟩ := ih hrest (by omega) fun m hm => hend m (List.mem_cons_of_mem _ hm)
      have hnext : m.offset = l.offset + l.size := hrest.1.trans hstop
      exact ⟨List.forall_mem_cons.2 ⟨hsize, hsizes⟩, List.isChain_cons_cons.2 ⟨hnext, hchain⟩⟩

/-- A layout that steps exactly has no line but the last that reaches the address limit. -/
theorem Laid.stop_lt {lines : List Line} {offset : Int} (h : Laid offset lines)
    (hnext : lines.IsChain fun l m => m.offset = l.offset + l.size) :
    ∀ l ∈ lines.dropLast, l.offset + l.size < addressLimit := by
  induction lines generalizing offset with
  | nil => simp
  | cons l rest ih =>
    cases rest with
    | nil => simp
    | cons m more =>
      obtain ⟨-, -, hrest⟩ := h
      obtain ⟨hstep, hchain⟩ := List.isChain_cons_cons.1 hnext
      have hlt : l.offset + l.size < addressLimit := by
        rw [← hstep, hrest.1, Line.stop]
        exact wrap_lt _
      rw [List.dropLast_cons_cons]
      exact List.forall_mem_cons.2 ⟨hlt, ih hrest hchain⟩

theorem Laid.head_offset {lines : List Line} {offset : Int} (h : Laid offset lines) {l : Line}
    (hl : lines.head? = some l) : l.offset = offset := by
  cases lines with
  | nil => cases hl
  | cons m rest =>
    obtain rfl : m = l := Option.some.inj hl
    exact h.1

/-- Lines that stand in an image one after another step exactly. -/
theorem Packed.next_offset {pos : Nat} {lines : List Line} (h : Packed pos lines) :
    lines.IsChain fun l m => m.offset = l.offset + l.size := by
  induction lines generalizing pos with
  | nil => exact .nil
  | cons l rest ih =>
    obtain ⟨hl, hrest⟩ := h
    cases rest with
    | nil => exact .singleton _
    | cons m more =>
      refine List.isChain_cons_cons.2 ⟨?_, ih hrest⟩
      rw [hrest.1.offset_eq, hl.offset_eq, hl.size_eq, Int.natCast_add]

theorem Packed.ascending {lines : List Line} (h : Packed 0 lines) : Ascending lines := by
  refine .of_next ?_ ?_ h.next_offset
  · intro l hl
    cases lines with
    | nil => cases hl
    | cons m rest =>
      obtain rfl : m = l := Option.some.inj hl
      exact h.1.offset_eq
  · intro l hl
    obtain ⟨n, hat⟩ := h.exists_at hl
    rw [hat.size_eq]
    exact Int.natCast_nonneg _

/-- The lines of an accepted program go forward exactly if none but the last ends at the address
limit or beyond it. All programs that fit an image do. -/
theorem Assembler.ascending_iff {asm : Assembler} {name text : Bytes} {a : Assembly}
    (ha : asm.Accepts name text a) :
    (Ascending a.lines ↔ ∀ l ∈ a.lines.dropLast, l.offset + l.size < addressLimit) ∧
      ∀ img out, a.assemble img = (out, none) → Ascending a.lines := by
  have hlaid := laid_of_accepts ha
  refine ⟨⟨fun h => hlaid.stop_lt h.next_offset, ?_⟩, ?_⟩
  · intro hend
    obtain ⟨hsize, hnext⟩ := hlaid.next_offset (Int.le_refl 0) hend
    exact .of_next (fun l hl => hlaid.head_offset hl) hsize hnext
  · intro img out h
    exact (Assembly.packed_of_assemble ha h).1.ascending

theorem Assembler.sample_ascending_iff :
    ∃ a, sampleAssembler.Accepts "m" sampleText a ∧ a.size = 23 ∧ Ascending a.lines := by
  obtain ⟨a, ha, h⟩ := sampleAssembler.exists_accepts "m" sampleText
    (fun a => a.size == 23 && a.lines.all fun l => l.offset + l.size < addressLimit)
    (by decide +kernel)
  obtain ⟨hsize, hlines⟩ := Bool.and_eq_true_iff.1 h
  refine ⟨a, ha, eq_of_beq hsize, (ascending_iff ha).1.2 ?_⟩
  intro l hl
  simpa using List.all_eq_true.1 hlines l (List.dropLast_subset _ hl)

/-- A program that reserves the word at the highest address and goes on behind it. -/
def highText : Bytes := ".org 0x7fffffffffffffff\n.reserve 1\nend:"

/-- Behind the highest address the lines go back to the lowest. -/
theorem Assembler.high_not_ascending :
    ∃ a, Assembler.Accepts {} "m" highText a ∧
      a.lines.map (fun l => (l.offset, l.size)) =
        [(0, 0x7fffffffffffffff), (0x7fffffffffffffff, 1), (-0x8000000000000000, 0)] ∧
      ¬Ascending a.lines := by
  obtain ⟨a, ha, h⟩ := Assembler.exists_accepts {} "m" highText
    (fun a => a.lines.map (fun l => (l.offset, l.size)) ==
        [(0, 0x7fffffffffffffff), (0x7fffffffffffffff, 1), (-0x8000000000000000, 0)] &&
      a.lines.any fun l => l.offset < 0)
    (by decide +kernel)
  obtain ⟨hoffsets, hneg⟩ := Bool.and_eq_true_iff.1 h
  refine ⟨a, ha, eq_of_beq hoffsets, fun hasc => ?_⟩
  obtain ⟨l, hl, hlt⟩ := List.any_eq_true.1 hneg
  have hnonneg := hasc.offset_nonneg l hl
  simp only [decide_eq_true_eq] at hlt
  omega

end Asm16
