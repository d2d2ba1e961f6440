import Asm16.Proofs.Ascending
import Mathlib.Algebra.Ring.Int.Defs

/-!
# Where an assembly stops

`Assembly.assemble` writes lines until one of them does not encode or has a word outside the image
(`Line.Stops`). Up to that line nothing wraps around, whatever the layout of the lines behind it : a
line that does not stop ends inside the image, so the next one starts exactly there
(`Assembly.writeLines_append`). So the line that stops starts inside the image or right behind it,
its words go in order up to the last address, and the first one outside is at the size of the image
(`Block.place_eq`).
-/

namespace Asm16

/-! ## Lines up to the one that stops -/

/-- A line that an assembly into `n` words does not get over : it does not encode, or one of its
words is at address `n` or behind it. -/
def Line.Stops (n : Nat) (l : Line) : Prop :=
  (∃ fault, l.encode = .error fault) ∨ ∃ i : Nat, i < l.encoded.length ∧ (n : Int) ≤ l.offset + i

/-- A line that does not stop encodes, and ends in the image if it starts there. -/
theorem Line.not_stops {n pos : Nat} {l : Line} (h : ¬l.Stops n) (ho : l.offset = pos)
    (hpos : pos ≤ n) : (∃ block, l.encode = .ok block) ∧ pos + l.encoded.length ≤ n := by
  rw [Stops, not_or] at h
  obtain ⟨hfault, hreach⟩ := h
  constructor
  · cases he : l.encode with
    | error fault => exact absurd ⟨fault, he⟩ hfault
    | ok block => exact ⟨block, rfl⟩
  · by_contra hlt
    exact hreach ⟨n - pos, by omega, by omega⟩

/-- A line of a layout that encodes and ends below the address limit stands there with all its
words, and the next one starts where it ends. -/
theorem Laid.at_of_encode {pos : Nat} {l : Line} {rest : List Line} {block : Block}
    (h : Laid pos (l :: rest)) (he : l.encode = .ok block)
    (hend : pos + l.encoded.length < addressLimit) :
    l.At pos ∧ Laid ((pos + l.encoded.length : Nat) : Int) rest := by
  obtain ⟨ho, hm, hrest⟩ := h
  have hsize : l.size = l.encoded.length := by
    rw [Line.encoded_of_encode he, Line.length_encoded hm he]
  have hstop : l.stop = l.offset + l.size := wrap_eq_self (by omega) (by omega)
  refine ⟨⟨ho, ⟨block, he⟩, hsize, hstop⟩, ?_⟩
  rwa [hstop, ho, hsize, ← Int.natCast_add] at hrest

/-- Lines of a layout that encode and together end below the address limit are packed. -/
theorem Laid.packed {pos : Nat} {lines : List Line} (h : Laid pos lines)
    (he : ∀ l ∈ lines, ∃ block, l.encode = .ok block)
    (hend : pos + (lines.flatMap Line.encoded).length < addressLimit) : Packed pos lines := by
  induction lines generalizing pos with
  | nil => trivial
  | cons l rest ih =>
    obtain ⟨⟨block, hl⟩, he⟩ := List.forall_mem_cons.1 he
    rw [List.flatMap_cons, List.length_append] at hend
    obtain ⟨hat, hrest⟩ := h.at_of_encode hl (by omega)
    exact ⟨hat, ih hrest he (by omega)⟩

/-- Lines that do not stop are written one behind the other, and writing goes on behind them. -/
theorem Assembly.writeLines_append {img : Image} {written : List UInt16} {k : Nat}
    {pre rest : List Line} (hw : img.words.toList = written ++ List.replicate k 0)
    (hl : Laid written.length (pre ++ rest)) (hpre : ∀ l ∈ pre, ¬l.Stops img.size) :
    ∃ mid, writeLines img (pre ++ rest) = writeLines mid rest ∧ mid.size = img.size ∧
      Packed written.length pre ∧
      Laid ((written ++ pre.flatMap Line.encoded).length : Nat) rest ∧
      mid.words.toList = written ++ pre.flatMap Line.encoded ++
        List.replicate (k - (pre.flatMap Line.encoded).length) 0 := by
  induction pre generalizing img written k with
  | nil => exact ⟨img, rfl, rfl, trivial, by simpa using hl, by simpa using hw⟩
  | cons l more ih =>
    obtain ⟨hstops, hmore⟩ := List.forall_mem_cons.1 hpre
    have hsize := Image.size_of_toList hw
    obtain ⟨⟨block, he⟩, hfits⟩ := Line.not_stops hstops hl.1 (by omega)
    have hlimit : img.size < addressLimit := img.size_lt
    obtain ⟨hat, hrest⟩ := hl.at_of_encode he (by omega)
    obtain ⟨next, hplace, hnext⟩ := block.place_eq hw
    rw [← Line.encoded_of_encode he] at hplace hnext
    rw [List.take_of_length_le (by omega)] at hnext
    rw [if_pos (by omega)] at hplace
    have hsame : next.size = img.size := by
      rw [Image.size_of_toList hnext, List.length_append]
      omega
    rw [← List.length_append] at hrest
    obtain ⟨mid, hmid, hmidsize, hpacked, hlaid, hwords⟩ := ih hnext hrest (by rwa [hsame])
    refine ⟨mid, ?_, hmidsize.trans hsame, ⟨hat, by rwa [List.length_append] at hpacked⟩, ?_, ?_⟩
    · rw [List.cons_append, writeLines, he]
      simp only [hl.1, hplace, hmid]
    · rwa [List.append_assoc] at hlaid
    · rw [hwords, List.flatMap_cons, List.length_append, Nat.sub_sub, List.append_assoc written]

/-! ## What the image holds -/

/-- The image holds the words of lines, each at its address as far as the image goes, and zeros
everywhere else. No address of a line is negative. -/
structure Image.Holds (img : Image) (lines : List Line) : Prop where
  offset_nonneg : ∀ l ∈ lines, 0 ≤ l.offset
  word_eq : ∀ l ∈ lines, ∀ (i : Nat) (w : UInt16), l.encoded[i]? = some w →
    l.offset + i < img.size → img.words[(l.offset + i).toNat]? = some w
  zero_eq : ∀ j : Nat, j < img.size →
    (∀ l ∈ lines, ∀ i : Nat, i < l.encoded.length → l.offset + i ≠ j) → img.words[j]? = some 0

/-- Lines that stand one behind the other, and one more that may be cut at the end of the image. -/
theorem Packed.holds {img : Image} {pre : List Line} {l : Line} {k : Nat} (h : Packed 0 pre)
    (ho : l.offset = (pre.flatMap Line.encoded).length)
    (hw : img.words.toList = pre.flatMap Line.encoded ++ l.encoded.take k ++
      List.replicate (k - l.encoded.length) 0) : img.Holds (pre ++ [l]) := by
  have hsize : img.size = (pre.flatMap Line.encoded).length + k := by
    rw [← Image.length_toList, hw]
    simp only [List.length_append, List.length_take, List.length_replicate]
    omega
  refine ⟨?_, ?_, ?_⟩
  · intro m hm
    rcases List.mem_append.1 hm with hm | hm
    · obtain ⟨n, hat⟩ := h.exists_at hm
      rw [hat.offset_eq]
      exact Int.natCast_nonneg n
    · rw [List.mem_singleton.1 hm, ho]
      exact Int.natCast_nonneg _
  · intro m hm i w hi hlt
    rw [← Array.getElem?_toList]
    rcases List.mem_append.1 hm with hm | hm
    · obtain ⟨n, hat⟩ := h.exists_at hm
      obtain ⟨rest, hdrop⟩ := h.drop_eq (by rw [hw, List.append_assoc]) hm
      have hindex : (m.offset + i).toNat = m.offset.toNat + i := by
        rw [hat.offset_eq]
        omega
      rw [hindex, ← List.getElem?_drop, hdrop,
        List.getElem?_append_left (List.getElem?_eq_some_iff.1 hi).1]
      exact hi
    · obtain rfl := List.mem_singleton.1 hm
      have hindex : (m.offset + i).toNat = (pre.flatMap Line.encoded).length + i := by
        rw [ho]
        omega
      have hlen := (List.getElem?_eq_some_iff.1 hi).1
      have hin : i < (m.encoded.take k).length := by
        rw [List.length_take]
        omega
      rw [hindex, hw, List.append_assoc, List.getElem?_append_right (by omega),
        Nat.add_sub_cancel_left, List.getElem?_append_left hin, List.getElem?_take_of_lt (by omega)]
      exact hi
  · intro j hj hother
    -- an address before the zeros belongs to a line
    have hbehind : (pre.flatMap Line.encoded ++ l.encoded.take k).length ≤ j := by
      by_contra hlt
      rw [List.length_append, List.length_take] at hlt
      by_cases hpre : j < (pre.flatMap Line.encoded).length
      · have hzero : ((0 : Nat) : Int) ≤ (j : Int) := by omega
        obtain ⟨front, m, back, rfl, hholds, -⟩ := h.exists_holds hzero (by omega)
        have hat := h.at_of_append
        obtain ⟨hlo, hhi⟩ := hholds
        rw [hat.size_eq] at hhi
        have hoff := hat.offset_eq
        exact hother m (by simp) (j - m.offset.toNat) (by omega) (by omega)
      · exact hother l (by simp) (j - (pre.flatMap Line.encoded).length) (by omega) (by omega)
    have hlen :
        j - (pre.flatMap Line.encoded ++ l.encoded.take k).length < k - l.encoded.length := by
      rw [List.length_append, List.length_take] at hbehind ⊢
      omega
    rw [← Array.getElem?_toList, hw, List.getElem?_append_right hbehind, List.getElem?_replicate,
      if_pos hlen]

/-! ## Programs -/

/-- Packed lines that end in the image do not stop. -/
theorem Packed.not_stops {lines : List Line} {n : Nat} (h : Packed 0 lines)
    (hle : (lines.flatMap Line.encoded).length ≤ n) : ∀ l ∈ lines, ¬l.Stops n := by
  intro l hl hstops
  obtain ⟨pos, hat⟩ := h.exists_at hl
  rcases hstops with ⟨fault, hfault⟩ | ⟨i, hi, hreach⟩
  · obtain ⟨block, he⟩ := hat.encodes
    cases hfault.symm.trans he
  · have hholds : l.Holds (l.offset + i) := ⟨by omega, by rw [hat.size_eq]; omega⟩
    have := (h.range_of_holds hl hholds).2
    omega

/-- The sizes of lines that encode add up to the number of their words. -/
theorem Laid.sum_size {lines : List Line} {offset : Int} (h : Laid offset lines)
    (he : ∀ l ∈ lines, ∃ block, l.encode = .ok block) :
    (lines.map (·.size)).sum = (lines.flatMap Line.encoded).length := by
  induction lines generalizing offset with
  | nil => rfl
  | cons l rest ih =>
    obtain ⟨-, hm, hrest⟩ := h
    obtain ⟨⟨block, hl⟩, he⟩ := List.forall_mem_cons.1 he
    have hsize : (l.encoded.length : Int) = l.size := by
      rw [Line.encoded_of_encode hl, Line.length_encoded hm hl]
    rw [List.map_cons, List.sum_cons, ih hrest he, List.flatMap_cons, List.length_append, ← hsize,
      Int.natCast_add]

namespace Assembly

variable {asm : Assembler} {name text : Bytes} {a : Assembly} {img : Image}

/-- An assembly up to a line that stops : the lines before it are written, and what comes of the
line itself is left to be seen. -/
theorem exists_written (ha : asm.Accepts name text a) (img : Image) {pre rest : List Line}
    (hs : a.lines = pre ++ rest) (hpre : ∀ m ∈ pre, ¬m.Stops img.size) :
    ∃ mid, a.assemble img = writeLines mid rest ∧ mid.size = img.size ∧ Packed 0 pre ∧
      Laid ((pre.flatMap Line.encoded).length : Nat) rest ∧
      mid.words.toList = pre.flatMap Line.encoded ++
        List.replicate (img.size - (pre.flatMap Line.encoded).length) 0 := by
  have hw : img.cleared.words.toList = [] ++ List.replicate img.size 0 := Image.toList_cleared img
  have hsize : img.cleared.size = img.size := by simpa using Image.size_of_toList hw
  have hlaid : Laid 0 (pre ++ rest) := hs ▸ Assembler.laid_of_accepts ha
  obtain ⟨mid, hmid, hmidsize, hpacked, hrest, hwords⟩ :=
    writeLines_append hw hlaid (by rwa [hsize])
  rw [Assembler.assemble_of_accepts ha, hs]
  exact ⟨mid, hmid, hmidsize.trans hsize, hpacked, hrest, hwords⟩

/-- The end of an assembly at the line `l` behind the lines `pre`. -/
structure StoppedAt (a : Assembly) (img : Image) (pre : List Line) (l : Line) (out : Image)
    (fault : Fault) : Prop where
  assemble_eq : a.assemble img = (out, some (.atLine l.site fault))
  /-- The fault is that of the line, or else the first address outside the image. -/
  fault_eq : l.encode = .error fault ∨
    (∃ block, l.encode = .ok block) ∧ fault = .overflow img.size
  size_eq : out.size = img.size
  /-- Nothing else was written. -/
  holds : out.Holds (pre ++ [l])
  size_nonneg : ∀ m ∈ pre ++ [l], 0 ≤ m.size
  /-- The lines before end in the image. -/
  stop_le : ∀ m ∈ pre, m.offset + m.size ≤ (img.size : Int)

theorem assemble_eq_none_iff (ha : asm.Accepts name text a) :
    (a.assemble img).2 = none ↔ ∀ l ∈ a.lines, ¬l.Stops img.size := by
  constructor
  · intro h
    obtain ⟨hpacked, hle, -⟩ := packed_of_assemble ha (Prod.ext rfl h)
    exact hpacked.not_stops hle
  · intro h
    obtain ⟨mid, hmid, -⟩ := exists_written ha img (List.append_nil a.lines).symm h
    rw [hmid]
    rfl

theorem exists_stoppedAt (ha : asm.Accepts name text a) {pre post : List Line} {l : Line}
    (hs : a.lines = pre ++ l :: post) (hpre : ∀ m ∈ pre, ¬m.Stops img.size)
    (hstops : l.Stops img.size) : ∃ out fault, a.StoppedAt img pre l out fault := by
  obtain ⟨mid, hmid, hsize, hpacked, hrest, hwords⟩ := exists_written ha img hs hpre
  obtain ⟨k, hk⟩ : ∃ k, img.size - (pre.flatMap Line.encoded).length = k := ⟨_, rfl⟩
  rw [hk] at hwords
  have hroom : img.size = (pre.flatMap Line.encoded).length + k := by
    rw [← hsize, Image.size_of_toList hwords]
  have ho : l.offset = (pre.flatMap Line.encoded).length := hrest.1
  have hsizes : ∀ m ∈ pre ++ [l], 0 ≤ m.size := by
    refine List.forall_mem_append.2 ⟨fun m hm => ?_, ?_⟩
    · obtain ⟨n, hat⟩ := hpacked.exists_at hm
      rw [hat.size_eq]
      exact Int.natCast_nonneg _
    · simpa using Line.size_nonneg hrest.2.1 (Int.natCast_nonneg _)
  have hinside : ∀ m ∈ pre, m.offset + m.size ≤ (img.size : Int) := by
    intro m hm
    obtain ⟨front, back, rfl⟩ := List.append_of_mem hm
    have hat := hpacked.at_of_append
    rw [hat.offset_eq, hat.size_eq, hroom]
    simp only [List.flatMap_append, List.flatMap_cons, List.length_append]
    omega
  cases he : l.encode with
  | error fault =>
    have hnone : l.encoded = [] := by
      rw [Line.encoded, he]
      rfl
    have hcut : mid.words.toList = pre.flatMap Line.encoded ++ l.encoded.take k ++
        List.replicate (k - l.encoded.length) 0 := by
      rw [hnone, hwords]
      simp
    refine ⟨mid, fault, ?_, .inl he, hsize, hpacked.holds ho hcut, hsizes, hinside⟩
    rw [hmid, writeLines, he]
  | ok block =>
    obtain ⟨out, hplace, hout⟩ := block.place_eq hwords
    rw [← Line.encoded_of_encode he] at hplace hout
    -- a line that encodes stops for want of room
    have hlong : ¬l.encoded.length ≤ k := by
      rcases hstops with ⟨fault, hfault⟩ | ⟨i, hi, hreach⟩
      · cases hfault.symm.trans he
      · omega
    rw [if_neg hlong, hsize, ← ho] at hplace
    have houtsize : out.size = img.size := by
      rw [← Image.length_toList, hout, hroom]
      simp only [List.length_append, List.length_take, List.length_replicate]
      omega
    refine ⟨out, .overflow img.size, ?_, .inr ⟨⟨block, he⟩, rfl⟩, houtsize, hpacked.holds ho hout,
      hsizes, hinside⟩
    rw [hmid, writeLines, he]
    simp only [hplace]

/-- An assembly succeeds exactly if no line stops. Otherwise the first line that does gives the
error : its own if it does not encode, else that the size of the image is an address outside. The
image holds the words of the lines up to there, those of the last one as far as there is room, and
zeros; no address on the way is negative. So if all lines encode, what decides is the sum of their
sizes. -/
theorem assemble_stops (ha : asm.Accepts name text a) (img : Image) :
    ((a.assemble img).2 = none ↔ ∀ l ∈ a.lines, ¬l.Stops img.size) ∧
    (∀ (pre : List Line) (l : Line) (post : List Line), a.lines = pre ++ l :: post →
      (∀ m ∈ pre, ¬m.Stops img.size) → l.Stops img.size →
        ∃ out fault, a.StoppedAt img pre l out fault) ∧
    ((∀ l ∈ a.lines, ∃ block, l.encode = .ok block) →
      ((a.assemble img).2 = none ↔ (a.lines.map (·.size)).sum ≤ img.size)) := by
  refine ⟨assemble_eq_none_iff ha, fun pre l post hs hpre => exists_stoppedAt ha hs hpre, ?_⟩
  intro hencode
  have hlaid : Laid ((0 : Nat) : Int) a.lines := Assembler.laid_of_accepts ha
  have hlimit : img.size < addressLimit := img.size_lt
  rw [hlaid.sum_size hencode, Int.ofNat_le]
  constructor
  · intro h
    exact (packed_of_assemble ha (Prod.ext rfl h)).2.1
  · intro hle
    have hpacked : Packed 0 a.lines := hlaid.packed hencode (by omega)
    exact (assemble_eq_none_iff ha).2 (hpacked.not_stops hle)

/-- A program that reserves all addresses there are, so that the lines behind come back to the
beginning. -/
def roundText : Bytes := "DAT 1\n.reserve 0x7fffffffffffffff\n.org 0\nDAT 2"

/-- The sizes of the lines add up to one word, and the last line has the address of the first. The
program does not fit all the same, and the last line is not written. -/
theorem round_assemble_stops : ∃ a out l m post, Assembler.Accepts {} "m" roundText a ∧
    a.lines = l :: m :: post ∧ (a.lines.map (·.size)).sum = 1 ∧
    a.lines.map (·.offset) = [0, 1, -0x8000000000000000, 0] ∧
    a.StoppedAt ((Image.zeros 3).write 0 [7, 7, 7]).1 [l] m out (.overflow 3) ∧
    out.words[0]? = some 1 := by
  obtain ⟨a, ha, hp⟩ := Assembler.exists_accepts {} "m" roundText
    (fun a => a.lines.map (fun l => (l.offset, l.size, l.encode.toOption)) ==
      [(0, 1, some (.words [1])), (1, 0x7fffffffffffffff, some (.zeros 0x7fffffffffffffff)),
        (-0x8000000000000000, -0x8000000000000000, none), (0, 1, some (.words [2]))])
    (by decide +kernel)
  have hlines := eq_of_beq hp
  obtain ⟨l, more, hl, hfirst, hmore⟩ := List.map_eq_cons_iff.1 hlines
  obtain ⟨m, post, rfl, hsecond, -⟩ := List.map_eq_cons_iff.1 hmore
  simp only [Prod.mk.injEq] at hfirst hsecond
  have hword : l.encoded = [1] := by
    rw [Line.encoded, hfirst.2.2]
    rfl
  have hzeros : m.encoded.length = 0x7fffffffffffffff := by
    rw [Line.encoded, hsecond.2.2]
    exact Block.length_toWords (.zeros 0x7fffffffffffffff)
  have hsize : ((Image.zeros 3).write 0 [7, 7, 7]).1.size = 3 := by decide +kernel
  have hfits : ¬l.Stops 3 := by
    rintro (⟨fault, hfault⟩ | ⟨i, hi, hreach⟩)
    · rw [hfault] at hfirst
      cases hfirst.2.2
    · rw [hword, List.length_singleton] at hi
      omega
  have hstops : m.Stops 3 := .inr ⟨2, by omega, by omega⟩
  obtain ⟨out, fault, hout⟩ := (assemble_stops ha ((Image.zeros 3).write 0 [7, 7, 7]).1).2.1
    [l] m post hl (by simpa [hsize] using hfits) (by rwa [hsize])
  have hfault : fault = .overflow 3 := by
    rcases hout.fault_eq with hfault | ⟨-, hfault⟩
    · rw [hfault] at hsecond
      cases hsecond.2.2
    · rw [hfault, hsize]
      rfl
  have hfirstWord := hout.holds.word_eq l (by simp) 0 1 (by rw [hword]; rfl)
    (by rw [hout.size_eq, hsize, hfirst.1]; decide)
  rw [hfirst.1] at hfirstWord
  refine ⟨a, out, l, m, post, ha, hl, ?_, ?_, hfault ▸ hout, hfirstWord⟩
  · have := congrArg (List.map fun x => x.2.1) hlines
    rw [List.map_map] at this
    exact (congrArg List.sum this).trans (by decide)
  · have := congrArg (List.map fun x => x.1) hlines
    rwa [List.map_map] at this

end Assembly

end Asm16
