import Asm16.Proofs.Sizes

/-!
# The image of a program

`Assembly.assemble` clears the image and writes the words of one line after another, each at the
address the layout gave it. `writeLines_packed` follows it from line to line. While nothing lies
outside the image, no address wraps around, so a line starts at the number of words written so far :
the lines are `Packed`, and the image is their words in order with zeros behind them.

From that alone follow the places of the lines (`Packed.slice_eq`), their intervals, which do not
overlap and leave nothing out (`Packed.exists_holds`), and what `Assembly.lineAt?` finds.
-/

namespace Asm16

theorem wrap_eq_self {n : Int} (h0 : 0 ≤ n) (h : n < addressLimit) : wrap n = n := by
  unfold addressLimit at h
  exact Int.bmod_eq_of_le (by omega) (by omega)

/-! ## Writing in order -/

namespace Image

variable {img : Image} {written : List UInt16} {k : Nat}

theorem length_toList (img : Image) : img.words.toList.length = img.size := Array.length_toList

@[simp] theorem toList_cleared (img : Image) :
    img.cleared.words.toList = List.replicate img.size 0 := by
  have := img.size_lt
  unfold cleared zeros
  rw [Array.toList_replicate, Nat.min_eq_left]
  unfold size
  omega

theorem size_of_toList (hw : img.words.toList = written ++ List.replicate k 0) :
    img.size = written.length + k := by
  rw [← length_toList, hw, List.length_append, List.length_replicate]

/-- Words that are written behind the ones before them take the place of zeros as far as there are
any. If there are too few, the first address outside is the size of the image. -/
theorem write_eq (hw : img.words.toList = written ++ List.replicate k 0) (ws : List UInt16) :
    ∃ out, img.write written.length ws =
        (out, if ws.length ≤ k then none else some (img.size : Int)) ∧
      out.words.toList = written ++ ws.take k ++ List.replicate (k - ws.length) 0 := by
  induction ws generalizing img written k with
  | nil => exact ⟨img, by simp [write], by simpa using hw⟩
  | cons w rest ih =>
    have hsize := size_of_toList hw
    cases k with
    | zero =>
      refine ⟨img, ?_, by simpa using hw⟩
      rw [write, if_neg (by omega), if_neg (by simp)]
      rw [hsize, Nat.add_zero]
    | succ k =>
      rw [write, if_pos (by omega)]
      generalize himg : Image.mk (img.words.setIfInBounds (written.length : Int).toNat w) _ = next
      have hset : next.words.toList = (written ++ [w]) ++ List.replicate k 0 := by
        rw [← himg, Array.toList_setIfInBounds, hw, Int.toNat_natCast, List.replicate_succ]
        simp
      have hnext : (written.length : Int) + 1 = ((written ++ [w]).length : Nat) := by simp
      have hsame : next.size = img.size := by
        rw [size_of_toList hset, hsize, List.length_append, List.length_singleton]
        omega
      obtain ⟨out, hwrite, hout⟩ := ih hset
      refine ⟨out, ?_, ?_⟩
      · rw [hnext, hwrite, hsame]
        simp
      · rw [hout]
        simp

end Image

theorem Block.place_eq {img : Image} {written : List UInt16} {k : Nat}
    (hw : img.words.toList = written ++ List.replicate k 0) (b : Block) :
    ∃ out, b.place img written.length =
        (out, if b.toWords.length ≤ k then none else some (img.size : Int)) ∧
      out.words.toList =
        written ++ b.toWords.take k ++ List.replicate (k - b.toWords.length) 0 := by
  cases b with
  | words ws => exact Image.write_eq hw ws
  | zeros n =>
    obtain ⟨out, hwrite, hout⟩ := Image.write_eq hw (List.replicate (min n (img.size + 1)) 0)
    -- cutting the zeros to one more than the image has leaves the end of it as it is
    have hsize := Image.size_of_toList hw
    refine ⟨out, ?_, ?_⟩
    · rw [place, Image.writeZeros, hwrite]
      simp only [List.length_replicate, toWords]
      congr 2
      simp only [eq_iff_iff]
      omega
    · rw [hout]
      simp only [List.length_replicate, toWords, List.take_replicate,
        show min k (min n (img.size + 1)) = min k n by omega,
        show k - min n (img.size + 1) = k - n by omega]

/-- A block that fits puts its words behind the ones before it. -/
theorem Block.place_append {img out : Image} {written : List UInt16} {k : Nat} {b : Block}
    (hw : img.words.toList = written ++ List.replicate k 0)
    (h : b.place img written.length = (out, none)) : b.toWords.length ≤ k ∧
      out.words.toList = written ++ b.toWords ++ List.replicate (k - b.toWords.length) 0 := by
  obtain ⟨out', hplace, hout⟩ := b.place_eq hw
  obtain ⟨rfl, hnone⟩ := Prod.mk.inj (h.symm.trans hplace)
  split at hnone
  · rename_i hle
    exact ⟨hle, by rw [hout, List.take_of_length_le hle]⟩
  · cases hnone

/-! ## Lines one after another, exactly -/

/-- A line that stands at address `pos` with all its words. -/
structure Line.At (l : Line) (pos : Nat) : Prop where
  offset_eq : l.offset = pos
  encodes : ∃ block, l.encode = .ok block
  size_eq : l.size = l.encoded.length
  stop_eq : l.stop = l.offset + l.size

/-- Lines that stand one after another from address `pos` on, each with all its words. -/
def Packed (pos : Nat) : List Line → Prop
  | [] => True
  | l :: rest => l.At pos ∧ Packed (pos + l.encoded.length) rest

/-- Writing lines that are laid out behind the words before them, as long as they fit. -/
theorem writeLines_packed {lines : List Line} {img out : Image} {written : List UInt16} {k : Nat}
    (hw : img.words.toList = written ++ List.replicate k 0) (hl : Laid written.length lines)
    (h : Assembly.writeLines img lines = (out, none)) :
    Packed written.length lines ∧ (lines.flatMap Line.encoded).length ≤ k ∧
      out.words.toList = written ++ lines.flatMap Line.encoded ++
        List.replicate (k - (lines.flatMap Line.encoded).length) 0 := by
  induction lines generalizing img written k with
  | nil =>
    obtain ⟨rfl, -⟩ := Prod.mk.inj h
    exact ⟨trivial, by simpa using hw⟩
  | cons l rest ih =>
    obtain ⟨ho, hm, hrest⟩ := hl
    rw [Assembly.writeLines] at h
    cases he : l.encode with
    | error fault => simp [he] at h
    | ok block =>
      simp only [he, ho] at h
      rcases hp : block.place img written.length with ⟨mid, _ | addr⟩
      · rw [hp] at h
        obtain ⟨hle, hmid⟩ := Block.place_append hw hp
        have henc := Line.encoded_of_encode he
        have hsize := Line.length_encoded hm he
        rw [← henc] at hle hmid hsize
        have hlen := Image.size_of_toList hw
        -- the line ends inside the image, so its end did not wrap around
        have hstop : l.stop = l.offset + l.size := by
          have := img.size_lt
          rw [Line.stop]
          refine wrap_eq_self (by omega) ?_
          unfold Image.size at hlen
          omega
        have hnext : l.stop = ((written ++ l.encoded).length : Nat) := by
          rw [hstop, ho, ← hsize, List.length_append]
          omega
        rw [hnext] at hrest
        obtain ⟨hpacked, hle', hout⟩ := ih hmid hrest h
        rw [List.length_append] at hpacked
        rw [List.flatMap_cons, List.length_append]
        refine ⟨⟨⟨ho, ⟨block, he⟩, hsize.symm, hstop⟩, hpacked⟩, by omega, ?_⟩
        rw [hout, Nat.sub_sub, List.append_assoc written]
      · simp [hp] at h

/-! ## Addresses of packed lines -/

/-- An address among the words of a line. -/
def Line.Holds (l : Line) (addr : Int) : Prop := l.offset ≤ addr ∧ addr < l.offset + l.size

namespace Packed

variable {pos : Nat} {lines pre post : List Line} {l : Line} {addr : Int}

theorem of_append (h : Packed pos (pre ++ post)) :
    Packed (pos + (pre.flatMap Line.encoded).length) post := by
  induction pre generalizing pos with
  | nil => exact h
  | cons m rest ih =>
    rw [List.flatMap_cons, List.length_append, ← Nat.add_assoc]
    exact ih h.2

/-- A line stands behind the words of the lines before it. -/
theorem at_of_append (h : Packed pos (pre ++ l :: post)) :
    l.At (pos + (pre.flatMap Line.encoded).length) := h.of_append.1

theorem exists_at (h : Packed pos lines) (hl : l ∈ lines) : ∃ n, l.At n := by
  obtain ⟨pre, post, rfl⟩ := List.append_of_mem hl
  exact ⟨_, h.at_of_append⟩

theorem foldl_stop (h : Packed pos lines) : lines.foldl (fun n l => max n l.stop) (pos : Int) =
    ((pos + (lines.flatMap Line.encoded).length : Nat) : Int) := by
  induction lines generalizing pos with
  | nil => rfl
  | cons l rest ih =>
    obtain ⟨hl, hrest⟩ := h
    have hmax : max (pos : Int) l.stop = ((pos + l.encoded.length : Nat) : Int) := by
      rw [hl.stop_eq, hl.offset_eq, hl.size_eq]
      omega
    rw [List.foldl_cons, hmax, ih hrest, List.flatMap_cons, List.length_append, Nat.add_assoc]

/-- The words of packed lines are at or after the first address and before the last. -/
theorem range_of_holds (h : Packed pos lines) (hl : l ∈ lines) (hh : l.Holds addr) :
    (pos : Int) ≤ addr ∧ addr < ((pos + (lines.flatMap Line.encoded).length : Nat) : Int) := by
  obtain ⟨pre, post, rfl⟩ := List.append_of_mem hl
  obtain ⟨h1, h2⟩ := hh
  rw [h.at_of_append.size_eq] at h2
  rw [h.at_of_append.offset_eq] at h1 h2
  simp only [List.flatMap_append, List.flatMap_cons, List.length_append]
  omega

/-- Every address among the words of packed lines belongs to exactly one of the lines. -/
theorem exists_holds (h : Packed pos lines) (hlo : (pos : Int) ≤ addr)
    (hhi : addr < ((pos + (lines.flatMap Line.encoded).length : Nat) : Int)) :
    ∃ pre l post, lines = pre ++ l :: post ∧ l.Holds addr ∧ ∀ m ∈ pre ++ post, ¬m.Holds addr := by
  induction lines generalizing pos with
  | nil =>
    simp only [List.flatMap_nil, List.length_nil] at hhi
    omega
  | cons l rest ih =>
    obtain ⟨hl, hrest⟩ := h
    have hiff : l.Holds addr ↔ addr < ((pos + l.encoded.length : Nat) : Int) := by
      unfold Line.Holds
      rw [hl.size_eq, hl.offset_eq]
      omega
    rw [List.flatMap_cons, List.length_append, ← Nat.add_assoc] at hhi
    by_cases hin : addr < ((pos + l.encoded.length : Nat) : Int)
    · refine ⟨[], l, rest, rfl, hiff.2 hin, fun m hm hh => ?_⟩
      have := (hrest.range_of_holds hm hh).1
      omega
    · obtain ⟨pre, m, post, rfl, hm, hother⟩ := ih hrest (by omega) hhi
      refine ⟨l :: pre, m, post, rfl, hm, fun m' hm' => ?_⟩
      rcases List.mem_cons.1 hm' with rfl | hm'
      · exact fun hh => hin (hiff.1 hh)
      · exact hother m' hm'

theorem holds_iff (h : Packed pos lines) (hl : l ∈ lines) :
    l.Holds addr ↔ l.offset ≤ addr ∧ addr < l.stop := by
  obtain ⟨n, hat⟩ := h.exists_at hl
  rw [hat.stop_eq]
  rfl

/-- The words of a line stand at its address. -/
theorem drop_eq {img : Image} {more : List UInt16} (h : Packed 0 lines)
    (hw : img.words.toList = lines.flatMap Line.encoded ++ more) (hl : l ∈ lines) :
    ∃ rest, img.words.toList.drop l.offset.toNat = l.encoded ++ rest := by
  obtain ⟨pre, post, rfl⟩ := List.append_of_mem hl
  refine ⟨post.flatMap Line.encoded ++ more, ?_⟩
  rw [hw, h.at_of_append.offset_eq, Int.toNat_natCast, Nat.zero_add, List.flatMap_append,
    List.flatMap_cons, List.append_assoc, List.drop_left, List.append_assoc]

theorem slice_eq {img : Image} {more : List UInt16} (h : Packed 0 lines)
    (hw : img.words.toList = lines.flatMap Line.encoded ++ more) (hl : l ∈ lines) :
    img.slice l.offset.toNat (l.offset + l.size).toNat = l.encoded := by
  obtain ⟨n, hat⟩ := h.exists_at hl
  obtain ⟨rest, hdrop⟩ := h.drop_eq hw hl
  have hcount : (l.offset + l.size).toNat - l.offset.toNat = l.encoded.length := by
    rw [hat.size_eq, hat.offset_eq]
    omega
  rw [Image.slice, Array.toList_extract, List.extract_eq_take_drop, hdrop, hcount, List.take_left]

end Packed

namespace Assembly

variable {a : Assembly} {addr : Int}

theorem size_of_packed (h : Packed 0 a.lines) :
    a.size = ((a.lines.flatMap Line.encoded).length : Int) := by
  have := h.foldl_stop
  rwa [Nat.zero_add] at this

theorem lineAt?_of_holds (h : Packed 0 a.lines) {pre post : List Line} {l : Line}
    (hs : a.lines = pre ++ l :: post) (hl : l.Holds addr) (hpre : ∀ m ∈ pre, ¬m.Holds addr) :
    a.lineAt? addr = some l := by
  rw [lineAt?, List.find?_eq_some_iff_append]
  refine ⟨?_, pre, post, hs, fun m hm => ?_⟩
  · simpa using (h.holds_iff (by simp [hs])).1 hl
  · have := mt (h.holds_iff (by simp [hs, hm])).2 (hpre m hm)
    simpa [Decidable.imp_iff_not_or] using this

theorem lineAt?_eq_none (h : Packed 0 a.lines) (hl : ∀ l ∈ a.lines, ¬l.Holds addr) :
    a.lineAt? addr = none := by
  rw [lineAt?, List.find?_eq_none]
  intro l hmem
  have := mt (h.holds_iff hmem).2 (hl l hmem)
  simpa using this

/-- An assembly that succeeds writes lines that are packed. -/
theorem packed_of_assemble {asm : Assembler} {name text : Bytes} {img out : Image}
    (ha : asm.Accepts name text a) (h : a.assemble img = (out, none)) :
    Packed 0 a.lines ∧ (a.lines.flatMap Line.encoded).length ≤ img.size ∧
      out.words.toList = a.lines.flatMap Line.encoded ++
        List.replicate (img.size - (a.lines.flatMap Line.encoded).length) 0 := by
  rw [Assembler.assemble_of_accepts ha] at h
  have hw : img.cleared.words.toList = [] ++ List.replicate img.size 0 := Image.toList_cleared img
  exact writeLines_packed hw (Assembler.laid_of_accepts ha) h

/-- What an assembly that succeeds leaves in the image, whatever was there before : the words of the
lines in order and zeros behind them. The words of a line stand at its address; every address below
the size of the program belongs to exactly one line, which is the one `lineAt?` finds, and no other
address does. -/
theorem assemble_eq_flatMap_encoded {asm : Assembler} {name text : Bytes} {img out : Image}
    (ha : asm.Accepts name text a) (h : a.assemble img = (out, none)) :
    (∀ l ∈ a.lines, ∃ block, l.encode = .ok block ∧ l.encoded = block.toWords) ∧
    out.size = img.size ∧ a.size = (a.lines.flatMap Line.encoded).length ∧ a.size ≤ img.size ∧
    out.words.toList =
      a.lines.flatMap Line.encoded ++ List.replicate (img.size - a.size.toNat) 0 ∧
    (∀ l ∈ a.lines, 0 ≤ l.offset ∧ 0 ≤ l.size ∧
      out.slice l.offset.toNat (l.offset + l.size).toNat = l.encoded) ∧
    (∀ addr : Int, 0 ≤ addr → addr < a.size → ∃ pre l post, a.lines = pre ++ l :: post ∧
      l.Holds addr ∧ (∀ m ∈ pre ++ post, ¬m.Holds addr) ∧ a.lineAt? addr = some l) ∧
    (∀ addr : Int, addr < 0 ∨ a.size ≤ addr →
      (∀ l ∈ a.lines, ¬l.Holds addr) ∧ a.lineAt? addr = none) ∧
    (∀ i : Nat, a.size ≤ i → i < img.size → out.words[i]? = some 0) := by
  obtain ⟨hpacked, hle, hout⟩ := packed_of_assemble ha h
  have hsize := size_of_packed hpacked
  have hrange : ∀ {addr : Int} {l}, l ∈ a.lines → l.Holds addr → 0 ≤ addr ∧ addr < a.size := by
    intro addr l hl hh
    have := hpacked.range_of_holds hl hh
    omega
  refine ⟨fun l hl => ?_, ?_, hsize, by omega, by rw [hsize, Int.toNat_natCast, hout],
    fun l hl => ⟨?_, ?_, hpacked.slice_eq hout hl⟩, fun addr h0 h1 => ?_, fun addr haddr => ?_,
    fun i hi hi' => ?_⟩
  · obtain ⟨n, hat⟩ := hpacked.exists_at hl
    obtain ⟨block, he⟩ := hat.encodes
    exact ⟨block, he, Line.encoded_of_encode he⟩
  · rw [← Image.length_toList, hout, List.length_append, List.length_replicate]
    omega
  · obtain ⟨n, hat⟩ := hpacked.exists_at hl
    rw [hat.offset_eq]
    omega
  · obtain ⟨n, hat⟩ := hpacked.exists_at hl
    rw [hat.size_eq]
    omega
  · have hhi : addr < ((0 + (a.lines.flatMap Line.encoded).length : Nat) : Int) := by omega
    obtain ⟨pre, l, post, hs, hl, hother⟩ := hpacked.exists_holds h0 hhi
    exact ⟨pre, l, post, hs, hl, hother,
      lineAt?_of_holds hpacked hs hl fun m hm => hother m (List.mem_append_left _ hm)⟩
  · have hnone : ∀ l ∈ a.lines, ¬l.Holds addr := fun l hl hh => by
      have := hrange hl hh
      omega
    exact ⟨hnone, lineAt?_eq_none hpacked hnone⟩
  · rw [← Array.getElem?_toList, hout, List.getElem?_append_right (by omega),
      List.getElem?_replicate, if_pos (by omega)]

/-- The sample fits an image of one word more than it has, whatever that held. -/
theorem sample_assemble_eq_flatMap_encoded : ∃ a out, sampleAssembler.Accepts "m" sampleText a ∧
    a.assemble ((Image.zeros 24).write 20 [7, 7, 7, 7]).1 = (out, none) ∧ a.size = 23 ∧
    out.words.toList = a.lines.flatMap Line.encoded ++ [0] := by
  obtain ⟨a, ha, h⟩ := sampleAssembler.exists_accepts "m" sampleText
    (fun a => (a.assemble ((Image.zeros 24).write 20 [7, 7, 7, 7]).1).2 == none && a.size == 23)
    (by decide +kernel)
  obtain ⟨h1, h2⟩ := Bool.and_eq_true_iff.1 h
  have hout : a.assemble ((Image.zeros 24).write 20 [7, 7, 7, 7]).1 = (_, none) :=
    Prod.ext rfl (eq_of_beq h1)
  have hsize : a.size = 23 := eq_of_beq h2
  have hlen : ((Image.zeros 24).write 20 [7, 7, 7, 7]).1.size = 24 := by decide +kernel
  have hwords := (assemble_eq_flatMap_encoded ha hout).2.2.2.2.1
  rw [hsize, hlen] at hwords
  exact ⟨a, _, ha, hout, hsize, hwords⟩

end Assembly

end Asm16
