import Asm16.Proofs.Forms
import Asm16.Proofs.Placement

/-!
# Reading instructions back

The operand parser decides from the form of an operand whether a word follows for it; the machine
decides from the operand code alone. `Operand.Form.fits` says that they agree on every operand of
the grammar, and that its code has room in the field of its side. So the fields of an instruction
word read back as they were put in, as many words follow as the machine takes
(`Instruction.decode?_encode`), and a sweep over the words of instructions finds one after another
(`sweep_packed`).
-/

namespace Asm16

/-! ## Fields of an instruction word -/

section Fields

variable (op b a : UInt16)

/-- The fields of an instruction word do not overlap. -/
theorem toNat_basicWord : (basicWord op b a).toNat =
    op.toNat % 32 + b.toNat % 32 * 32 + a.toNat % 64 * 1024 := by
  have hop : op.toNat &&& 31 = op.toNat % 32 := Nat.and_two_pow_sub_one_eq_mod _ 5
  have hb : b.toNat &&& 31 = b.toNat % 32 := Nat.and_two_pow_sub_one_eq_mod _ 5
  have ha : a.toNat &&& 63 = a.toNat % 64 := Nat.and_two_pow_sub_one_eq_mod _ 6
  have hb' : (b.toNat % 32) <<< 5 % 65536 = (b.toNat % 32) <<< 5 := by
    rw [Nat.shiftLeft_eq]
    omega
  have ha' : (a.toNat % 64) <<< 10 % 65536 = (a.toNat % 64) <<< 10 := by
    rw [Nat.shiftLeft_eq]
    omega
  have hlow : op.toNat % 32 ||| (b.toNat % 32) <<< 5 = op.toNat % 32 + b.toNat % 32 * 32 := by
    rw [Nat.or_comm, ← Nat.shiftLeft_add_eq_or_of_lt (by omega), Nat.shiftLeft_eq]
    omega
  simp only [basicWord, UInt16.toNat_or, UInt16.toNat_shiftLeft, UInt16.toNat_and,
    UInt16.reduceToNat, Nat.reduceMod, Nat.reducePow, hop, hb, ha, hb', ha', hlow]
  rw [Nat.or_comm, ← Nat.shiftLeft_add_eq_or_of_lt (by omega), Nat.shiftLeft_eq]
  omega

theorem specialWord_eq : specialWord op a = basicWord 0 op a := by
  simp [specialWord, basicWord]

variable (c : Code)

theorem toNat_opField : c.opField.toNat = c.word.toNat % 32 := by
  rw [Code.opField, UInt16.toNat_and]
  exact Nat.and_two_pow_sub_one_eq_mod _ 5

theorem toNat_bField : c.bField.toNat = c.word.toNat / 32 % 32 := by
  rw [Code.bField, UInt16.toNat_and, UInt16.toNat_shiftRight, Nat.shiftRight_eq_div_pow]
  exact Nat.and_two_pow_sub_one_eq_mod _ 5

theorem toNat_aField : c.aField.toNat = c.word.toNat / 1024 % 64 := by
  rw [Code.aField, UInt16.toNat_and, UInt16.toNat_shiftRight, Nat.shiftRight_eq_div_pow]
  exact Nat.and_two_pow_sub_one_eq_mod _ 6

/-- Fields that have room are read back as they were put in. -/
theorem fields_basicWord {op b a : UInt16} (hop : op.toNat < 32) (hb : b.toNat < 32)
    (ha : a.toNat < 64) (imm : List UInt16) : (⟨basicWord op b a, imm⟩ : Code).opField = op ∧
      (⟨basicWord op b a, imm⟩ : Code).bField = b ∧
      (⟨basicWord op b a, imm⟩ : Code).aField = a := by
  refine ⟨UInt16.toNat_inj.1 ?_, UInt16.toNat_inj.1 ?_, UInt16.toNat_inj.1 ?_⟩
  · rw [toNat_opField, toNat_basicWord]
    omega
  · rw [toNat_bField, toNat_basicWord]
    omega
  · rw [toNat_aField, toNat_basicWord]
    omega

end Fields

theorem BasicOp.code_lt (op : BasicOp) : op.code.toNat < 32 ∧ op.code ≠ 0 := by
  cases op <;> decide

theorem SpecialOp.code_lt (op : SpecialOp) : op.code.toNat < 32 := by
  cases op <;> decide

theorem BasicOp.ofCode?_code (op : BasicOp) : ofCode? op.code = some op := by
  cases op <;> decide

theorem SpecialOp.ofCode?_code (op : SpecialOp) : ofCode? op.code = some op := by
  cases op <;> decide

/-! ## Operands -/

/-- The room for an operand code in the field of a side. -/
def Side.room : Side → Nat
  | .a => 64
  | .b => 32

/-- The code of an operand has room in its field, and the machine takes a word for it exactly if it
has an expression. -/
structure Operand.Fits (o : Operand) (side : Side) : Prop where
  code_lt : o.code.toNat < side.room
  nextWord_eq : o.code.nextWord = o.expr.isSome

theorem Side.le_room (side : Side) : 32 ≤ side.room := by
  cases side <;> decide

namespace OperandCode

/-- The name of a register stands for a code that takes no word. -/
theorem ofName?_getD (name : Bytes) :
    ((ofName? name).getD 0).toNat < 32 ∧ ((ofName? name).getD 0).nextWord = false := by
  unfold ofName?
  split
  · decide
  · split
    · decide
    · split
      · decide
      · cases Register.all.find? (·.name == name) with
        | none => decide
        | some r => cases r <;> decide

/-- A short literal has the sixth bit of its code set. -/
theorem ofShort?_eq {n : Int} {v : OperandCode} (h : ofShort? n = some v) :
    v.toNat = 33 + n.toNat ∧ n.toNat ≤ 30 := by
  unfold ofShort? at h
  split at h
  · rename_i hn
    obtain rfl := Option.some.inj h
    have hof : (UInt16.ofInt n).toNat = n.toNat := by
      rw [UInt16.ofInt, UInt16.toNat_ofNat']
      omega
    rw [UInt16.toNat_add, hof]
    have : short.toNat = 33 := rfl
    omega
  · simp at h

theorem nextWord_of_ofShort? {n : Int} {v : OperandCode} (h : ofShort? n = some v) :
    v.nextWord = false := by
  obtain ⟨hv, -⟩ := ofShort?_eq h
  have hge : ∀ w : UInt16, w.toNat < 33 → v ≠ w := by
    rintro w hw rfl
    omega
  have hlt : ¬v < 0x18 := by
    rw [UInt16.lt_iff_toNat_lt, show (0x18 : UInt16).toNat = 24 from rfl]
    omega
  simp [nextWord, hlt, hge pick (by decide), hge atNext (by decide), hge next (by decide)]

end OperandCode

namespace Operand

/-- A code of five bits has room on either side. -/
theorem Fits.of_lt {code : OperandCode} {expr : Option (List Token)} {side : Side}
    (hlt : code.toNat < 32) (hnext : code.nextWord = expr.isSome) : Fits ⟨code, expr⟩ side :=
  ⟨Nat.lt_of_lt_of_le hlt side.le_room, hnext⟩

theorem Fits.extra_eq {o : Operand} {side : Side} (h : o.Fits side) :
    o.extra = if o.code.nextWord then 1 else 0 := by
  rw [extra, h.nextWord_eq]

/-- Only a short literal needs the sixth bit, and it is one of the A side only. -/
theorem fits_of_shortCode? {ts : List Token} {side : Side} {code : OperandCode}
    (h : shortCode? side ts = some code) : Fits ⟨code, none⟩ side := by
  unfold shortCode? at h
  split at h
  · split at h
    · rename_i hside
      obtain ⟨rfl, -⟩ := hside
      obtain ⟨n, -, hn⟩ := Option.bind_eq_some_iff.1 h
      obtain ⟨hcode, hle⟩ := OperandCode.ofShort?_eq hn
      refine ⟨?_, OperandCode.nextWord_of_ofShort? hn⟩
      simp only [Side.room]
      omega
    · cases h
  · cases h

/-- An operand of the grammar fits the side it was read for. -/
theorem Form.fits {ts : List Token} {side : Side} {o : Operand} (h : Form side ts o) :
    o.Fits side := by
  cases h with
  | @register r _ =>
    obtain ⟨hlt, hnext⟩ := OperandCode.ofName?_getD (Bytes.upper r.text)
    exact .of_lt hlt hnext
  | peek | pushPop | atStack => exact .of_lt (by decide) (by decide)
  | pick | atNext | atStackPlus | expression => exact .of_lt (by decide) rfl
  | @atRegister _ _ g => cases g <;> exact .of_lt (by decide) (by decide)
  | @atRegisterPlus _ _ _ _ g => cases g <;> exact .of_lt (by decide) rfl
  | short _ hc => exact fits_of_shortCode? hc

end Operand

/-! ## Instructions -/

namespace Instruction

/-- Both operands fit their sides. -/
def Fits : Instruction → Prop
  | basic _ b a => b.Fits .b ∧ a.Fits .a
  | special _ a => a.Fits .a

theorem fits_of_parse {text : Bytes} {ts : List Token} {c : Instruction}
    (h : parse text ts = .ok (some c)) : c.Fits := by
  obtain ⟨opcode, rest, shape, -, -, hform⟩ := form_of_parse h
  cases hform with
  | two _ hb ha => exact ⟨hb.fits, ha.fits⟩
  | jump _ ha => exact ⟨.of_lt (by decide) (by decide), ha.fits⟩
  | one _ ha => exact ha.fits

/-- The fields of a decoded instruction are the opcode and the operand codes of `c`, and the words
behind the first are those of its A operand and then those of its B operand. -/
def ReadBack (c : Instruction) (code : Code) : Prop :=
  match c with
  | basic op b a => code.isSpecial = false ∧ BasicOp.ofCode? code.opField = some op ∧
      code.opField = op.code ∧ code.bField = b.code ∧ code.aField = a.code ∧
      ∃ forA forB, a.encode = .ok forA ∧ b.encode = .ok forB ∧ code.immediates = forA ++ forB
  | special op a => code.isSpecial = true ∧ SpecialOp.ofCode? code.bField = some op ∧
      code.bField = op.code ∧ code.aField = a.code ∧ a.encode = .ok code.immediates

end Instruction

/-- The instruction at the front of its own words. -/
theorem Code.decode?_append {w : UInt16} {imm : List UInt16} (h : need ⟨w, []⟩ = imm.length)
    (rest : List UInt16) : decode? (w :: imm ++ rest) = some ⟨w, imm⟩ := by
  simp [decode?, h]

/-- A sweep goes on behind the words of the instruction it has read. -/
theorem Code.sweep_append {ws rest : List UInt16} {code : Code}
    (h : decode? (ws ++ rest) = some code) (hw : code.words = ws) (addr : Nat) :
    sweep addr (ws ++ rest) = (addr, code) :: sweep (addr + ws.length) rest := by
  subst hw
  rw [words, List.cons_append] at h ⊢
  rw [sweep, h]
  simp [words]

namespace Instruction

/-- An instruction is read back from its words, whatever follows them. -/
theorem decode?_encode {c : Instruction} {ws : List UInt16} (hf : c.Fits) (he : c.encode = .ok ws)
    (rest : List UInt16) :
    ∃ code, Code.decode? (ws ++ rest) = some code ∧ code.words = ws ∧ c.ReadBack code := by
  cases c with
  | basic op b a =>
    obtain ⟨hb, ha⟩ := hf
    obtain ⟨forA, hA, he⟩ := bind_eq_ok.1 he
    obtain ⟨forB, hB, he⟩ := bind_eq_ok.1 he
    obtain rfl := Except.ok.inj he
    have hfields := fields_basicWord op.code_lt.1 hb.code_lt ha.code_lt
    have hspecial : ∀ imm, Code.isSpecial ⟨basicWord op.code b.code a.code, imm⟩ = false := by
      intro imm
      rw [Code.isSpecial, (hfields imm).1]
      exact beq_eq_false_iff_ne.2 op.code_lt.2
    have hneed : Code.need ⟨basicWord op.code b.code a.code, []⟩ = (forA ++ forB).length := by
      rw [Code.need, hspecial, (hfields []).2.1, (hfields []).2.2, List.length_append,
        Operand.length_of_encode hA, Operand.length_of_encode hB, ha.extra_eq, hb.extra_eq]
      simp
    refine ⟨⟨basicWord op.code b.code a.code, forA ++ forB⟩, Code.decode?_append hneed rest, rfl,
      hspecial _, ?_, (hfields _).1, (hfields _).2.1, (hfields _).2.2, forA, forB, hA, hB, rfl⟩
    rw [(hfields _).1, BasicOp.ofCode?_code]
  | special op a =>
    obtain ⟨forA, hA, he⟩ := bind_eq_ok.1 he
    obtain rfl := Except.ok.inj he
    rw [specialWord_eq]
    have hfields := fields_basicWord (show (0 : UInt16).toNat < 32 by decide) op.code_lt hf.code_lt
    have hspecial : ∀ imm, Code.isSpecial ⟨basicWord 0 op.code a.code, imm⟩ = true := by
      intro imm
      rw [Code.isSpecial, (hfields imm).1]
      rfl
    have hneed : Code.need ⟨basicWord 0 op.code a.code, []⟩ = forA.length := by
      rw [Code.need, hspecial, (hfields []).2.2, Operand.length_of_encode hA, hf.extra_eq]
      simp
    refine ⟨⟨basicWord 0 op.code a.code, forA⟩, Code.decode?_append hneed rest, rfl,
      hspecial _, ?_, (hfields _).2.1, (hfields _).2.2, hA⟩
    rw [(hfields _).2.1, SpecialOp.ofCode?_code]

end Instruction

/-! ## Lines and programs -/

namespace Line

variable {l : Line} {offset : Int} {c : Instruction}

/-- The words of a line with an instruction are those of the instruction. -/
theorem encode_of_code (hm : l.measure offset = .ok (l.size, l.code)) (hc : l.code = some c)
    (he : ∃ block, l.encode = .ok block) : c.encode = .ok l.encoded := by
  obtain ⟨block, he⟩ := he
  rw [encoded_of_encode he]
  cases hd : l.directive with
  | some d => simp [code_eq_none hm hd] at hc
  | none =>
    simp only [encode, kind?, hd, Option.map_none, hc] at he
    cases hce : c.encode with
    | error cause => simp [hce] at he
    | ok ws =>
      obtain rfl : .words ws = block := by simpa [hce] using he
      rfl

/-- The instruction of a line is read back from the words of the line. -/
theorem decode?_encoded (hm : l.measure offset = .ok (l.size, l.code)) (hc : l.code = some c)
    (he : ∃ block, l.encode = .ok block) (rest : List UInt16) :
    ∃ code, Code.decode? (l.encoded ++ rest) = some code ∧ code.words = l.encoded ∧
      c.ReadBack code :=
  Instruction.decode?_encode (Instruction.fits_of_parse (measure_code hm hc).1)
    (encode_of_code hm hc he) rest

end Line

/-- A sweep over packed lines that hold nothing but instructions finds each of them at its address.
-/
theorem sweep_packed {pos : Nat} {lines : List Line} (h : Packed pos lines)
    (hm : ∀ l ∈ lines, l.measure l.offset = .ok (l.size, l.code))
    (hi : ∀ l ∈ lines, l.size ≠ 0 → l.code.isSome) :
    (Code.sweep pos (lines.flatMap Line.encoded)).map (fun e => (e.1, e.2.words)) =
      (lines.filter (·.code.isSome)).map fun l => (l.offset.toNat, l.encoded) := by
  induction lines generalizing pos with
  | nil => simp [Code.sweep]
  | cons l rest ih =>
    obtain ⟨hat, hrest⟩ := h
    have ih := ih hrest (fun m hmem => hm m (List.mem_cons_of_mem _ hmem))
      fun m hmem => hi m (List.mem_cons_of_mem _ hmem)
    rw [List.flatMap_cons]
    cases hc : l.code with
    | none =>
      have hsize : l.size = 0 := Decidable.byContradiction fun hne => by
        simpa [hc] using hi l List.mem_cons_self hne
      have hnil : l.encoded = [] := by
        have := hat.size_eq
        exact List.length_eq_zero_iff.1 (by omega)
      rw [List.filter_cons_of_neg (by simp [hc]), ← ih, hnil]
      rfl
    | some c =>
      obtain ⟨code, hdec, hwords, -⟩ := Line.decode?_encoded (hm l List.mem_cons_self) hc
        hat.encodes (rest.flatMap Line.encoded)
      rw [List.filter_cons_of_pos (by simp [hc]), List.map_cons, ← ih,
        Code.sweep_append hdec hwords, List.map_cons, hwords, hat.offset_eq, Int.toNat_natCast]

namespace Assembly

variable {a : Assembly}

/-- The machine reads back what was assembled. At the address of every line with an instruction it
finds the instruction that was parsed, in as many words as the line has, and a program of
instructions only is found by a sweep over it, line by line. -/
theorem decode?_assemble {asm : Assembler} {name text : Bytes} {img out : Image}
    (ha : asm.Accepts name text a) (h : a.assemble img = (out, none)) :
    (∀ l ∈ a.lines, ∀ c, l.code = some c →
      Instruction.parse l.text l.significant = .ok (some c) ∧
      ∃ code, Code.decode? (out.words.toList.drop l.offset.toNat) = some code ∧
        (code.words.length : Int) = l.size ∧ code.words = l.encoded ∧ c.ReadBack code) ∧
    ((∀ l ∈ a.lines, l.size ≠ 0 → l.code.isSome) →
      (out.codes 0 a.size.toNat).map (fun e => (e.1, e.2.words)) =
        (a.lines.filter (·.code.isSome)).map fun l => (l.offset.toNat, l.encoded)) := by
  obtain ⟨hpacked, hle, hout⟩ := packed_of_assemble ha h
  have hm : ∀ l ∈ a.lines, l.measure l.offset = .ok (l.size, l.code) :=
    fun l hl => (Assembler.laid_of_accepts ha).measure_eq hl
  refine ⟨fun l hl c hc => ⟨(Line.measure_code (hm l hl) hc).1, ?_⟩, fun hi => ?_⟩
  · obtain ⟨n, hat⟩ := hpacked.exists_at hl
    obtain ⟨rest, hdrop⟩ := hpacked.drop_eq hout hl
    obtain ⟨code, hdec, hwords, hread⟩ := Line.decode?_encoded (hm l hl) hc hat.encodes rest
    exact ⟨code, by rw [hdrop, hdec], by rw [hwords, hat.size_eq], hwords, hread⟩
  · have hslice : out.slice 0 a.size.toNat = a.lines.flatMap Line.encoded := by
      rw [Image.slice, Array.toList_extract, hout, size_of_packed hpacked, Int.toNat_natCast]
      simp [List.extract_eq_take_drop]
    rw [Image.codes, hslice]
    exact sweep_packed hpacked hm hi

/-- Instructions with no word, one word and two words behind the first, and lines without words. -/
def sampleCode : Bytes :=
  ":top SET A, 30\n\nADD [B - 2], top + 31\n; note\n.x: JMP .x\nHWN [0x1000]\nSET PUSH, PICK 1"

theorem sample_decode?_assemble : ∃ a out, Assembler.Accepts {} "m" sampleCode a ∧
    a.assemble (Image.zeros 16) = (out, none) ∧
    (∀ l ∈ a.lines, l.size ≠ 0 → l.code.isSome) ∧ (a.lines.filter (·.code.isSome)).length = 5 ∧
    (out.codes 0 a.size.toNat).map (fun e => (e.1, e.2.words)) =
      (a.lines.filter (·.code.isSome)).map fun l => (l.offset.toNat, l.encoded) := by
  obtain ⟨a, ha, h⟩ := Assembler.exists_accepts {} "m" sampleCode
    (fun a => (a.assemble (Image.zeros 16)).2 == none &&
      (a.lines.all fun l => l.size == 0 || l.code.isSome) &&
      (a.lines.filter (·.code.isSome)).length == 5) (by decide +kernel)
  simp only [Bool.and_eq_true, beq_iff_eq, List.all_eq_true, Bool.or_eq_true] at h
  obtain ⟨⟨hnone, hlines⟩, hlength⟩ := h
  have hout : a.assemble (Image.zeros 16) = (_, none) := Prod.ext rfl hnone
  have hi : ∀ l ∈ a.lines, l.size ≠ 0 → l.code.isSome :=
    fun l hl hne => (hlines l hl).resolve_left hne
  exact ⟨a, _, ha, hout, hi, hlength, (decode?_assemble ha hout).2 hi⟩

end Assembly

end Asm16
