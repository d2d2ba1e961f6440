import Asm16.Proofs.Printed
import Asm16.Proofs.SingleLine

/-!
# Reassembling printed instructions

The text of an instruction is a line of the assembly language. Its mnemonic and its operands are
lexed one after another, and parsed to an instruction whose words are those that the text was made
from, but for two literals of the A operand (`Code.isInstruction_text`). One up to 30 is read as a
short literal also where it was printed from a word of its own, and `-1` is read with a word also
where it was printed from the code (`Code.respelled`).

`Code.yields_respelled` is the statement for a program of that one line : it is assembled, to words
that are decoded to an instruction with the same opcode and the same B operand, and that one comes
back from its own text unchanged.
-/

namespace Asm16

/-! ## Printed lines -/

namespace Lexer

/-- The name of an opcode has a kind of its own. -/
def IsMnemonic (name : Bytes) (k : Kind) : Prop :=
  (k = .basicOpcode ∧ (BasicOp.ofMnemonic? name.upper).isSome = true) ∨
    (k = .specialOpcode ∧ BasicOp.ofMnemonic? name.upper = none ∧
      BasicOp.ofShorthand? name.upper = none ∧ (SpecialOp.ofMnemonic? name.upper).isSome = true)

theorem lineStep_mnemonic {c : UInt8} {name rest after : Bytes} {k : Kind}
    (hc : isNameStart c = true) (hident : identifier? (c :: rest) = some (name, after))
    (hafter : after.head? ≠ some (byte ':')) (hk : IsMnemonic name k) :
    lineStep {} c rest = ⟨[plain k name], { stage := .operands }, after⟩ := by
  have hmarks : c ≠ byte '#' ∧ c ≠ byte '.' ∧ c ≠ byte ':' := by
    grind [isNameStart, isLetter, isLower, isUpper]
  obtain ⟨hhash, hdot, hcolon⟩ := hmarks
  have hstart : (isNameStart c || decide (c = byte '.')) = true := by rw [hc, Bool.true_or]
  unfold lineStep
  rw [if_neg (not_or.2 ⟨hhash, hdot⟩)]
  simp only
  rw [if_neg hcolon, if_pos hstart, hident]
  simp only
  rw [if_neg (by simpa using hafter)]
  rcases hk with ⟨rfl, hop⟩ | ⟨rfl, hbasic, hshort, hop⟩
  · rw [if_pos (by rw [hop, Bool.true_or])]
  · rw [hbasic, hshort, if_neg (by simp), if_pos hop]

/-- A mnemonic is read up to the blank behind it. -/
theorem run_mnemonic {name : Bytes} {k : Kind} (hname : isDefineKey name = true)
    (hk : IsMnemonic name k) (tail : Bytes) : run {} (name ++ byte ' ' :: tail) =
      plain k name :: run (among 0 none false) (byte ' ' :: tail) := by
  cases name with
  | nil => cases hname
  | cons c x =>
    obtain ⟨hc, hx⟩ := Bool.and_eq_true_iff.1 hname
    have hmarks : isBlank c = false ∧ c ≠ byte ';' ∧ c ≠ byte '.' := by
      grind [isNameStart, isBlank, isLetter, isLower, isUpper]
    obtain ⟨hblank, hsemi, hdot⟩ := hmarks
    have hstops : Stops (byte ' ' :: tail) := stops_cons rfl tail
    have hident : identifier? (c :: (x ++ byte ' ' :: tail)) = some (c :: x, byte ' ' :: tail) := by
      have hall := List.all_eq_true.1 hx
      rw [identifier?_cons hdot, if_pos hc, takeWhile_append_of_head? hall hstops,
        dropWhile_append_of_head? hall hstops]
    have hstep : stepAt {} c (x ++ byte ' ' :: tail) =
        ⟨[plain k (c :: x)], { stage := .operands }, byte ' ' :: tail⟩ := by
      rw [stepAt, if_neg (by simp [hblank]), if_neg hsemi, if_pos rfl,
        lineStep_mnemonic hc hident (by simp) hk]
    rw [List.cons_append, run_cons, step, hstep]
    rcases hk with ⟨rfl, -⟩ | ⟨rfl, -⟩ <;> rfl

theorem map_toLexeme_place (mode : Mode) (n : Nat) (ls : List Lexeme) :
    (place mode n ls).map Token.toLexeme = ls := by
  induction ls generalizing n with
  | nil => rfl
  | cons l rest ih => rw [place, List.map_cons, ih]

end Lexer

open Lexer OperandCode

theorem map_toLexeme_significantTokens {mode : Mode} (s : Bytes) :
    (significantTokens (lex mode s)).map Token.toLexeme =
      (lexemes s).filter (·.kind.significant) := by
  rw [significantTokens, lex, ← map_toLexeme_place mode 0 (lexemes s), List.filter_map]
  simp [map_toLexeme_place, Function.comp_def]

theorem isBlank_head?_of_isPrintedText {s : Bytes} (h : isPrintedText s = true) (tail : Bytes) :
    ∀ c, (s ++ tail).head? = some c → isBlank c = false := by
  intro c hc
  cases s with
  | nil => cases h
  | cons d rest =>
    obtain rfl : d = c := by simpa using hc
    have hhead := (Bool.and_eq_true_iff.1 (Bool.and_eq_true_iff.1 h).1).1
    simpa using hhead

section Line

variable {b a : OperandCode} {wb wa : UInt16} {forB forA : List Lexeme} {pickB pickA : Option Int}

theorem lexemes_basic (hb : Printed b wb .b forB pickB) (ha : Printed a wa .a forA pickA)
    (op : BasicOp) :
    lexemes (op.mnemonic ++ " " ++ b.format wb .b ++ ", " ++ a.format wa .a) =
      plain .basicOpcode op.mnemonic :: plain .whitespace [byte ' '] ::
        (forB ++ (pickEnds pickB ++ plain .separator [byte ','] :: plain .whitespace [byte ' '] ::
          (forA ++ (pickEnds pickA ++ [mark .eof])))) := by
  have htext : op.mnemonic ++ " " ++ b.format wb .b ++ ", " ++ a.format wa .a =
      op.mnemonic ++ byte ' ' :: (b.format wb .b ++ byte ',' :: byte ' ' ::
        (a.format wa .a ++ [])) := by
    simp only [List.append_assoc, List.append_nil]
    rfl
  rw [lexemes, htext, run_mnemonic (by cases op <;> rfl) (.inl ⟨rfl, by cases op <;> rfl⟩),
    run_among_blank (isBlank_head?_of_isPrintedText hb.text _), hb.run_eq (stops_cons rfl _),
    run_among_comma hb.pick_eq, run_among_blank (isBlank_head?_of_isPrintedText ha.text _),
    ha.run_eq (by rintro _ ⟨⟩), run_among_nil]

theorem lexemes_special (ha : Printed a wa .a forA pickA) (op : SpecialOp) :
    lexemes (op.mnemonic ++ " " ++ a.format wa .a) =
      plain .specialOpcode op.mnemonic :: plain .whitespace [byte ' '] ::
        (forA ++ (pickEnds pickA ++ [mark .eof])) := by
  have htext : op.mnemonic ++ " " ++ a.format wa .a =
      op.mnemonic ++ byte ' ' :: (a.format wa .a ++ []) := by
    simp only [List.append_assoc, List.append_nil]
    rfl
  have hkind : BasicOp.ofMnemonic? op.mnemonic.upper = none ∧
      BasicOp.ofShorthand? op.mnemonic.upper = none ∧
      (SpecialOp.ofMnemonic? op.mnemonic.upper).isSome = true := by
    cases op <;> decide
  rw [lexemes, htext, run_mnemonic (by cases op <;> rfl) (.inr ⟨rfl, hkind⟩),
    run_among_blank (isBlank_head?_of_isPrintedText ha.text _), ha.run_eq (by rintro _ ⟨⟩),
    run_among_nil]

theorem kind_of_mem_pickEnds {pick : Option Int} {l : Lexeme} (h : l ∈ pickEnds pick) :
    l.kind = .pickEnd := by
  unfold pickEnds at h
  split at h
  · rw [List.mem_singleton.1 h]
    rfl
  · cases h

/-- The significant lexemes of an operand, with the end of a `PICK`, hold no separator. -/
theorem OperandCode.Printed.kind_ne_separator {v : OperandCode} {w : UInt16} {side : Side}
    {ls : List Lexeme} {pick : Option Int} (h : Printed v w side ls pick) {ts : List Token}
    (hts : ts.map Token.toLexeme = ls.filter (·.kind.significant) ++ pickEnds pick) :
    ∀ t ∈ ts, t.kind ≠ .separator := by
  intro t ht hk
  have hmem : t.toLexeme ∈ ls.filter (·.kind.significant) ++ pickEnds pick :=
    hts ▸ List.mem_map_of_mem ht
  rcases List.mem_append.1 hmem with hmem | hmem
  · have hprinted := h.kinds _ (List.mem_filter.1 hmem).1
    rw [show t.toLexeme.kind = .separator from hk] at hprinted
    cases hprinted
  · cases hk.symm.trans (kind_of_mem_pickEnds hmem)

theorem filter_significant_of_pickEnds (pick : Option Int) :
    (pickEnds pick).filter (·.kind.significant) = pickEnds pick := by
  cases pick <;> rfl

/-- The operands of a basic instruction are parsed as they are printed. -/
theorem exists_instruction_basic (hb : Printed b wb .b forB pickB)
    (ha : Printed a wa .a forA pickA) (op : BasicOp) (text : Bytes) {ts : List Token}
    (hts : ts.map Token.toLexeme = plain .basicOpcode op.mnemonic ::
      ((forB.filter (·.kind.significant) ++ pickEnds pickB) ++ plain .separator [byte ','] ::
        (forA.filter (·.kind.significant) ++ pickEnds pickA))) :
    ∃ i, Instruction.parse text ts = .ok (some i) ∧
      i.encode = .ok (basicWord op.code (b.respelled wb .b).1 (a.respelled wa .a).1 ::
        ((a.respelled wa .a).2 ++ (b.respelled wb .b).2)) := by
  obtain ⟨opcode, rest, rfl, hopcode, hrest⟩ := List.map_eq_cons_iff.1 hts
  obtain ⟨tsB, more, rfl, hB, hmore⟩ := List.map_eq_append_iff.1 hrest
  obtain ⟨sep, tsA, rfl, hsep, hA⟩ := List.map_eq_cons_iff.1 hmore
  obtain ⟨oB, formB, codeB, encodeB⟩ := hb.form hB
  obtain ⟨oA, formA, codeA, encodeA⟩ := ha.form hA
  have hruns : Instruction.operandRuns (tsB ++ sep :: tsA) = [tsB, tsA] := by
    rw [Instruction.operandRuns_append formA.ne_nil (hb.kind_ne_separator hB)
      (congrArg Lexeme.kind hsep), Instruction.operandRuns_single formA.ne_nil
      (ha.kind_ne_separator hA)]
  have hkind : opcode.kind = .basicOpcode := congrArg Lexeme.kind hopcode
  have hshape : Instruction.shape? opcode = some (.two op) := by
    rw [Instruction.shape?, hkind, show opcode.text = op.mnemonic from congrArg Lexeme.text hopcode]
    cases op <;> rfl
  have hform : Instruction.Form (tsB ++ sep :: tsA) (.two op) (.basic op oB oA) :=
    .two hruns formB formA
  refine ⟨_, hform.parse_eq hshape ?_, ?_⟩
  · rw [List.dropWhile_cons_of_neg (by simp [hkind])]
  · simp only [Instruction.encode, encodeA, encodeB, ok_bind, codeA, codeB, List.cons_append]

theorem exists_instruction_special (ha : Printed a wa .a forA pickA) (op : SpecialOp) (text : Bytes)
    {ts : List Token} (hts : ts.map Token.toLexeme = plain .specialOpcode op.mnemonic ::
      (forA.filter (·.kind.significant) ++ pickEnds pickA)) :
    ∃ i, Instruction.parse text ts = .ok (some i) ∧
      i.encode = .ok (specialWord op.code (a.respelled wa .a).1 :: (a.respelled wa .a).2) := by
  obtain ⟨opcode, tsA, rfl, hopcode, hA⟩ := List.map_eq_cons_iff.1 hts
  obtain ⟨oA, formA, codeA, encodeA⟩ := ha.form hA
  have hruns : Instruction.operandRuns tsA = [tsA] :=
    Instruction.operandRuns_single formA.ne_nil (ha.kind_ne_separator hA)
  have hkind : opcode.kind = .specialOpcode := congrArg Lexeme.kind hopcode
  have hshape : Instruction.shape? opcode = some (.one op) := by
    rw [Instruction.shape?, hkind, show opcode.text = op.mnemonic from congrArg Lexeme.text hopcode]
    cases op <;> rfl
  have hform : Instruction.Form tsA (.one op) (.special op oA) := .one hruns formA
  refine ⟨_, hform.parse_eq hshape ?_, ?_⟩
  · rw [List.dropWhile_cons_of_neg (by simp [hkind])]
  · simp only [Instruction.encode, encodeA, ok_bind, codeA]

theorem bytes_of_isPrintedText {s : Bytes} (h : isPrintedText s = true) :
    s.all (fun c => c != byte '\n' && c != byte '\r') = true ∧ s.length ≤ 12 := by
  obtain ⟨hfront, hlen⟩ := Bool.and_eq_true_iff.1 h
  exact ⟨(Bool.and_eq_true_iff.1 hfront).2, of_decide_eq_true hlen⟩

theorem isPlain_of_isPrinted {k : Kind} (h : k.isPrinted = true) : k.isPlain = true := by
  revert h
  cases k <;> decide

theorem isPlain_of_mem_pickEnds {pick : Option Int} {l : Lexeme} (h : l ∈ pickEnds pick) :
    l.kind.isPlain = true := by
  rw [kind_of_mem_pickEnds h]
  rfl

theorem kind_isPlain_of_lexemes {s : Bytes} (h : ∀ l ∈ lexemes s, l.kind.isPlain = true) :
    ∀ t ∈ lex .initial s, t.kind.isPlain = true :=
  fun _ ht => h _ (mem_place ht)

/-- Texts of operands stand on one line, with a mnemonic before them. -/
theorem sourceLines_printed {s : Bytes} (hne : s ≠ [])
    (hall : s.all (fun c => c != byte '\n' && c != byte '\r') = true) (hlen : s.length ≤ 32) :
    sourceLines s = ([s], false) := by
  have hnot {c : UInt8} (hc : (c != byte '\n' && c != byte '\r') = false) : c ∉ s := by
    intro hmem
    rw [List.all_eq_true.1 hall c hmem] at hc
    cases hc
  refine sourceLines_of_line hne (hnot rfl) (hnot rfl) ?_
  unfold lineLimit
  omega

theorem isInstruction_basic (hb : Printed b wb .b forB pickB) (ha : Printed a wa .a forA pickA)
    (op : BasicOp) :
    IsInstruction (op.mnemonic ++ " " ++ b.format wb .b ++ ", " ++ a.format wa .a)
      (basicWord op.code (b.respelled wb .b).1 (a.respelled wa .a).1 ::
        ((a.respelled wa .a).2 ++ (b.respelled wb .b).2)) where
  lines_eq := by
    obtain ⟨hbytesB, hlenB⟩ := bytes_of_isPrintedText hb.text
    obtain ⟨hbytesA, hlenA⟩ := bytes_of_isPrintedText ha.text
    have hlen : op.mnemonic.length = 3 := by cases op <;> rfl
    refine sourceLines_printed (by cases op <;> exact nofun) ?_ ?_
    · simp only [List.all_append, hbytesA, hbytesB]
      cases op <;> rfl
    · simp only [List.length_append, hlen]
      show 3 + 1 + _ + 2 + _ ≤ 32
      omega
  kinds := by
    refine kind_isPlain_of_lexemes ?_
    rw [lexemes_basic hb ha]
    simp only [List.forall_mem_cons, List.forall_mem_append]
    exact ⟨rfl, rfl, fun l hl => isPlain_of_isPrinted (hb.kinds l hl),
      fun l hl => isPlain_of_mem_pickEnds hl, rfl, rfl,
      fun l hl => isPlain_of_isPrinted (ha.kinds l hl), fun l hl => isPlain_of_mem_pickEnds hl,
      rfl, List.forall_mem_nil _⟩
  encodes := by
    refine exists_instruction_basic hb ha op _ ?_
    rw [map_toLexeme_significantTokens, lexemes_basic hb ha, List.filter_cons_of_pos rfl,
      List.filter_cons_of_neg Bool.false_ne_true, List.filter_append, List.filter_append,
      filter_significant_of_pickEnds, List.filter_cons_of_pos rfl,
      List.filter_cons_of_neg Bool.false_ne_true, List.filter_append, List.filter_append,
      filter_significant_of_pickEnds, List.filter_cons_of_neg Bool.false_ne_true, List.filter_nil,
      List.append_nil, ← List.append_assoc]

theorem isInstruction_special (ha : Printed a wa .a forA pickA) (op : SpecialOp) :
    IsInstruction (op.mnemonic ++ " " ++ a.format wa .a)
      (specialWord op.code (a.respelled wa .a).1 :: (a.respelled wa .a).2) where
  lines_eq := by
    obtain ⟨hbytesA, hlenA⟩ := bytes_of_isPrintedText ha.text
    have hlen : op.mnemonic.length = 3 := by cases op <;> rfl
    refine sourceLines_printed (by cases op <;> exact nofun) ?_ ?_
    · simp only [List.all_append, hbytesA]
      cases op <;> rfl
    · simp only [List.length_append, hlen]
      show 3 + 1 + _ ≤ 32
      omega
  kinds := by
    refine kind_isPlain_of_lexemes ?_
    rw [lexemes_special ha]
    simp only [List.forall_mem_cons, List.forall_mem_append]
    exact ⟨rfl, rfl, fun l hl => isPlain_of_isPrinted (ha.kinds l hl),
      fun l hl => isPlain_of_mem_pickEnds hl, rfl, List.forall_mem_nil _⟩
  encodes := by
    refine exists_instruction_special ha op _ ?_
    rw [map_toLexeme_significantTokens, lexemes_special ha, List.filter_cons_of_pos rfl,
      List.filter_cons_of_neg Bool.false_ne_true, List.filter_append, List.filter_append,
      filter_significant_of_pickEnds, List.filter_cons_of_neg Bool.false_ne_true, List.filter_nil,
      List.append_nil]

end Line

/-! ## Decoded instructions -/

theorem OperandCode.exists_short {w : UInt16} (hw : w ≤ 30) :
    ∃ n ≤ 30, short + w = short + UInt16.ofNat n :=
  ⟨w.toNat, UInt16.le_iff_toNat_le.1 hw, by rw [UInt16.ofNat_toNat]⟩

/-- A printed operand is read as one with room for its code and with the words it takes. -/
theorem OperandCode.respelled_fits {v : OperandCode} (hv : v.toNat < 64) (w : UInt16) :
    (v.respelled w .a).1.toNat < 64 ∧
      (v.respelled w .a).2.length = if (v.respelled w .a).1.nextWord then 1 else 0 := by
  unfold respelled
  split
  · rename_i hshort
    obtain ⟨n, hn, heq⟩ := exists_short hshort.2.2
    simp only [heq, toNat_short hn, nextWord_of_ofShort? (ofShort?_natCast hn)]
    exact ⟨by omega, rfl⟩
  · split
    · exact ⟨by decide, by decide⟩
    · refine ⟨hv, ?_⟩
      simp only
      split <;> rfl

namespace Code

/-- Whether the opcode of an instruction has a mnemonic. -/
def hasMnemonic (c : Code) : Bool :=
  if c.isSpecial then (SpecialOp.ofCode? c.bField).isSome else (BasicOp.ofCode? c.opField).isSome

/-- The words of the B operand, which come behind those of the A operand. -/
def forB (c : Code) : List UInt16 := c.immediates.drop (if c.aField.nextWord then 1 else 0)

/-- The instruction that the text of `c` is assembled to. A literal of the A operand that fits the
code takes no word of its own, and the short literal `-1` takes one; nothing else changes. -/
def respelled (c : Code) : Code :=
  if c.aField = next ∧ c.immediate 0 ≤ 30 then
    ⟨basicWord c.opField c.bField (short + c.immediate 0), c.immediates.drop 1⟩
  else if c.aField = 0x20 then ⟨basicWord c.opField c.bField next, 0xffff :: c.immediates⟩
  else c

/-- An instruction with as many words as its operands take. -/
def Whole (c : Code) : Prop := c.immediates.length = c.need

variable {c : Code}

theorem whole_of_decode? {ws : List UInt16} (h : decode? ws = some c) :
    c.words <+: ws ∧ c.Whole := by
  cases ws with
  | nil => cases h
  | cons w rest =>
    simp only [decode?] at h
    split at h
    · rename_i hle
      obtain rfl := Option.some.inj h
      exact ⟨List.cons_prefix_cons.2 ⟨rfl, List.take_prefix _ rest⟩, List.length_take_of_le hle⟩
    · cases h

theorem Whole.decode?_words (h : c.Whole) : decode? c.words = some c := by
  have hneed : need ⟨c.word, []⟩ = c.immediates.length := h.symm
  have hdecode := decode?_append hneed []
  rwa [List.append_nil] at hdecode

theorem basicWord_fields (c : Code) : basicWord c.opField c.bField c.aField = c.word := by
  have hlt : c.word.toNat < 65536 := c.word.toNat_lt
  rw [← UInt16.toNat_inj, toNat_basicWord, toNat_opField, toNat_bField, toNat_aField]
  omega

theorem fields_lt (c : Code) :
    c.opField.toNat < 32 ∧ c.bField.toNat < 32 ∧ c.aField.toNat < 64 := by
  rw [toNat_opField, toNat_bField, toNat_aField]
  omega

theorem bField_ne (c : Code) : c.bField ≠ 0x20 := by
  intro h
  have hlt := c.fields_lt.2.1
  rw [h] at hlt
  exact absurd hlt (by decide)

theorem Whole.length_forB (h : c.Whole) :
    c.forB.length = if !c.isSpecial && OperandCode.nextWord c.bField then 1 else 0 := by
  rw [forB, List.length_drop, h, need, Nat.add_sub_cancel_left]

/-- The word of the A operand comes before that of the B operand. -/
theorem Whole.immediates_eq (h : c.Whole) :
    c.immediates = (if c.aField.nextWord then [c.immediate 0] else []) ++ c.forB := by
  unfold forB immediate
  split
  · rename_i hnext
    have hpos : 0 < c.immediates.length := by
      rw [h, need, if_pos hnext]
      omega
    obtain ⟨w, rest, himm⟩ := List.exists_cons_of_length_pos hpos
    rw [himm]
    rfl
  · rfl

theorem Whole.forB_eq (h : c.Whole) : c.forB =
    if !c.isSpecial && OperandCode.nextWord c.bField then
      [c.immediate (if c.aField.nextWord then 1 else 0)] else [] := by
  have hlen := h.length_forB
  split
  · rename_i hnext
    rw [if_pos hnext] at hlen
    obtain ⟨w, hw⟩ := List.length_eq_one_iff.1 hlen
    have hget : c.immediate (if c.aField.nextWord then 1 else 0) = c.forB.getD 0 0 := by
      rw [immediate, forB, List.getD_eq_getElem?_getD, List.getD_eq_getElem?_getD,
        List.getElem?_drop, Nat.add_zero]
    rw [hget, hw]
    rfl
  · rename_i hnext
    rw [if_neg hnext] at hlen
    exact List.length_eq_zero_iff.1 hlen

theorem respelled_of_other (hshort : ¬(c.aField = next ∧ c.immediate 0 ≤ 30))
    (hminus : c.aField ≠ 0x20) : c.respelled = c := by
  rw [respelled, if_neg hshort, if_neg hminus]

/-- The A operand is read as it is printed, and the B operand stays as it is. -/
theorem respelled_eq (h : c.Whole) : c.respelled =
    ⟨basicWord c.opField c.bField (c.aField.respelled (c.immediate 0) .a).1,
      (c.aField.respelled (c.immediate 0) .a).2 ++ c.forB⟩ := by
  by_cases hshort : c.aField = next ∧ c.immediate 0 ≤ 30
  · rw [respelled, if_pos hshort, OperandCode.respelled, if_pos ⟨rfl, hshort⟩, forB, hshort.1]
    rfl
  by_cases hminus : c.aField = 0x20
  · rw [respelled, if_neg hshort, if_pos hminus, OperandCode.respelled,
      if_neg fun h => hshort h.2, if_pos hminus, forB, hminus]
    rfl
  · rw [respelled_of_other hshort hminus, OperandCode.respelled, if_neg fun h => hshort h.2,
      if_neg hminus]
    simp only
    rw [basicWord_fields, ← h.immediates_eq]

theorem exists_special (hm : c.hasMnemonic = true) (hs : c.isSpecial = true) :
    ∃ op : SpecialOp, SpecialOp.textOf c.bField = op.mnemonic ∧ op.code = c.bField := by
  rw [hasMnemonic, if_pos hs] at hm
  obtain ⟨op, hop⟩ := Option.isSome_iff_exists.1 hm
  refine ⟨op, by rw [SpecialOp.textOf, hop], ?_⟩
  simpa using List.find?_some hop

theorem exists_basic (hm : c.hasMnemonic = true) (hs : c.isSpecial = false) :
    ∃ op : BasicOp, BasicOp.textOf c.opField = op.mnemonic ∧ op.code = c.opField := by
  rw [hasMnemonic, if_neg (by simp [hs])] at hm
  obtain ⟨op, hop⟩ := Option.isSome_iff_exists.1 hm
  refine ⟨op, by rw [BasicOp.textOf, hop], ?_⟩
  simpa using List.find?_some hop

/-- The text of an instruction is a line of the assembly language. -/
theorem isInstruction_text (h : c.Whole) (hm : c.hasMnemonic = true) :
    IsInstruction c.text c.respelled.words := by
  obtain ⟨-, hb, ha⟩ := c.fields_lt
  obtain ⟨forA, pickA, hA⟩ : ∃ ls pick, Printed c.aField (c.immediate 0) .a ls pick :=
    exists_printed ha _
  rw [respelled_eq h, words]
  cases hs : c.isSpecial with
  | true =>
    obtain ⟨op, htext, hcode⟩ := exists_special hm hs
    have hop : c.opField = 0 := beq_iff_eq.1 hs
    have hforB : c.forB = [] := by simp [h.forB_eq, hs]
    have hline := isInstruction_special hA op
    rw [specialWord_eq, hcode] at hline
    rw [text, if_pos hs, htext, hop, hforB, List.append_nil]
    exact hline
  | false =>
    obtain ⟨op, htext, hcode⟩ := exists_basic hm hs
    obtain ⟨forB, pickB, hB⟩ : ∃ ls pick, Printed c.bField
        (c.immediate (if c.aField.nextWord then 1 else 0)) .b ls pick := exists_printed hb _
    have hspell : OperandCode.respelled c.bField
        (c.immediate (if c.aField.nextWord then 1 else 0)) .b = (c.bField, c.forB) := by
      rw [OperandCode.respelled, if_neg fun h => Side.noConfusion h.1, if_neg c.bField_ne,
        h.forB_eq, hs]
      rfl
    have hline := isInstruction_basic hB hA op
    rw [hspell, hcode] at hline
    rw [text, if_neg (by simp [hs]), htext]
    exact hline

theorem respelled_fields (h : c.Whole) : c.respelled.opField = c.opField ∧
    c.respelled.bField = c.bField ∧
    c.respelled.aField = (c.aField.respelled (c.immediate 0) .a).1 := by
  obtain ⟨hop, hb, ha⟩ := c.fields_lt
  rw [respelled_eq h]
  exact fields_basicWord hop hb (respelled_fits ha (c.immediate 0)).1 _

theorem forB_respelled (h : c.Whole) : c.respelled.forB = c.forB := by
  obtain ⟨-, -, ha⟩ := c.fields_lt
  rw [forB, (respelled_fields h).2.2, respelled_eq h, ← (respelled_fits ha (c.immediate 0)).2]
  exact List.drop_left

theorem whole_respelled (h : c.Whole) : c.respelled.Whole := by
  obtain ⟨-, -, ha⟩ := c.fields_lt
  obtain ⟨hop, hb, ha'⟩ := respelled_fields h
  have hspecial : c.respelled.isSpecial = c.isSpecial := by rw [isSpecial, hop, isSpecial]
  rw [Whole, need, hspecial, hb, ha', ← (respelled_fits ha (c.immediate 0)).2, ← h.length_forB,
    respelled_eq h, List.length_append]

theorem hasMnemonic_respelled (h : c.Whole) : c.respelled.hasMnemonic = c.hasMnemonic := by
  obtain ⟨hop, hb, -⟩ := respelled_fields h
  rw [hasMnemonic, isSpecial, hop, hb, hasMnemonic, isSpecial]

/-- `c'` is `c`, but for the spelling of a literal in the A operand. -/
structure Respells (c c' : Code) : Prop where
  opField_eq : c'.opField = c.opField
  bField_eq : c'.bField = c.bField
  forB_eq : c'.forB = c.forB
  /-- A literal up to 30 moves from the next word into the code. -/
  short_of_le : c.aField = next → c.immediate 0 ≤ 30 → c'.aField = short + c.immediate 0
  /-- The short literal `-1` moves into the next word. -/
  next_of_minusOne : c.aField = 0x20 → c'.aField = next ∧ c'.immediate 0 = 0xffff
  eq_of_other : ¬(c.aField = next ∧ c.immediate 0 ≤ 30) → c.aField ≠ 0x20 → c' = c

theorem respells_respelled (h : c.Whole) : c.Respells c.respelled where
  opField_eq := (respelled_fields h).1
  bField_eq := (respelled_fields h).2.1
  forB_eq := forB_respelled h
  short_of_le hnext hle := by
    rw [(respelled_fields h).2.2, OperandCode.respelled, if_pos ⟨rfl, hnext, hle⟩]
  next_of_minusOne hminus := by
    have hnext : (0x20 : UInt16) ≠ next := by decide
    rw [(respelled_fields h).2.2, respelled_eq h, OperandCode.respelled,
      if_neg fun h => hnext (hminus ▸ h.2.1), if_pos hminus]
    exact ⟨rfl, rfl⟩
  eq_of_other := respelled_of_other

/-- An instruction changes once at most. -/
theorem respelled_respelled (h : c.Whole) : c.respelled.respelled = c.respelled := by
  have hspell := respells_respelled h
  by_cases hshort : c.aField = next ∧ c.immediate 0 ≤ 30
  · obtain ⟨n, hn, heq⟩ := exists_short hshort.2
    have ha : c.respelled.aField = short + UInt16.ofNat n := by
      rw [hspell.short_of_le hshort.1 hshort.2, heq]
    -- the codes of the two literals that change are below those of the short ones
    exact respelled_of_other (fun h => short_ne hn (by decide) (ha ▸ h.1))
      (ha ▸ short_ne hn (by decide))
  by_cases hminus : c.aField = 0x20
  · obtain ⟨ha, himm⟩ := hspell.next_of_minusOne hminus
    refine respelled_of_other (fun h => absurd (himm ▸ h.2) (by decide)) ?_
    rw [ha]
    decide
  · rw [respelled_of_other hshort hminus, respelled_of_other hshort hminus]

/-- The text of a decoded instruction whose opcode has a mnemonic is assembled to its words, but for
the spelling of a literal in the A operand. What comes out is decoded again, and its own text is
assembled to its words exactly. -/
theorem yields_respelled {ws : List UInt16} (h : decode? ws = some c) (hm : c.hasMnemonic = true)
    {asm : Assembler} (hp : asm.predefines = []) (name : Bytes) :
    c.words <+: ws ∧ ∃ c', c.Respells c' ∧ asm.Yields name c.text c'.words ∧
      decode? c'.words = some c' ∧ asm.Yields name c'.text c'.words := by
  obtain ⟨hwords, hwhole⟩ := whole_of_decode? h
  have hwhole' := whole_respelled hwhole
  have hline := isInstruction_text hwhole hm
  have hagain := isInstruction_text hwhole' (hasMnemonic_respelled hwhole ▸ hm)
  rw [respelled_respelled hwhole] at hagain
  exact ⟨hwords, c.respelled, respells_respelled hwhole,
    Assembler.yields_of_isInstruction hp hline name, hwhole'.decode?_words,
    Assembler.yields_of_isInstruction hp hagain name⟩

/-- `SET [A+0x1234], 0x0005` with a word behind it, and `HWI -1`. -/
theorem samples_yield_respelled :
    (∃ c, decode? [0x7e01, 0x0005, 0x1234, 0x0000] = some c ∧ c.hasMnemonic = true ∧
      c.words <+: [0x7e01, 0x0005, 0x1234, 0x0000] ∧
      ∃ c', c.Respells c' ∧ ({} : Assembler).Yields "text" c.text c'.words ∧
        decode? c'.words = some c' ∧ ({} : Assembler).Yields "text" c'.text c'.words) ∧
    ∃ c, decode? [0x8240] = some c ∧ c.hasMnemonic = true ∧ c.words <+: [0x8240] ∧
      ∃ c', c.Respells c' ∧ ({} : Assembler).Yields "text" c.text c'.words ∧
        decode? c'.words = some c' ∧ ({} : Assembler).Yields "text" c'.text c'.words := by
  have hset : decode? [0x7e01, 0x0005, 0x1234, 0x0000] = some ⟨0x7e01, [0x0005, 0x1234]⟩ := by
    decide
  have hhwi : decode? [0x8240] = some ⟨0x8240, []⟩ := by decide
  exact ⟨⟨_, hset, by decide, yields_respelled hset (by decide) rfl _⟩,
    _, hhwi, by decide, yields_respelled hhwi (by decide) rfl _⟩

end Code

end Asm16
