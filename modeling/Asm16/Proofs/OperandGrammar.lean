import Asm16.Proofs.Forms
import Asm16.Proofs.LineShapes

/-!
# The grammar of operands

An operand of an instruction line is accepted exactly if it has one of the forms of
`Operand.Form`, and its code and its arithmetic are those of the form. Whether a word follows can be
seen from the tokens : one does if there is arithmetic among them, unless it is a lone literal from
0 to 30 in A position, which is a short one (`Operand.Form.expr_eq_none_iff`).

None of it depends on the labels. Tokens that differ only in what is found out about labels
(`Token.bare`) give operands that differ in nothing else, of the same size, or the same fault.
-/

namespace Asm16

/-! ## Tokens without their labels -/

theorem Token.keepsPlace_bare : Token.KeepsPlace Token.bare where
  kind_eq _ := rfl
  text_eq _ := rfl
  start_eq _ := rfl
  contents_eq _ := rfl
  value_eq t h := by simp [Token.bare, h]
  implied_eq k text hk := by simp [Token.bare, Operand.implied, hk]

/-- A line is measured by what is written, whatever is known about its labels. -/
theorem Line.measure_eq_of_bare {l m : Line} (h : m.bare = l.bare) (offset : Int) :
    (m.measure offset).map Prod.fst = (l.measure offset).map Prod.fst := by
  have hbare (l : Line) :
      (l.bare.measure offset).map Prod.fst = (l.measure offset).map Prod.fst := by
    rw [measure_map Token.keepsPlace_bare (bare_tokens l) rfl rfl]
    cases l.measure offset <;> rfl
  rw [← hbare, h, hbare]

/-! ## Tokens of lines -/

/-- A register is written as one, and a literal has a value. -/
structure Token.Meant (t : Token) : Prop where
  register : t.kind = .register →
    OperandCode.ofName? (Bytes.upper t.text) = some (Operand.registerCode t)
  literal : t.kind = .literal → ∃ n, t.value? = some n

theorem Lexer.Found.register {l : Lexeme} (h : Found l) (hk : l.kind = .register) :
    (OperandCode.ofName? (Bytes.upper l.text)).isSome := by
  cases h with
  | @bare k text hbare =>
    obtain rfl : k = .register := hk
    cases hbare
  | definition | literal | string => cases hk
  | @word s name after hname =>
    revert hk
    unfold wordLexeme
    simp only
    split
    · exact fun _ => ‹_›
    split
    · intro hk; cases hk
    split
    · intro hk; cases hk
    · intro hk; cases hk

theorem Token.meant_of_bare {t u : Token} (h : t.bare = u.bare) (hu : Lexer.Found u.toLexeme) :
    t.Meant := by
  have hkind : t.kind = u.kind := congrArg (·.kind) h
  have htext : t.text = u.text := congrArg (·.text) h
  refine ⟨fun hk => ?_, fun hk => ?_⟩
  · have hsome := hu.register (hkind ▸ hk)
    rw [← htext] at hsome
    obtain ⟨code, hcode⟩ := Option.isSome_iff_exists.1 hsome
    rw [Operand.registerCode, hcode]
    rfl
  · obtain ⟨n, hn⟩ := hu.valued.literal (hkind ▸ hk)
    have hvalue : t.value = u.value := by
      have := congrArg (·.value) h
      simpa [bare, hk, hkind ▸ hk] using this
    exact ⟨n, by rw [Lexeme.value?, hvalue, hn]; rfl⟩

theorem Line.Scanned.meant {l : Line} {mode : Mode} (h : l.Scanned mode) :
    ∀ t ∈ l.tokens, t.Meant := by
  intro t ht
  have hmem : t.bare ∈ (lex mode l.text).map Token.bare := by
    rw [← h.tokens_eq]
    exact List.mem_map_of_mem ht
  obtain ⟨u, hu, hbare⟩ := List.mem_map.1 hmem
  exact Token.meant_of_bare hbare.symm (Lexer.found_of_run {} l.text _ (Lexer.mem_place hu))

namespace Operand

variable {side : Side} {ts : List Token} {o : Operand}

/-! ## The word that follows -/

/-- A lone literal from 0 to 30 in A position, with the code it has. -/
def IsShort (side : Side) (ts : List Token) (code : OperandCode) : Prop :=
  side = .a ∧ ∃ t n, ts = [t] ∧ t.kind = .literal ∧ t.value? = some n ∧ 0 ≤ n ∧ n ≤ 30 ∧
    code = OperandCode.short + UInt16.ofInt n

theorem ofShort?_eq_some {n : Int} {code : OperandCode} :
    OperandCode.ofShort? n = some code ↔
      0 ≤ n ∧ n ≤ 30 ∧ code = OperandCode.short + UInt16.ofInt n := by
  unfold OperandCode.ofShort?
  split
  · rename_i h
    simp [h, eq_comm]
  · rename_i h
    simp only [reduceCtorEq, false_iff]
    exact fun ⟨h₀, h₃, _⟩ => h ⟨h₀, h₃⟩

theorem shortCode?_eq_some {code : OperandCode} :
    shortCode? side ts = some code ↔ IsShort side ts code := by
  unfold shortCode? IsShort
  split
  · rename_i t
    split
    · rename_i h
      simp [h, Option.bind_eq_some_iff, ofShort?_eq_some]
    · rename_i h
      simp only [reduceCtorEq, false_iff]
      rintro ⟨hside, u, n, hu, hk, -⟩
      obtain rfl := List.singleton_inj.1 hu
      exact h ⟨hside, hk⟩
  · rename_i hts
    simp only [reduceCtorEq, false_iff]
    rintro ⟨-, t, n, rfl, -⟩
    exact hts t rfl

theorem IsShort.form {code : OperandCode} (h : IsShort side ts code) :
    Form side ts ⟨code, none⟩ := by
  have hcode := shortCode?_eq_some.2 h
  obtain ⟨-, t, n, rfl, hk, -⟩ := h
  refine .short ⟨List.cons_ne_nil _ _, ?_⟩ hcode
  simp [hk, Kind.isArithmetic]

theorem not_isShort_cons {t : Token} {rest : List Token} {code : OperandCode}
    (hk : t.kind ≠ .literal) : ¬IsShort side (t :: rest) code := by
  rintro ⟨-, u, n, hu, hliteral, -⟩
  obtain ⟨rfl, -⟩ := List.cons.inj hu
  exact hk hliteral

theorem not_isShort_of_bracketed {inner : List Token} {code : OperandCode}
    (hb : Bracketed inner ts) : ¬IsShort side ts code := by
  obtain ⟨opening, closing, ho, -, rfl⟩ := hb
  exact not_isShort_cons (by simp [ho])

theorem exists_arithmetic {e : List Token} (he : IsExpression e) :
    ∃ t ∈ e, t.kind.isArithmetic := by
  obtain ⟨t, ht⟩ := List.exists_mem_of_ne_nil e he.1
  exact ⟨t, ht, he.2 t ht⟩

/-- The sign beside a register is arithmetic. -/
theorem Offset.exists_arithmetic {inner e : List Token} {r : Token} (h : Offset inner r e) :
    ∃ t ∈ inner, t.kind.isArithmetic := by
  have hsign {c : Char} {t : Token} (hs : isSign c t) : t.kind.isArithmetic := by
    rw [kind_of_isSign hs]
    rfl
  cases h with
  | plus _ hs | minus _ hs =>
    exact ⟨_, List.mem_cons_of_mem _ List.mem_cons_self, hsign hs⟩
  | behind _ hs => exact ⟨_, List.mem_append_right _ List.mem_cons_self, hsign hs⟩

theorem forall_not_arithmetic_of_bracketed {r : Token} (hb : Bracketed [r] ts)
    (hr : r.kind = .register) : ∀ t ∈ ts, t.kind.isArithmetic = false := by
  obtain ⟨opening, closing, ho, hc, rfl⟩ := hb
  simp [ho, hr, hc, Kind.isArithmetic]

/-- No word follows an operand without arithmetic, nor a short literal; one follows any other. -/
theorem Form.expr_eq_none_iff (h : Form side ts o) : o.expr = none ↔
    (∀ t ∈ ts, t.kind.isArithmetic = false) ∨ IsShort side ts o.code := by
  -- a word follows wherever arithmetic is written and no short literal is read
  have hword {e : List Token} {code : OperandCode} (hmem : ∃ t ∈ ts, t.kind.isArithmetic)
      (hshort : ¬IsShort side ts code) : (⟨code, some e⟩ : Operand).expr = none ↔
        (∀ t ∈ ts, t.kind.isArithmetic = false) ∨ IsShort side ts code := by
    obtain ⟨t, ht, harith⟩ := hmem
    refine iff_of_false nofun ?_
    rintro (hnone | h)
    · rw [hnone t ht] at harith
      cases harith
    · exact hshort h
  have hinside {inner : List Token} (hb : Bracketed inner ts)
      (hmem : ∃ t ∈ inner, t.kind.isArithmetic) : ∃ t ∈ ts, t.kind.isArithmetic := by
    obtain ⟨t, ht, harith⟩ := hmem
    exact ⟨t, hb.mem ht, harith⟩
  cases h with
  | register hk | peek hk | pushPop hk =>
    exact iff_of_true rfl (.inl (List.forall_mem_singleton.2 (by simp [hk, Kind.isArithmetic])))
  | atRegister hb hr | atStack hb hr =>
    exact iff_of_true rfl (.inl (forall_not_arithmetic_of_bracketed hb hr))
  | pick hf _ he =>
    obtain ⟨t, ht, harith⟩ := Operand.exists_arithmetic he
    exact hword ⟨t, List.mem_cons_of_mem _ (List.mem_append_left _ ht), harith⟩
      (not_isShort_cons (by simp [hf]))
  | atNext hb he =>
    exact hword (hinside hb (Operand.exists_arithmetic he)) (not_isShort_of_bracketed hb)
  | atRegisterPlus hb ho | atStackPlus hb ho =>
    exact hword (hinside hb ho.exists_arithmetic) (not_isShort_of_bracketed hb)
  | short he hc => exact iff_of_true rfl (.inr (shortCode?_eq_some.1 hc))
  | expression he hc =>
    refine hword (Operand.exists_arithmetic he) fun hshort => ?_
    rw [shortCode?_eq_some.2 hshort] at hc
    cases hc

end Operand

/-! ## Operands of a line -/

namespace Instruction

/-- The parser finds the operands of the forms and no others. -/
theorem parseOperand_eq_ok {text : Bytes} {side : Side} {ts : List Token} {o : Operand} :
    parseOperand text ts side = .ok o ↔ Operand.Form side ts o :=
  ⟨form_of_parseOperand, fun h => by rw [parseOperand, h.parse_eq]⟩

section Bare

variable {ts us : List Token} (h : us.map Token.bare = ts.map Token.bare) (text : Bytes)
  (side : Side)

include h

/-- Tokens that differ in nothing but their labels are the same operand but for the labels, or have
the same fault. -/
theorem parseOperand_eq_of_bare :
    (parseOperand text us side).map (Operand.mapTokens Token.bare) =
      (parseOperand text ts side).map (Operand.mapTokens Token.bare) := by
  rw [← parseOperand_map Token.keepsPlace_bare, h, parseOperand_map Token.keepsPlace_bare]

theorem extra_eq_of_bare : (parseOperand text us side).map Operand.extra =
    (parseOperand text ts side).map Operand.extra := by
  have hextra (ts : List Token) : (parseOperand text ts side).map Operand.extra =
      ((parseOperand text ts side).map (Operand.mapTokens Token.bare)).map Operand.extra := by
    cases parseOperand text ts side <;> simp [Except.map]
  rw [hextra, parseOperand_eq_of_bare h, ← hextra]

end Bare

/-- For a run of tokens between the separators of a line, in both positions : it is an operand
exactly if it has one of the forms, the operand being that of the form; its registers have codes and
its literals values. A word follows the operand exactly if there is arithmetic in the run, and the
run is not a short literal, which has its code. Neither the operand nor its fault, nor the size of
operand and line, depends on what is known about labels. -/
theorem parseOperand_exact {l : Line} {mode : Mode} (hl : l.Scanned mode) {opcode : Token}
    {rest run : List Token}
    (hline : l.significant.dropWhile (·.kind == .labelDef) = opcode :: rest)
    (hrun : run ∈ operandRuns rest) (side : Side) :
    (∀ o, parseOperand l.text run side = .ok o ↔ Operand.Form side run o) ∧
    (∀ t ∈ run, t.Meant) ∧
    (∀ o, parseOperand l.text run side = .ok o → (o.expr = none ↔
      (∀ t ∈ run, t.kind.isArithmetic = false) ∨ Operand.IsShort side run o.code)) ∧
    (∀ code, Operand.IsShort side run code →
      parseOperand l.text run side = .ok ⟨code, none⟩) ∧
    (∀ run', run'.map Token.bare = run.map Token.bare →
      (parseOperand l.text run' side).map (Operand.mapTokens Token.bare) =
        (parseOperand l.text run side).map (Operand.mapTokens Token.bare) ∧
      (parseOperand l.text run' side).map Operand.extra =
        (parseOperand l.text run side).map Operand.extra) ∧
    ∀ m : Line, m.bare = l.bare → ∀ offset,
      (m.measure offset).map Prod.fst = (l.measure offset).map Prod.fst := by
  have hmem {t : Token} (ht : t ∈ run) : t ∈ l.tokens := by
    have hrest : t ∈ l.significant.dropWhile (·.kind == .labelDef) := by
      rw [hline]
      exact List.mem_cons_of_mem _ (mem_of_mem_operandRuns hrun ht)
    exact List.mem_of_mem_filter ((List.dropWhile_sublist _).subset hrest)
  refine ⟨fun o => parseOperand_eq_ok, fun t ht => hl.meant t (hmem ht), fun o ho => ?_,
    fun code hcode => parseOperand_eq_ok.2 hcode.form, fun run' hrun' => ?_,
    fun m hm offset => Line.measure_eq_of_bare hm offset⟩
  · exact (parseOperand_eq_ok.1 ho).expr_eq_none_iff
  · exact ⟨parseOperand_eq_of_bare hrun' l.text side, extra_eq_of_bare hrun' l.text side⟩

/-- A label below the top of the stack, and the largest short literal. -/
def sampleOperands : Bytes := "SET [q+Sp], 30"

/-- A token of the sample without a value. -/
def sampleToken (k : Kind) (text : Bytes) (start : Nat) : Token :=
  ⟨Lexer.plain k text, start, .initial, []⟩

/-- The label use of the sample. -/
def sampleLabel : Token := ⟨⟨.labelUse, "q", some .pending, false, []⟩, 5, .initial, []⟩

/-- The literal of the sample. -/
def sampleLiteral : Token := ⟨⟨.literal, "30", some (.resolved 30), false, []⟩, 12, .initial, []⟩

/-- The first operand of the sample. -/
def sampleStack : List Token :=
  [sampleToken .addressStart "[" 4, sampleLabel, sampleToken .operator "+" 6,
    sampleToken .register "Sp" 7, sampleToken .addressEnd "]" 9]

theorem form_sampleStack : Operand.Form .b sampleStack ⟨.pick, some [sampleLabel]⟩ := by
  have hinside : Operand.Bracketed
      [sampleLabel, sampleToken .operator "+" 6, sampleToken .register "Sp" 7] sampleStack :=
    ⟨_, _, rfl, rfl, rfl⟩
  exact .atStackPlus hinside (.behind (e := [sampleLabel]) rfl rfl)
    ⟨List.cons_ne_nil _ _, by decide⟩ (by decide)

theorem sample_parseOperand_exact :
    parseOperand sampleOperands sampleStack .b = .ok ⟨.pick, some [sampleLabel]⟩ ∧
      parseOperand sampleOperands [sampleLiteral] .a = .ok ⟨0x3f, none⟩ ∧
      ∀ find, (((Line.ofText sampleOperands).resolve find).measure 0).map Prod.fst = .ok 2 := by
  have hl := Line.scanned_ofText sampleOperands
  obtain ⟨opcode, rest, hline⟩ := List.exists_cons_of_ne_nil
    (show (Line.ofText sampleOperands).significant.dropWhile (·.kind == .labelDef) ≠ [] by
      decide +kernel)
  have hruns : operandRuns rest = [sampleStack, [sampleLiteral]] := by
    have htail : operandRuns ((Line.ofText sampleOperands).significant.dropWhile
        (·.kind == .labelDef)).tail = [sampleStack, [sampleLiteral]] := by decide +kernel
    rwa [hline] at htail
  have hsize : ((Line.ofText sampleOperands).measure 0).map Prod.fst = .ok 2 := by decide +kernel
  have hstack := parseOperand_exact hl hline
    (by rw [hruns]; exact List.mem_cons_self : sampleStack ∈ _) .b
  have hshort := parseOperand_exact hl hline (by rw [hruns]; simp : [sampleLiteral] ∈ _) .a
  refine ⟨(hstack.1 _).2 form_sampleStack, ?_, fun find => ?_⟩
  · exact hshort.2.2.2.1 _ ⟨rfl, _, 30, rfl, rfl, rfl, by decide⟩
  · rw [hshort.2.2.2.2.2 _ (Line.bare_resolve find _), hsize]

end Instruction

end Asm16
