import Asm16.Proofs.Scanned

/-!
# Errors that are left after a parse

A program that was parsed has an address for every label use and a form for every operand. What can
still go wrong when it is assembled is arithmetic, the size of the image, and what only a data value
can hold (`Line.LateFault`).

The tokens of an accepted program have their values (`Assembler.known_of_accepts`) : literals since
they were read, label uses since they were resolved. So an expression has no error but those of its
evaluation (`IsExpression.evaluateTokens_error`). The operands of an instruction are expressions,
while a data value may hold anything.
-/

namespace Asm16

/-! ## Expressions with known values -/

/-- A literal or a label use has its value. -/
def Token.Known (t : Token) : Prop := Lexer.isValueless t.kind = true ∨ ∃ n, t.value? = some n

/-- The text of a token in an expression. -/
def Token.arithmetic (t : Token) : Except OperandFault Bytes :=
  match t.kind with
  | .literal | .labelUse =>
    match t.value? with
    | some n => .ok (Numeral.ofInt n)
    | none => .error (.labelMissing t.text)
  | .operator | .unaryOperator | .groupStart | .groupEnd => .ok t.text
  | .string => .error .string
  | _ => .error .form

theorem expressionText_cons (t : Token) (ts : List Token) : expressionText (t :: ts) =
    t.arithmetic >>= fun here => (expressionText ts).map fun more => here ++ " " ++ more := by
  have hmap {here : Bytes} : (expressionText ts >>= fun more =>
      (.ok (here ++ " " ++ more) : Except OperandFault Bytes)) =
        (expressionText ts).map fun more => here ++ " " ++ more := by
    cases expressionText ts <;> rfl
  rw [expressionText, Token.arithmetic]
  cases t.kind <;> first | exact hmap | rfl | (cases t.value? <;> first | exact hmap | rfl)

theorem Token.Known.arithmetic_error {t : Token} {cause : OperandFault} (ht : t.Known)
    (h : t.arithmetic = .error cause) :
    (cause = .string ∨ cause = .form) ∧ t.kind.isArithmetic = false := by
  unfold arithmetic at h
  cases hk : t.kind with
  | literal | labelUse =>
    obtain ⟨n, hn⟩ := ht.resolve_left (by simp [hk, Lexer.isValueless])
    simp [hk, hn] at h
  | operator | unaryOperator | groupStart | groupEnd => simp [hk] at h
  | string =>
    simp only [hk] at h
    exact ⟨.inl (Except.error.inj h).symm, rfl⟩
  | _ =>
    simp only [hk] at h
    exact ⟨.inr (Except.error.inj h).symm, rfl⟩

/-- A text of tokens is missing for one that has no place in arithmetic. -/
theorem expressionText_error {ts : List Token} {cause : OperandFault} (hts : ∀ t ∈ ts, t.Known)
    (h : expressionText ts = .error cause) :
    (cause = .string ∨ cause = .form) ∧ ∃ t ∈ ts, t.kind.isArithmetic = false := by
  induction ts with
  | nil => cases h
  | cons t ts ih =>
    obtain ⟨ht, hts⟩ := List.forall_mem_cons.1 hts
    rw [expressionText_cons] at h
    rcases bind_eq_error.1 h with hhere | ⟨here, -, h⟩
    · obtain ⟨hcause, hk⟩ := ht.arithmetic_error hhere
      exact ⟨hcause, t, List.mem_cons_self, hk⟩
    · obtain ⟨hcause, u, hu, hk⟩ := ih hts (map_eq_error.1 h)
      exact ⟨hcause, u, List.mem_cons_of_mem t hu, hk⟩

/-- Tokens with known values have no value for the arithmetic they hold, or because they hold
something else. -/
theorem evaluateTokens_error {ts : List Token} {cause : OperandFault} (hts : ∀ t ∈ ts, t.Known)
    (h : evaluateTokens ts = .error cause) : (∃ e, cause = .evaluation e) ∨
      (cause = .string ∨ cause = .form) ∧ ∃ t ∈ ts, t.kind.isArithmetic = false := by
  unfold evaluateTokens at h
  simp only at h
  split at h
  · cases h
  · rcases bind_eq_error.1 h with htext | ⟨s, -, h⟩
    · exact .inr (expressionText_error hts htext)
    · split at h
      · cases h
      · exact .inl ⟨_, (Except.error.inj h).symm⟩

theorem IsExpression.evaluateTokens_error {ts : List Token} {cause : OperandFault}
    (he : IsExpression ts) (hts : ∀ t ∈ ts, t.Known) (h : evaluateTokens ts = .error cause) :
    ∃ e, cause = .evaluation e := by
  rcases Asm16.evaluateTokens_error hts h with hcause | ⟨-, t, ht, hk⟩
  · exact hcause
  · rw [he.2 t ht] at hk
    cases hk

/-! ## The expressions of instructions -/

namespace Operand

variable {side : Side} {ts : List Token} {o : Operand}

theorem isValueless_of_isFrame {k : Kind} (h : isFrame k = true) : Lexer.isValueless k = true := by
  cases k <;> first | rfl | cases h

/-- An operand with known tokens is not encoded for an error of its arithmetic only. -/
theorem Form.encode_error (h : Form side ts o) (hts : ∀ t ∈ ts, t.Known) {cause : OperandFault}
    (herror : o.encode = .error cause) : ∃ e, cause = .evaluation e := by
  unfold encode at herror
  split at herror
  · cases herror
  · rename_i e he
    obtain ⟨hexpr, hmem⟩ := h.expr_spec he
    have hknown : ∀ t ∈ e, t.Known := fun t ht =>
      (hmem t ht).elim (hts t) fun hframe => .inl (isValueless_of_isFrame hframe)
    rcases bind_eq_error.1 herror with hvalue | ⟨n, -, hvalue⟩
    · exact hexpr.evaluateTokens_error hknown hvalue
    · cases hvalue

end Operand

namespace Instruction

theorem Form.encode_error {rest : List Token} {shape : Shape} {c : Instruction}
    (h : Form rest shape c) (hrest : ∀ t ∈ rest, t.Known) {cause : OperandFault}
    (herror : c.encode = .error cause) : ∃ e, cause = .evaluation e := by
  have hrun {run : List Token} (hr : run ∈ operandRuns rest) : ∀ t ∈ run, t.Known :=
    fun t ht => hrest t (mem_of_mem_operandRuns hr ht)
  cases h with
  | two hr hb ha =>
    rcases bind_eq_error.1 herror with herror | ⟨_, -, herror⟩
    · exact ha.encode_error (hrun (by simp [hr])) herror
    rcases bind_eq_error.1 herror with herror | ⟨_, -, herror⟩
    · exact hb.encode_error (hrun (by simp [hr])) herror
    · cases herror
  | jump hr ha =>
    rcases bind_eq_error.1 herror with herror | ⟨_, -, herror⟩
    · exact ha.encode_error (hrun (by simp [hr])) herror
    · cases herror
  | one hr ha =>
    rcases bind_eq_error.1 herror with herror | ⟨_, -, herror⟩
    · exact ha.encode_error (hrun (by simp [hr])) herror
    · cases herror

/-- An instruction with known tokens is not encoded for an error of its arithmetic only. -/
theorem encode_error {text : Bytes} {ts : List Token} {c : Instruction}
    (h : parse text ts = .ok (some c)) (hts : ∀ t ∈ ts, t.Known) {cause : OperandFault}
    (herror : c.encode = .error cause) : ∃ e, cause = .evaluation e := by
  obtain ⟨opcode, rest, shape, hdrop, -, hform⟩ := form_of_parse h
  refine hform.encode_error (fun t ht => hts t ?_) herror
  exact (List.dropWhile_sublist _).subset (hdrop ▸ List.mem_cons_of_mem opcode ht)

end Instruction

/-! ## The values of data lines -/

/-- The tokens of data values are tokens of the line. -/
theorem mem_of_dataRuns {ts : List Token} {current : Option (List Token)}
    {runs : List (List Token)} (h : dataRuns current ts = some runs) {run : List Token}
    (hr : run ∈ runs) {t : Token} (ht : t ∈ run) : t ∈ current.getD [] ∨ t ∈ ts := by
  fun_induction dataRuns current ts generalizing runs with
  | case1 =>
    obtain rfl := Option.some.inj h
    cases hr
  | case2 current u ts hk ih =>
    rcases ih h hr with hnil | hmem
    · cases hnil
    · exact .inr (List.mem_cons_of_mem u hmem)
  | case3 | case4 => cases h
  | case5 u ts hk front hne ih =>
    obtain ⟨more, hmore, rfl⟩ := Option.map_eq_some_iff.1 h
    rcases List.mem_cons.1 hr with rfl | hr
    · exact .inl ht
    · rcases ih hmore hr with hnil | hmem
      · cases hnil
      · exact .inr (List.mem_cons_of_mem u hmem)
  | case6 current u ts hstart hend ih =>
    rcases ih h hr with hmem | hmem
    · cases current with
      | none => cases hmem
      | some front =>
        rcases List.mem_append.1 hmem with hmem | hmem
        · exact .inl hmem
        · exact .inr (List.mem_singleton.1 hmem ▸ List.mem_cons_self)
    · exact .inr (List.mem_cons_of_mem u hmem)

theorem encodeValues_error {text : Bytes} {runs : List (List Token)} {fault : Fault}
    (h : encodeValues text runs = .error fault) : ∃ run ∈ runs, ∃ cause,
      evaluateTokens run = .error cause ∧ fault = .operand (tokenText text run) cause := by
  induction runs with
  | nil => cases h
  | cons run runs ih =>
    rcases bind_eq_error.1 h with hhere | ⟨here, -, h⟩
    · refine ⟨run, List.mem_cons_self, ?_⟩
      unfold encodeValue at hhere
      split at hhere
      · cases hhere
      split at hhere
      · cases hhere
      · exact ⟨_, by assumption, (Except.error.inj hhere).symm⟩
    · rcases bind_eq_error.1 h with hmore | ⟨more, -, h⟩
      · obtain ⟨run', hr, hcause⟩ := ih hmore
        exact ⟨run', List.mem_cons_of_mem run hr, hcause⟩
      · cases h

/-! ## Lines -/

/-- The faults that a line of a program can still have once the program is parsed. -/
inductive Line.LateFault (l : Line) : Fault → Prop
  | overflow (addr : Int) : LateFault l (.overflow addr)
  | value (hd : l.directive = none) (hc : l.code.isSome) (e : Arith.Error) :
      LateFault l (.value (.evaluation e))
  | operand {runs : List (List Token)} {run : List Token} {cause : OperandFault}
      (hk : l.kind? = some .data) (hruns : l.dataValues = .ok runs) (hr : run ∈ runs)
      (hcause : (∃ e, cause = .evaluation e) ∨ cause = .string ∨ cause = .form) :
      LateFault l (.operand (tokenText l.text run) cause)

theorem Line.mem_significant_of_dataValues {l : Line} {runs : List (List Token)}
    (h : l.dataValues = .ok runs) {run : List Token} (hr : run ∈ runs) {t : Token} (ht : t ∈ run) :
    t ∈ l.significant := by
  unfold dataValues at h
  split at h
  · rename_i hsplit
    obtain rfl := Except.ok.inj h
    exact (mem_of_dataRuns hsplit hr ht).resolve_left (by simp)
  · cases h

/-- A measured line with known tokens has no other fault. -/
theorem Line.lateFault_of_encode {l : Line} {offset : Int}
    (hm : l.measure offset = .ok (l.size, l.code)) (hts : ∀ t ∈ l.tokens, t.Known) {fault : Fault}
    (h : l.encode = .error fault) : l.LateFault fault := by
  have hsig : ∀ t ∈ l.significant, t.Known := fun t ht => hts t (List.mem_of_mem_filter ht)
  have hfill (hzeros : (if l.size < 0 then .error (.overflow l.offset)
      else .ok (.zeros l.size.toNat) : Except Fault Block) = .error fault) : l.LateFault fault := by
    split at hzeros
    · obtain rfl := Except.error.inj hzeros
      exact .overflow _
    · cases hzeros
  unfold encode at h
  split at h
  · rename_i hk
    obtain ⟨runs, hruns, -⟩ := measure_data hm hk
    rw [hruns, ok_bind] at h
    rcases bind_eq_error.1 h with hvalues | ⟨ws, -, h⟩
    · obtain ⟨run, hr, cause, hcause, rfl⟩ := encodeValues_error hvalues
      have hknown : ∀ t ∈ run, t.Known := fun t ht =>
        hsig t (mem_significant_of_dataValues hruns hr ht)
      exact .operand hk hruns hr ((evaluateTokens_error hknown hcause).imp_right And.left)
    · cases h
  · exact hfill h
  · exact hfill h
  · exact hfill h
  · split at h
    · cases h
    · rename_i c hc
      split at h
      · cases h
      · rename_i cause hcause
        obtain rfl := Except.error.inj h
        have hd : l.directive = none := by
          cases hd : l.directive with
          | none => rfl
          | some d =>
            rw [code_eq_none hm hd] at hc
            cases hc
        obtain ⟨e, rfl⟩ := Instruction.encode_error (measure_code hm hc).1 hsig hcause
        exact .value hd (Option.isSome_of_eq_some hc) e

/-- An error of writing lines is a fault of one of them. -/
theorem Assembly.writeLines_error {img out : Image} {lines : List Line} {e : Error}
    (h : writeLines img lines = (out, some e)) : ∃ l ∈ lines, ∃ fault, e = .atLine l.site fault ∧
      (l.encode = .error fault ∨ ∃ addr, fault = .overflow addr) := by
  fun_induction writeLines img lines with
  | case1 => cases h
  | case2 img l rest fault hencode =>
    obtain ⟨-, he⟩ := Prod.mk.inj h
    exact ⟨l, List.mem_cons_self, fault, (Option.some.inj he).symm, .inl hencode⟩
  | case3 img l rest block hencode img' hplace ih =>
    obtain ⟨m, hm, hfault⟩ := ih h
    exact ⟨m, List.mem_cons_of_mem l hm, hfault⟩
  | case4 img l rest block hencode img' addr hplace =>
    obtain ⟨-, he⟩ := Prod.mk.inj h
    exact ⟨l, List.mem_cons_self, _, (Option.some.inj he).symm, .inr ⟨addr, rfl⟩⟩

namespace Assembler

variable {asm : Assembler} {name text : Bytes} {a : Assembly}

/-- Every label use of an accepted program has its address. -/
theorem exists_address (h : asm.Accepts name text a) {l : Line} (hl : l ∈ a.lines) {t : Token}
    (ht : t ∈ l.tokens) (hk : t.kind = .labelUse) : ∃ addr, t.value = some (.resolved addr) := by
  obtain ⟨lines, program, placed, -, hpasses⟩ := exists_passes h
  obtain ⟨i, hi⟩ := List.mem_iff_getElem?.1 hl
  obtain ⟨j, hat⟩ := exists_tokenAt hi ht hk
  obtain ⟨label, -, hvalue⟩ := hpasses.value_eq ⟨hat, rfl⟩
  exact ⟨label.offset, hvalue⟩

/-- Every token of an accepted program has its value. -/
theorem known_of_accepts (h : asm.Accepts name text a) :
    ∀ l ∈ a.lines, ∀ t ∈ l.tokens, t.Known := by
  intro l hl t ht
  by_cases huse : t.kind = .labelUse
  · obtain ⟨addr, hvalue⟩ := exists_address h hl ht huse
    exact .inr ⟨addr, by rw [Lexeme.value?, hvalue]; rfl⟩
  by_cases hliteral : t.kind = .literal
  · obtain ⟨mode, hscanned⟩ := exists_scanned h l hl
    obtain ⟨u, hu, hbare⟩ := List.mem_map.1 (hscanned.tokens_eq ▸ List.mem_map_of_mem ht)
    have hkind : u.kind = .literal := by rw [← Token.bare_kind, hbare, Token.bare_kind, hliteral]
    obtain ⟨n, hn⟩ := (valued_of_lex mode l.text u hu).literal hkind
    have hvalue : t.bare.value = u.bare.value := by rw [hbare]
    simp only [Token.bare, hliteral, hkind, reduceCtorEq, if_false] at hvalue
    exact .inr ⟨n, by rw [Lexeme.value?, hvalue, hn]; rfl⟩
  · left
    cases hk : t.kind <;> first | rfl | exact absurd hk huse | exact absurd hk hliteral

end Assembler

/-- What is wrong with an operand or a value, if the fault of a line is about one. -/
def Fault.operandCause? : Fault → Option OperandFault
  | .operand _ cause | .value cause => some cause
  | _ => none

/-- The faults that a parse has ruled out. -/
def OperandFault.isEarly : OperandFault → Bool
  | .missing | .excess | .register | .direction | .empty | .labelMissing _ => true
  | .string | .form | .evaluation _ => false

theorem Line.LateFault.isEarly_eq {l : Line} {fault : Fault} (h : l.LateFault fault) :
    (∀ n, fault ≠ .labelMissing n) ∧ ∀ cause ∈ fault.operandCause?, cause.isEarly = false := by
  cases h with
  | overflow addr => exact ⟨by simp, by simp [Fault.operandCause?]⟩
  | value _ _ e => exact ⟨by simp, by simp [Fault.operandCause?, OperandFault.isEarly]⟩
  | operand _ _ _ hcause =>
    refine ⟨by simp, ?_⟩
    rcases hcause with ⟨e, rfl⟩ | rfl | rfl <;> simp [Fault.operandCause?, OperandFault.isEarly]

namespace Assembler

/-- After a parse only arithmetic and the image can fail. An error of assembling an accepted program
is at one of its lines : an address outside the image, the arithmetic of an instruction, or a data
value that has none, holds a string among other things, or holds what is no arithmetic. In
particular no label is missing, and no operand is missing, empty, or of the wrong kind. -/
theorem assemble_error {asm : Assembler} {name text : Bytes} {a : Assembly}
    (h : asm.Accepts name text a) {img out : Image} {e : Error}
    (he : a.assemble img = (out, some e)) : ∃ l ∈ a.lines, ∃ fault, e = .atLine l.site fault ∧
      l.LateFault fault ∧ (∀ n, fault ≠ .labelMissing n) ∧
      ∀ cause ∈ fault.operandCause?, cause.isEarly = false := by
  have hwrite : Assembly.writeLines img.cleared a.lines = (out, some e) := by
    rw [← he, assemble_of_accepts h]
  obtain ⟨l, hl, fault, rfl, hfault⟩ := Assembly.writeLines_error hwrite
  have hlate : l.LateFault fault := by
    rcases hfault with hencode | ⟨addr, rfl⟩
    · exact Line.lateFault_of_encode ((laid_of_accepts h).measure_eq hl) (known_of_accepts h l hl)
        hencode
    · exact .overflow addr
  exact ⟨l, hl, fault, rfl, hlate, hlate.isEarly_eq⟩

/-- Programs of one line, with the faults they have when they are put into an image of two words. -/
def lateSamples : List (Bytes × Fault) :=
  [("SET [0x100], 0x200", .overflow 2),
    ("top: SET 0, 1 % top", .value (.evaluation ⟨"1 % 0 ", some (.value .moduloByZero)⟩)),
    ("DAT \"ab\" , 1/0", .operand "1/0" (.evaluation ⟨"1 / 0 ", some (.value .divisionByZero)⟩)),
    ("DAT \"a\" + 1", .operand "\"a\" + 1" .string),
    ("DAT 1, [A]", .operand "[A]" .form)]

/-- Each of the faults does occur. -/
theorem sample_assemble_error : lateSamples.Forall fun sample => ∃ a, ∃ l ∈ a.lines,
    ({} : Assembler).Accepts "main" sample.1 a ∧
      (a.assemble (.zeros 2)).2 = some (.atLine l.site sample.2) ∧ l.LateFault sample.2 := by
  refine List.forall_iff_forall_mem.2 fun sample hsample => ?_
  have hrun : ∀ sample ∈ lateSamples, (({} : Assembler).parse "main" sample.1).result.toOption.any
      (fun r => r.2.isNone && decide ((r.1.assemble (.zeros 2)).2 =
        some (.atLine ⟨"main", 1, sample.1⟩ sample.2))) = true := by decide +kernel
  obtain ⟨a, ha, hp⟩ := exists_accepts _ _ _ (fun a => decide ((a.assemble (.zeros 2)).2 =
    some (.atLine ⟨"main", 1, sample.1⟩ sample.2))) (hrun sample hsample)
  have herror : a.assemble (.zeros 2) = ((a.assemble (.zeros 2)).1,
      some (.atLine ⟨"main", 1, sample.1⟩ sample.2)) := by
    rw [← of_decide_eq_true hp]
  obtain ⟨l, hl, fault, he, hlate, -⟩ := assemble_error ha herror
  obtain ⟨hsite, rfl⟩ := Error.atLine.inj he
  exact ⟨a, l, hl, ha, by rw [herror, hsite], hlate⟩

end Assembler

end Asm16
