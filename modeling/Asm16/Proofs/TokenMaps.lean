import Asm16.Assembly

/-!
# Maps of tokens that keep the form of a line

The form of a line is decided by the kinds and texts of its tokens, by the values of its literals
and by the contents of its strings. A map of tokens that keeps all of them keeps the form
(`Token.KeepsForm`) : reading operands, an instruction or data values from mapped tokens gives the
mapped operands, instruction or values. If the places of tokens are kept too
(`Token.KeepsPlace`), faults stay as they are, with the text they quote.

`Line.measure_map` is the sum of it : a line with mapped tokens has the size it had before, and the
mapped instruction.
-/

namespace Asm16

/-- A map of tokens that changes nothing but where they stand and what is found out about labels. -/
structure Token.KeepsForm (f : Token → Token) : Prop where
  kind_eq : ∀ t, (f t).kind = t.kind
  text_eq : ∀ t, (f t).text = t.text
  contents_eq : ∀ t, (f t).contents = t.contents
  value_eq : ∀ t, t.kind = .literal → (f t).value = t.value
  implied_eq : ∀ k text, k ≠ .labelUse → f (Operand.implied k text) = Operand.implied k text

/-- A map of tokens that changes nothing but what is found out about labels. -/
structure Token.KeepsPlace (f : Token → Token) : Prop extends Token.KeepsForm f where
  start_eq : ∀ t, (f t).start = t.start

/-- An operand with the tokens of its expression mapped. -/
def Operand.mapTokens (f : Token → Token) (o : Operand) : Operand :=
  { o with expr := o.expr.map (·.map f) }

/-- An instruction with the tokens of its operands mapped. -/
def Instruction.mapTokens (f : Token → Token) : Instruction → Instruction
  | basic op b a => basic op (b.mapTokens f) (a.mapTokens f)
  | special op a => special op (a.mapTokens f)

variable {f : Token → Token}

theorem significantTokens_map (hk : ∀ t, (f t).kind = t.kind) (ts : List Token) :
    significantTokens (ts.map f) = (significantTokens ts).map f := by
  simp [significantTokens, List.filter_map, Function.comp_def, hk]

theorem dropWhile_labelDef_map (hk : ∀ t, (f t).kind = t.kind) (ts : List Token) :
    (ts.map f).dropWhile (·.kind == .labelDef) = (ts.dropWhile (·.kind == .labelDef)).map f := by
  simp [List.dropWhile_map, Function.comp_def, hk]

section Forms

variable (hf : Token.KeepsForm f)

include hf

/-! ## Operands -/

theorem checkExpression_map (ts : List Token) :
    checkExpression (ts.map f) = checkExpression ts := by
  have hfault (t : Token) : expressionFault? (f t) = expressionFault? t := by
    simp only [expressionFault?, hf.kind_eq]
  simp only [checkExpression, List.isEmpty_map, List.findSome?_map, Function.comp_def, hfault]

namespace Operand

theorem closesLast_map (depth : Int) (ts : List Token) :
    closesLast depth (ts.map f) = closesLast depth ts := by
  induction ts generalizing depth with
  | nil => rfl
  | cons t rest ih => simp only [List.map_cons, closesLast, hf.kind_eq, ih, List.isEmpty_map]

theorem isSign_map (sign : Char) (t : Token) : isSign sign (f t) = isSign sign t := by
  simp only [isSign, hf.kind_eq, hf.text_eq]

theorem negate_map (ts : List Token) : negate (ts.map f) = (negate ts).map f := by
  unfold negate
  rw [List.isEmpty_map]
  split
  · rfl
  · simp [hf.implied_eq]

theorem offsetForm?_map (ts : List Token) :
    offsetForm? (ts.map f) = (offsetForm? ts).map (List.map f) := by
  match ts with
  | [] => rfl
  | [t] => rfl
  | r :: sign :: rest =>
    simp only [offsetForm?, List.map_cons, hf.kind_eq, isSign_map hf, negate_map hf]
    split
    · split
      · rfl
      · split <;> rfl
    · -- the register stands last : the same look at the tokens from their end
      have hrev : (f r :: f sign :: rest.map f).reverse = ((r :: sign :: rest).reverse).map f := by
        rw [← List.map_cons, ← List.map_cons, List.map_reverse]
      rw [hrev]
      cases h : (r :: sign :: rest).reverse with
      | nil => rfl
      | cons last more =>
        cases more with
        | nil => rfl
        | cons sign' front =>
          simp only [List.map_cons, hf.kind_eq, isSign_map hf]
          split <;> simp [List.map_reverse]

theorem registerCode_map (r : Token) : registerCode (f r) = registerCode r := by
  rw [registerCode, registerCode, hf.text_eq]

theorem parseAddress_map (inner : List Token) :
    parseAddress (inner.map f) = (parseAddress inner).map (mapTokens f) := by
  have hregs : (inner.map f).filter (·.kind == .register) =
      (inner.filter (·.kind == .register)).map f := by
    simp [List.filter_map, Function.comp_def, hf.kind_eq]
  unfold parseAddress
  rw [hregs, checkExpression_map hf, offsetForm?_map hf, List.length_map]
  cases inner.filter (·.kind == .register) with
  | nil => cases checkExpression inner <;> rfl
  | cons r more =>
    cases more with
    | cons _ _ => rfl
    | nil =>
      simp only [List.map_cons, List.map_nil, registerCode_map hf]
      split
      · split
        · rfl
        · split <;> rfl
      · cases offsetForm? inner with
        | none => rfl
        | some offset =>
          simp only [Option.map_some, checkExpression_map hf]
          cases checkExpression offset with
          | error e => rfl
          | ok _ =>
            simp only [bind, Except.bind]
            split
            · rfl
            · split <;> rfl

omit hf in
theorem parseStack_map (word : Bytes) (side : Side) :
    (parseStack word side).map (mapTokens f) = parseStack word side := by
  simp only [parseStack, apply_ite (Except.map (mapTokens f))]
  rfl

/-- The short form is that of a literal, which keeps its value. -/
theorem shortCode?_map (side : Side) (ts : List Token) :
    shortCode? side (ts.map f) = shortCode? side ts := by
  match ts with
  | [] => rfl
  | [t] =>
    simp only [List.map_cons, List.map_nil, shortCode?, hf.kind_eq]
    split
    · rename_i h
      rw [Lexeme.value?, Lexeme.value?, hf.value_eq t h.2]
    · rfl
  | t :: u :: rest => rfl

theorem parseExpression_map (ts : List Token) (side : Side) :
    parseExpression (ts.map f) side = (parseExpression ts side).map (mapTokens f) := by
  unfold parseExpression
  rw [checkExpression_map hf, shortCode?_map hf]
  cases checkExpression ts with
  | error e => rfl
  | ok _ => cases shortCode? side ts <;> rfl

theorem parse_map (ts : List Token) (side : Side) :
    parse (ts.map f) side = (parse ts side).map (mapTokens f) := by
  match ts with
  | [] => rfl
  | first :: rest =>
    have hlast : ((first :: rest).map f).getLast?.any (·.kind == .pickEnd) =
        (first :: rest).getLast?.any (·.kind == .pickEnd) := by
      rw [List.getLast?_map]
      cases (first :: rest).getLast? <;> simp [hf.kind_eq]
    have hexpr := parseExpression_map hf (first :: rest) side
    simp only [List.map_cons] at hlast hexpr
    simp only [parse, List.map_cons, List.isEmpty_map, hf.kind_eq, hf.text_eq, hlast, hexpr,
      registerCode_map hf, ← List.map_dropLast, checkExpression_map hf, parseAddress_map hf,
      closesLast_map hf]
    split
    · rfl
    · split
      · exact (parseStack_map _ side).symm
      · split
        · split
          · cases checkExpression rest.dropLast <;> rfl
          · rfl
        · split <;> rfl

omit hf in
@[simp] theorem extra_mapTokens (o : Operand) : (o.mapTokens f).extra = o.extra := by
  simp [extra, mapTokens]

end Operand

/-! ## Instructions -/

namespace Instruction

theorem shape?_map (t : Token) : shape? (f t) = shape? t := by
  simp only [shape?, hf.kind_eq, hf.text_eq]

theorem operandRuns_map (ts : List Token) :
    operandRuns (ts.map f) = (operandRuns ts).map (List.map f) := by
  unfold operandRuns
  rw [List.isEmpty_map]
  split
  · rfl
  · rw [List.foldr_map]
    refine (List.foldr_hom (List.map (List.map f)) fun t runs => ?_ :
      _ = List.map _ (List.foldr _ [[]] ts))
    rw [hf.kind_eq]
    split
    · rfl
    · cases runs <;> rfl

omit hf in
@[simp] theorem size_mapTokens (c : Instruction) : (c.mapTokens f).size = c.size := by
  cases c <;> simp [mapTokens, size]

/-- The number of operands of an opcode. -/
def Shape.count : Shape → Nat
  | two _ => 2
  | jump _ | one _ => 1

/-- An instruction from the runs of tokens that are its operands; `parse` reads one of them, and
`wrong` is the fault if there are too few or too many. -/
def ofRuns {ε : Type} (parse : List Token → Side → Except ε Operand) (wrong : OperandFault → ε) :
    Shape → List (List Token) → Except ε Instruction
  | .two op, [b, a] => do
    let b ← parse b .b
    let a ← parse a .a
    .ok (basic op b a)
  | .jump op, [a] => do
    let a ← parse a .a
    .ok (basic op ⟨.pc, none⟩ a)
  | .one op, [a] => do
    let a ← parse a .a
    .ok (special op a)
  | shape, runs => .error (wrong (if runs.length < shape.count then .missing else .excess))

omit hf in
theorem parse_eq (text : Bytes) (ts : List Token) : parse text ts =
    match ts.dropWhile (·.kind == .labelDef) with
    | [] => .ok none
    | opcode :: rest =>
      match shape? opcode with
      | none => .error (.operand opcode.text .form)
      | some shape => (ofRuns (parseOperand text) (.operand (tokenText text (opcode :: rest))) shape
          (operandRuns rest)).map some := by
  unfold parse
  cases ts.dropWhile (·.kind == .labelDef) with
  | nil => rfl
  | cons opcode rest =>
    simp only
    generalize operandRuns rest = runs
    cases shape? opcode with
    | none => rfl
    | some shape =>
      match shape, runs with
      | .two op, [b, a] =>
        simp only [ofRuns]
        cases parseOperand text b .b with
        | error e => rfl
        | ok b => cases parseOperand text a .a <;> rfl
      | .jump op, [a] | .one op, [a] =>
        simp only [ofRuns]
        cases parseOperand text a .a <;> rfl
      | .two op, [] | .two op, [_] | .two op, _ :: _ :: _ :: _ => rfl
      | .jump op, [] | .jump op, _ :: _ :: _ | .one op, [] | .one op, _ :: _ :: _ => rfl

omit hf in
theorem ofRuns_map {ε : Type} {parse parse' : List Token → Side → Except ε Operand}
    (h : ∀ run side, parse' (run.map f) side = (parse run side).map (Operand.mapTokens f))
    (wrong : OperandFault → ε) (shape : Shape) (runs : List (List Token)) :
    ofRuns parse' wrong shape (runs.map (List.map f)) =
      (ofRuns parse wrong shape runs).map (mapTokens f) := by
  match shape, runs with
  | .two op, [b, a] =>
    simp only [List.map_cons, List.map_nil, ofRuns, h]
    cases parse b .b with
    | error e => rfl
    | ok b => cases parse a .a <;> rfl
  | .jump op, [a] | .one op, [a] =>
    simp only [List.map_cons, List.map_nil, ofRuns, h]
    cases parse a .a <;> rfl
  | .two op, [] | .two op, [_] => rfl
  | .two op, _ :: _ :: _ :: _ => simp [ofRuns, Except.map]
  | .jump op, [] | .one op, [] => rfl
  | .jump op, _ :: _ :: _ | .one op, _ :: _ :: _ => simp [ofRuns, Except.map]

end Instruction

end Forms

section Places

variable (hf : Token.KeepsPlace f)

include hf

theorem tokenText_map (text : Bytes) (ts : List Token) :
    tokenText text (ts.map f) = tokenText text ts := by
  have hstop (t : Token) : (f t).stop = t.stop := by
    rw [Token.stop, Token.stop, hf.start_eq, hf.text_eq]
  unfold tokenText
  rw [List.head?_map, List.getLast?_map]
  cases ts.head? <;> cases ts.getLast? <;> simp [hstop, hf.start_eq]

namespace Instruction

theorem parseOperand_map (text : Bytes) (ts : List Token) (side : Side) :
    parseOperand text (ts.map f) side = (parseOperand text ts side).map (Operand.mapTokens f) := by
  unfold parseOperand
  rw [Operand.parse_map hf.toKeepsForm, tokenText_map hf]
  cases Operand.parse ts side <;> rfl

theorem parse_map (text : Bytes) (ts : List Token) :
    parse text (ts.map f) = (parse text ts).map (Option.map (mapTokens f)) := by
  rw [parse_eq, parse_eq, dropWhile_labelDef_map hf.kind_eq]
  cases ts.dropWhile (·.kind == .labelDef) with
  | nil => rfl
  | cons opcode rest =>
    have hwhole := tokenText_map hf text (opcode :: rest)
    simp only [List.map_cons] at hwhole
    simp only [List.map_cons, shape?_map hf.toKeepsForm, operandRuns_map hf.toKeepsForm, hwhole,
      hf.text_eq, ofRuns_map (parseOperand_map hf text)]
    cases shape? opcode with
    | none => rfl
    | some shape =>
      simp only
      generalize ofRuns (parseOperand text) _ shape (operandRuns rest) = r
      cases r <;> rfl

end Instruction

end Places

/-! ## Data values -/

section Data

variable (hk : ∀ t, (f t).kind = t.kind)

include hk

/-- The values of a data line are told apart by the kinds of its tokens. -/
theorem dataRuns_map (ts : List Token) (current : Option (List Token)) :
    dataRuns (current.map (List.map f)) (ts.map f) =
      (dataRuns current ts).map (List.map (List.map f)) := by
  induction ts generalizing current with
  | nil => rfl
  | cons t rest ih =>
    simp only [List.map_cons, dataRuns, hk]
    split
    · exact ih (some [])
    · match current with
      | none => rfl
      | some [] => rfl
      | some (u :: run) =>
        simp only [Option.map_some, List.map_cons]
        rw [show dataRuns none (rest.map f) = _ from ih none]
        cases dataRuns none rest <;> rfl
    · rw [← ih]
      cases current <;> simp

theorem loneString?_map (hc : ∀ t, (f t).contents = t.contents) (run : List Token) :
    loneString? (run.map f) = loneString? run := by
  match run with
  | [] => rfl
  | [t] => simp only [List.map_cons, List.map_nil, loneString?, hk, hc]
  | _ :: _ :: _ => rfl

theorem Line.significant_map {l m : Line} (htokens : m.tokens = l.tokens.map f) :
    m.significant = l.significant.map f := by
  rw [significant, htokens, significantTokens_map hk]
  rfl

theorem Line.dataValues_map {l m : Line} (htokens : m.tokens = l.tokens.map f)
    (hdirective : m.directive = l.directive) :
    m.dataValues = l.dataValues.map (List.map (List.map f)) := by
  unfold dataValues
  rw [significant_map hk htokens, hdirective,
    show dataRuns none _ = _ from dataRuns_map hk l.significant none]
  cases dataRuns none l.significant <;> rfl

end Data

/-! ## Lines -/

section Lines

variable (hf : Token.KeepsPlace f)

include hf

theorem dataSizes_map (runs : List (List Token)) :
    dataSizes (runs.map (List.map f)) = dataSizes runs := by
  induction runs with
  | nil => rfl
  | cons run rest ih =>
    rw [List.map_cons, dataSizes, dataSizes, dataSize, dataSize,
      loneString?_map hf.kind_eq hf.contents_eq, ih]

/-- A line with mapped tokens has the size of the line, and its instruction mapped. -/
theorem Line.measure_map {l m : Line} (htokens : m.tokens = l.tokens.map f)
    (htext : m.text = l.text) (hdirective : m.directive = l.directive) (offset : Int) :
    m.measure offset =
      (l.measure offset).map fun r => (r.1, r.2.map (Instruction.mapTokens f)) := by
  unfold measure
  rw [hdirective, htext, significant_map hf.kind_eq htokens, Instruction.parse_map hf,
    dataValues_map hf.kind_eq htokens hdirective]
  cases l.directive with
  | none =>
    rcases Instruction.parse l.text l.significant with e | _ | code
    · rfl
    · rfl
    · simp [bind, Except.bind, Except.map]
  | some d =>
    cases hk : d.kind with
    | origin | align | reserve =>
      simp only [hk]
      cases d.evaluate with
      | error e => rfl
      | ok n =>
        simp only [bind, Except.bind]
        split <;> rfl
    | inclusion | define =>
      simp only [hk]
      rfl
    | data =>
      simp only [hk]
      cases l.dataValues with
      | error e => rfl
      | ok runs => simp [bind, Except.bind, Except.map, dataSizes_map hf]

end Lines

end Asm16
