import Asm16.Proofs.DataSeries
import Asm16.Proofs.Scanned

/-!
# The shape of a line

A line begins with label definitions. What comes behind them is decided by the first word that is
none (`LineTurn`) : an opcode with its operands, a directive with its parameters, or a data
directive with its values. A run of the lexer is taken apart there (`decided_run`); behind the word
it stays in one stage of the line, and what is found there is known for each of them (`LineRest`).

Tokens without errors have one of these forms (`LineShape`). In particular the first token of an
instruction is always an opcode the machine has.
-/

namespace Asm16

/-- Something other than white space stands before the end of the line or a comment. -/
def hasOperand (s : Bytes) : Bool := (s.dropWhile isBlank).head?.any (· ≠ byte ';')

/-- What the word of a directive stands for. -/
def Lexeme.directiveKind? (l : Lexeme) : Option DirectiveKind :=
  DirectiveKind.ofKeyword? (directiveKeyword l.text)

/-- What may stand behind the label definitions of a line; `Values` are the forms of data values. -/
inductive LineBody (Values : List Kind → Prop) : List Token → Prop
  | nothing : LineBody Values []
  | instruction {op : Token} {ts : List Token} (hop : (Instruction.shape? op).isSome = true)
      (hts : ∀ t ∈ ts, t.kind.isPart = true) : LineBody Values (op :: ts)
  | directive {d : Token} {ts : List Token} {k : DirectiveKind} (hd : d.kind = .directive)
      (hk : d.directiveKind? = some k) (hne : k ≠ .data) (hts : ∀ t ∈ ts, t.kind = .parameters)
      (hone : ts.length ≤ 1) : LineBody Values (d :: ts)
  | data {d : Token} {ts : List Token} (hd : d.kind = .directive)
      (hk : d.directiveKind? = some .data) (hts : ts = [] ∨ Values (ts.map (·.kind))) :
      LineBody Values (d :: ts)

/-- The tokens of a line : label definitions, and behind them an instruction, a directive with its
parameters, a directive with its data values, or nothing. -/
def LineShape (Values : List Kind → Prop) (ts : List Token) : Prop :=
  ∃ labels body, ts = labels ++ body ∧ (∀ t ∈ labels, t.kind = .labelDef) ∧ LineBody Values body

theorem LineBody.mono {V W : List Kind → Prop} {ts : List Token} (h : LineBody V ts)
    (hVW : ∀ ks, V ks → ks = [] ∨ W ks) : LineBody W ts := by
  cases h with
  | nothing => exact .nothing
  | instruction hop hts => exact .instruction hop hts
  | directive hd hk hne hts hone => exact .directive hd hk hne hts hone
  | data hd hk hts =>
    refine .data hd hk ?_
    rcases hts with rfl | hts
    · exact .inl rfl
    · exact (hVW _ hts).imp_left List.map_eq_nil_iff.1

/-- The values of a line that begins with a data directive. -/
theorem LineShape.values {V : List Kind → Prop} {d : Token} {ts : List Token}
    (h : LineShape V (d :: ts)) (hd : d.kind = .directive) (hk : d.directiveKind? = some .data) :
    ts = [] ∨ V (ts.map (·.kind)) := by
  obtain ⟨labels, body, hts, hlabels, hbody⟩ := h
  cases labels with
  | cons t labels =>
    obtain ⟨rfl, -⟩ := List.cons.inj hts
    exact absurd (hd.symm.trans (hlabels d List.mem_cons_self)) (by decide)
  | nil =>
    obtain rfl : d :: ts = body := hts
    cases hbody with
    | instruction hop =>
      unfold Instruction.shape? at hop
      simp [hd] at hop
    | directive _ hk' hne => exact absurd (Option.some.inj (hk'.symm.trans hk)) hne
    | data _ _ hts => exact hts

/-! ## Directive words -/

theorem encode_lowerChar_of_isLetter : ∀ c : UInt8, isLetter c = true → c < 0x80 ∧
    Utf8.encode (lowerChar (Char.ofNat c.toNat)) = [lowerByte c] :=
  Numeral.forall_byte (by decide +kernel)

/-- Letters of ASCII are put in lower case byte by byte. -/
theorem lowerText_of_isLetter {w : Bytes} (hw : ∀ c ∈ w, isLetter c = true) :
    lowerText w = w.lower := by
  induction w with
  | nil => simp [lowerText, Utf8.mapChars, Utf8.chars, Bytes.lower]
  | cons c w ih =>
    obtain ⟨hc, hw⟩ := List.forall_mem_cons.1 hw
    obtain ⟨hascii, hencode⟩ := encode_lowerChar_of_isLetter c hc
    have hnext : Utf8.next c w = (Char.ofNat c.toNat, w) := by
      simp [Utf8.next, Utf8.char?, hascii]
    have ih := ih hw
    rw [lowerText, Utf8.mapChars] at ih ⊢
    rw [Utf8.chars, hnext, List.flatMap_cons, hencode, ih]
    rfl

theorem ne_mark_of_isLetter : ∀ c : UInt8, isLetter c = true →
    (c = byte '#' || c = byte '.') = false :=
  Numeral.forall_byte (by decide +kernel)

theorem directiveKeyword_of_isLetter {w : Bytes} (hw : ∀ c ∈ w, isLetter c = true) :
    directiveKeyword w = w.lower := by
  have hdrop : (w.dropWhile fun c => c = byte '#' || c = byte '.') = w := by
    cases w with
    | nil => rfl
    | cons c w =>
      exact List.dropWhile_cons_of_neg
        (by rw [ne_mark_of_isLetter c (hw c List.mem_cons_self)]; exact Bool.false_ne_true)
  rw [directiveKeyword, hdrop, lowerText_of_isLetter hw]

theorem directiveKeyword_mark {c : UInt8} (hc : c = byte '#' ∨ c = byte '.') {w : Bytes}
    (hw : ∀ c ∈ w, isLetter c = true) : directiveKeyword (c :: w) = w.lower := by
  rw [← directiveKeyword_of_isLetter hw, directiveKeyword,
    List.dropWhile_cons_of_pos (by simpa using hc), directiveKeyword]

/-- The words with values are the keywords of data. -/
theorem ofKeyword?_of_values {w : Bytes} (h : directiveForm? w = some .values) :
    DirectiveKind.ofKeyword? w = some .data ∧ ∀ c ∈ w, isLetter c = true := by
  have hwords : ∀ x ∈ ["dat", "dw", "data"],
      DirectiveKind.ofKeyword? (Bytes.ofString x) = some .data ∧
        ∀ c ∈ Bytes.ofString x, isLetter c = true := by decide +kernel
  unfold directiveForm? at h
  split at h
  · cases h
  split at h
  · rename_i hany
    obtain ⟨x, hx, hw⟩ := List.any_eq_true.1 hany
    rw [← beq_iff_eq.1 hw]
    exact hwords x hx
  · cases h

/-- The words with parameters are the keywords of all other directives. -/
theorem exists_ofKeyword?_of_parameters {w : Bytes} (h : directiveForm? w = some .parameters) :
    ∃ k, DirectiveKind.ofKeyword? w = some k ∧ k ≠ .data := by
  have hwords : ∀ x ∈ ["include", "define", "org", "origin", "align", "reserve", "res"],
      ∃ k ∈ DirectiveKind.all, DirectiveKind.ofKeyword? (Bytes.ofString x) = some k ∧
        k ≠ .data := by decide +kernel
  unfold directiveForm? at h
  split at h
  · rename_i hany
    obtain ⟨x, hx, hw⟩ := List.any_eq_true.1 hany
    rw [← beq_iff_eq.1 hw]
    obtain ⟨k, -, hk⟩ := hwords x hx
    exact ⟨k, hk⟩
  · split at h <;> cases h

theorem lowerByte_upperByte : ∀ c : UInt8, lowerByte (upperByte c) = lowerByte c :=
  Numeral.forall_byte (by decide +kernel)

theorem isLetter_of_lowerByte : ∀ c : UInt8, isLetter (lowerByte c) = true → isLetter c = true :=
  Numeral.forall_byte (by decide +kernel)

theorem Bytes.lower_upper (w : Bytes) : w.upper.lower = w.lower := by
  simp [upper, lower, lowerByte_upperByte]

/-- A word without a mark that has values. -/
theorem directiveKind?_of_word {name : Bytes}
    (h : directiveForm? (Bytes.lower (Bytes.upper name)) = some .values) :
    DirectiveKind.ofKeyword? (directiveKeyword name) = some .data := by
  rw [Bytes.lower_upper] at h
  obtain ⟨hk, hletters⟩ := ofKeyword?_of_values h
  have hname : ∀ c ∈ name, isLetter c = true := fun c hc =>
    isLetter_of_lowerByte c (hletters _ (List.mem_map_of_mem hc))
  rwa [directiveKeyword_of_isLetter hname]

namespace Lexer

variable {st : State} {c : UInt8} {rest : Bytes}

/-! ## Behind the parameters -/

/-- Nothing but white space and a comment stands behind parameters. -/
theorem hasOperand_drop_parameterText (body : Bytes) :
    hasOperand (body.drop ((parameterText none body).dropEnd isBlank).length) = false := by
  obtain ⟨tail, hbody, htail⟩ := exists_parameterText_append none body
  obtain ⟨back, hparams, hback⟩ := exists_dropEnd_append isBlank (parameterText none body)
  have hsplit : body.drop ((parameterText none body).dropEnd isBlank).length = back ++ tail := by
    generalize (parameterText none body).dropEnd isBlank = params at hparams
    rw [hbody, hparams, List.append_assoc, List.drop_left]
  have hstop : ∀ c, tail.head? = some c → isBlank c = false := by
    intro c hc
    rw [htail c hc]
    rfl
  rw [hsplit, hasOperand, dropWhile_append_of_head? hback hstop]
  cases tail with
  | nil => rfl
  | cons c tail => simp [htail c rfl]

/-! ## States in which nothing is open -/

/-- No bracket, no `PICK` and no data value is open. -/
structure State.Idle (st : State) : Prop where
  depth_eq : st.depth = 0
  pick_eq : st.pick = none
  inValue_eq : st.inValue = false
  trailing_eq : st.trailing = false

theorem State.Idle.of_eq {st' : State} (h : st.Idle) {stage : Stage} {afterValue : Bool}
    (hst : st' = { st with stage, afterValue }) : st'.Idle := by
  subst hst
  exact ⟨h.depth_eq, h.pick_eq, h.inValue_eq, h.trailing_eq⟩

theorem State.Idle.meaning_closeValue (h : st.Idle) : meaning (closeValue st).1 = [] := by
  rw [Lexer.meaning_closeValue, h.pick_eq, h.inValue_eq, h.trailing_eq]
  rfl

theorem State.Idle.inData (h : st.Idle) (hstage : st.stage = .data) : st.InData :=
  ⟨hstage, fun _ => h.trailing_eq, fun _ => h.depth_eq, fun _ => by simp [h.pick_eq],
    fun _ _ => h.pick_eq⟩

theorem State.Idle.phase_eq (h : st.Idle) : st.phase = .idle := by
  rw [State.phase, h.inValue_eq, h.trailing_eq]
  rfl

theorem hasOperand_of_isBlank (hc : isBlank c = true) (rest : Bytes) :
    hasOperand (rest.dropWhile isBlank) = hasOperand (c :: rest) := by
  have hhead := head?_dropWhile isBlank rest
  rw [hasOperand, hasOperand, List.dropWhile_cons_of_pos hc]
  cases hrest : rest.dropWhile isBlank with
  | nil => rfl
  | cons d more => rw [List.dropWhile_cons_of_neg (by simp [hhead d (by rw [hrest]; rfl)])]

theorem hasOperand_of_not_isBlank (hc : isBlank c = false) (rest : Bytes) :
    hasOperand (c :: rest) = decide (c ≠ byte ';') := by
  rw [hasOperand, List.dropWhile_cons_of_neg (by simp [hc])]
  rfl

/-- Nothing that carries meaning is found in white space and a comment. -/
theorem meaning_run_of_not_hasOperand {s : Bytes} (h : st.Idle) (hs : hasOperand s = false) :
    meaning (run st s) = [] := by
  fun_induction run st s with
  | case1 st =>
    rw [meaning_append, h.meaning_closeValue]
    rfl
  | case2 st c rest ih =>
    by_cases hblank : isBlank c = true
    · rw [step_blank hblank] at ih ⊢
      rw [← hasOperand_of_isBlank hblank] at hs
      exact ih h hs
    · rw [hasOperand_of_not_isBlank (Bool.not_eq_true _ ▸ hblank)] at hs
      obtain rfl : c = byte ';' := by simpa using hs
      rw [← run_cons, meaning_run_comment, h.meaning_closeValue]

theorem meaning_operandStep_ne_nil (h : st.Idle) (hstage : st.stage = .data) (c : UInt8)
    (rest : Bytes) : meaning (operandStep st c rest).emitted ≠ [] := by
  unfold operandStep
  split
  · simp [meaning_commaStep]
  · rw [if_pos ⟨hstage, by simp [h.inValue_eq]⟩, meaning_cons_of_significant rfl]
    exact List.cons_ne_nil _ _

/-- A data line with an operand has a value. -/
theorem meaning_run_ne_nil {s : Bytes} (h : st.Idle) (hstage : st.stage = .data)
    (hs : hasOperand s = true) : meaning (run st s) ≠ [] := by
  fun_induction run st s with
  | case1 st => cases hs
  | case2 st c rest ih =>
    by_cases hblank : isBlank c = true
    · rw [step_blank hblank] at ih ⊢
      rw [← hasOperand_of_isBlank hblank] at hs
      exact ih h hstage hs
    · rw [Bool.not_eq_true] at hblank
      rw [hasOperand_of_not_isBlank hblank, decide_eq_true_eq] at hs
      have hemitted : (step st c rest).emitted = (operandStep st c rest).emitted := by
        rw [step, stepAt_data hstage hblank hs]
      rw [meaning_append, hemitted]
      exact List.append_ne_nil_of_left_ne_nil (meaning_operandStep_ne_nil h hstage c rest) _

/-! ## Operands -/

theorem isPart_meaning_closeValue (hin : st.inValue = false) (ht : st.trailing = false) :
    ∀ k ∈ meaning (closeValue st).1, k.isPart = true := by
  rw [meaning_closeValue, hin, ht, List.append_assoc]
  exact List.forall_mem_append.2 ⟨forall_mem_ite (by rfl) _, fun _ hk => absurd hk List.not_mem_nil⟩

theorem isPart_meaning_commaStep (hstage : st.stage = .operands) (rest : Bytes) :
    ∀ k ∈ meaning (commaStep st rest).emitted, k.isPart = true := by
  have hdata : ¬(st.stage = .data ∧ st.depth = 0) := by simp [hstage]
  rw [meaning_commaStep, if_neg hdata, List.append_nil]
  exact List.forall_mem_append.2 ⟨forall_mem_ite (by rfl) _, List.forall_mem_singleton.2 rfl⟩

theorem isPart_meaning_valueStep (st : State) (c : UInt8) (rest : Bytes) :
    ∀ k ∈ meaning (valueStep st c rest).emitted, k.isPart = true := by
  obtain ⟨l, hl, hk⟩ := exists_single_valueStep st c rest
  rw [hl.emitted_eq, meaning_cons_of_significant (Kind.significant_of_isPart hk)]
  exact List.forall_mem_singleton.2 hk

/-- Behind an opcode there is nothing but parts of operands. -/
theorem isPart_of_run {s : Bytes} (hstage : st.stage = .operands) (hin : st.inValue = false)
    (ht : st.trailing = false) : ∀ k ∈ meaning (run st s), k.isPart = true := by
  fun_induction run st s with
  | case1 st =>
    rw [← run.eq_1, meaning_run_nil]
    exact isPart_meaning_closeValue hin ht
  | case2 st c rest ih =>
    by_cases hblank : isBlank c = true
    · rw [step_blank hblank] at ih ⊢
      exact ih hstage hin ht
    by_cases hsemi : c = byte ';'
    · subst hsemi
      rw [← run_cons, meaning_run_comment]
      exact isPart_meaning_closeValue hin ht
    · have hat : stepAt st c rest = operandStep st c rest := by
        rw [stepAt, if_neg hblank, if_neg hsemi, if_neg (by simp [hstage])]
      rw [step, hat] at ih ⊢
      rw [meaning_append]
      by_cases hcomma : c = byte ','
      · rw [operandStep, if_pos hcomma] at ih ⊢
        exact List.forall_mem_append.2 ⟨isPart_meaning_commaStep hstage rest,
          ih hstage (by simp [commaStep, hin]) (by simp [commaStep, hstage, ht])⟩
      · rw [operandStep, if_neg hcomma, if_neg (by simp [hstage])] at ih ⊢
        obtain ⟨hstage', hin', ht'⟩ := valueStep_state st c rest
        exact List.forall_mem_append.2 ⟨isPart_meaning_valueStep st c rest,
          ih (hstage'.trans hstage) (hin'.trans hin) (ht'.trans ht)⟩

/-! ## The word that decides a line -/

/-- An opcode the machine has. -/
def IsOpcode (l : Lexeme) : Prop := (Instruction.shape? ⟨l, 0, .initial, []⟩).isSome = true

theorem IsOpcode.kind_eq {l : Lexeme} (h : IsOpcode l) :
    l.kind = .basicOpcode ∨ l.kind = .specialOpcode := by
  unfold IsOpcode Instruction.shape? at h
  cases hk : l.kind <;> simp [hk] at h ⊢

theorem IsOpcode.significant {l : Lexeme} (h : IsOpcode l) : l.kind.significant = true := by
  rcases h.kind_eq with hk | hk <;> rw [hk] <;> rfl

/-- What a step before the mnemonic makes of a line. -/
inductive LineTurn (st : State) : Step → Prop
  | stay {l : Lexeme} {rest : Bytes} (hl : l.kind = .labelDef ∨ l.kind = .error) :
      LineTurn st ⟨[l], st, rest⟩
  | unknown {l : Lexeme} {rest : Bytes} (hl : l.kind = .error) :
      LineTurn st ⟨[l], { st with stage := .operands }, rest⟩
  | opcode {l : Lexeme} {rest : Bytes} (hl : IsOpcode l) :
      LineTurn st ⟨[l], { st with stage := .operands }, rest⟩
  | data {l : Lexeme} {rest : Bytes} (hl : l.kind = .directive)
      (hk : l.directiveKind? = some .data) : LineTurn st ⟨[l], { st with stage := .data }, rest⟩
  | parameters {l : Lexeme} {ls : List Lexeme} {rest : Bytes} {k : DirectiveKind}
      (hl : l.kind = .directive) (hk : l.directiveKind? = some k) (hne : k ≠ .data)
      (hls : meaning ls = [] ∨ meaning ls = [.parameters]) (hrest : hasOperand rest = false) :
      LineTurn st ⟨l :: ls, { st with stage := .done }, rest⟩

theorem meaning_parameters (space params : Bytes) :
    meaning ((if space.isEmpty then [] else [plain .whitespace space]) ++
      (if params.isEmpty then [] else [plain .parameters params])) =
        if params.isEmpty then [] else [.parameters] := by
  rw [meaning_append]
  split <;> split <;> rfl

theorem lineTurn_directive? {s : Step} (hc : c = byte '#' ∨ c = byte '.')
    (h : directive? st c rest = some s) : LineTurn st s := by
  have hletters : ∀ d ∈ rest.takeWhile isLetter, isLetter d = true :=
    List.all_eq_true.1 List.all_takeWhile
  simp only [directive?] at h
  split at h
  · cases h
  split at h
  · cases h
  · rename_i hform
    obtain rfl := Option.some.inj h
    refine .data rfl ?_
    show DirectiveKind.ofKeyword? (directiveKeyword (c :: rest.takeWhile isLetter)) = _
    rw [directiveKeyword_mark hc hletters]
    exact (ofKeyword?_of_values hform).1
  · rename_i hform
    obtain rfl := Option.some.inj h
    obtain ⟨k, hk, hne⟩ := exists_ofKeyword?_of_parameters hform
    rw [← directiveKeyword_mark hc hletters] at hk
    rw [List.append_assoc, List.singleton_append]
    refine .parameters rfl hk hne ?_ (hasOperand_drop_parameterText _)
    rw [meaning_parameters]
    split
    · exact .inl rfl
    · exact .inr rfl

theorem isOpcode_basic {name : Bytes} (h : (BasicOp.ofMnemonic? name.upper).isSome ||
    (BasicOp.ofShorthand? name.upper).isSome) : IsOpcode (plain .basicOpcode name) := by
  unfold IsOpcode Instruction.shape?
  cases hs : BasicOp.ofShorthand? name.upper with
  | some op => simp [plain, hs]
  | none => simpa [plain, hs] using h

theorem lineTurn_lineStep (st : State) (c : UInt8) (rest : Bytes) :
    LineTurn st (lineStep st c rest) := by
  unfold lineStep
  split
  · rename_i s hs
    split at hs
    · rename_i hc
      exact lineTurn_directive? hc hs
    · cases hs
  split
  · split
    · exact .stay (.inr rfl)
    · exact .stay (.inl rfl)
  split
  · split
    · exact .stay (.inr rfl)
    · split
      · exact .stay (.inl rfl)
      · simp only
        split
        · rename_i hop
          exact .opcode (isOpcode_basic hop)
        · split
          · rename_i hop
            exact .opcode (by simpa [IsOpcode, Instruction.shape?, plain] using hop)
          · split
            · rename_i hform
              exact .data rfl (directiveKind?_of_word hform)
            · exact .unknown rfl
  · exact .unknown rfl

/-- The lexemes of a line behind its label definitions. -/
inductive LineRest : List Lexeme → Prop
  | nothing {ls : List Lexeme} (hls : meaning ls = []) : LineRest ls
  | unknown {l : Lexeme} {ls : List Lexeme} (hl : l.kind = .error)
      (hls : ∀ k ∈ meaning ls, k.isPart = true) : LineRest (l :: ls)
  | opcode {l : Lexeme} {ls : List Lexeme} (hl : IsOpcode l)
      (hls : ∀ k ∈ meaning ls, k.isPart = true) : LineRest (l :: ls)
  | parameters {l : Lexeme} {ls : List Lexeme} {k : DirectiveKind} (hl : l.kind = .directive)
      (hk : l.directiveKind? = some k) (hne : k ≠ .data)
      (hls : meaning ls = [] ∨ meaning ls = [.parameters]) : LineRest (l :: ls)
  | data {l : Lexeme} {st : State} {s : Bytes} (hl : l.kind = .directive)
      (hk : l.directiveKind? = some .data) (hst : st.Idle) (hstage : st.stage = .data) :
      LineRest (l :: run st s)

/-- The kinds of lexemes that do not decide a line. -/
def isLeading : Kind → Bool
  | .labelDef | .error | .whitespace => true
  | _ => false

/-- Lexemes that do not decide the line, and those of the line behind them. -/
def Decided (ls : List Lexeme) : Prop :=
  ∃ front back, ls = front ++ back ∧ (∀ l ∈ front, isLeading l.kind = true) ∧ LineRest back

theorem LineRest.decided {ls : List Lexeme} (h : LineRest ls) : Decided ls :=
  ⟨[], ls, rfl, by simp, h⟩

theorem Decided.cons {l : Lexeme} {ls : List Lexeme} (hl : isLeading l.kind = true)
    (h : Decided ls) : Decided (l :: ls) := by
  obtain ⟨front, back, rfl, hfront, hback⟩ := h
  exact ⟨l :: front, back, rfl, List.forall_mem_cons.2 ⟨hl, hfront⟩, hback⟩

/-- A line is taken apart at the word that decides it. -/
theorem decided_run {s : Bytes} (h : st.Idle) (hstage : st.stage = .line) : Decided (run st s) := by
  fun_induction run st s with
  | case1 st =>
    refine LineRest.decided (.nothing ?_)
    rw [meaning_append, h.meaning_closeValue]
    rfl
  | case2 st c rest ih =>
    by_cases hblank : isBlank c = true
    · rw [step_blank hblank] at ih ⊢
      exact (ih h hstage).cons rfl
    by_cases hsemi : c = byte ';'
    · subst hsemi
      refine LineRest.decided (.nothing ?_)
      rw [← run_cons, meaning_run_comment, h.meaning_closeValue]
    · have hat : stepAt st c rest = lineStep st c rest := by
        rw [stepAt, if_neg hblank, if_neg hsemi, if_pos hstage]
      rw [step, hat] at ih ⊢
      have hturn := lineTurn_lineStep st c rest
      generalize lineStep st c rest = turn at hturn ih ⊢
      cases hturn with
      | stay hl =>
        refine (ih (h.of_eq rfl) hstage).cons ?_
        rcases hl with hl | hl <;> simp [isLeading, hl]
      | unknown hl =>
        exact LineRest.decided (.unknown hl (isPart_of_run rfl h.inValue_eq h.trailing_eq))
      | opcode hl =>
        exact LineRest.decided (.opcode hl (isPart_of_run rfl h.inValue_eq h.trailing_eq))
      | data hl hk => exact LineRest.decided (.data hl hk (h.of_eq rfl) rfl)
      | parameters hl hk hne hls hrest =>
        rw [List.cons_append]
        refine LineRest.decided (.parameters hl hk hne ?_)
        rw [meaning_append, meaning_run_of_not_hasOperand (h.of_eq rfl) hrest, List.append_nil]
        exact hls

end Lexer

open Lexer

/-! ## Tokens -/

theorem valueMarks_meaning (ls : List Lexeme) :
    valueMarks (meaning ls) = valueMarks (ls.map (·.kind)) := by
  rw [valueMarks, meaning, List.filter_filter, valueMarks]
  refine List.filter_congr fun k _ => ?_
  cases k <;> rfl

theorem map_kind_lex (mode : Mode) (s : Bytes) :
    (lex mode s).map (·.kind) = (lexemes s).map (·.kind) := by
  conv_rhs => rw [← map_toLexeme_place mode 0 (lexemes s), List.map_map]
  rfl

theorem kind_mem_meaning {mode : Mode} {n : Nat} {ls : List Lexeme} {t : Token}
    (ht : t ∈ significantTokens (place mode n ls)) : t.kind ∈ meaning ls := by
  rw [← map_kind_significantTokens mode n ls]
  exact List.mem_map_of_mem ht

theorem significantTokens_append (ts us : List Token) :
    significantTokens (ts ++ us) = significantTokens ts ++ significantTokens us :=
  List.filter_append ..

theorem significantTokens_cons {t : Token} (ht : t.kind.significant = true) (ts : List Token) :
    significantTokens (t :: ts) = t :: significantTokens ts :=
  List.filter_cons_of_pos (p := fun t : Token => t.kind.significant) ht

theorem significantTokens_place_cons {l : Lexeme} (hl : l.kind.significant = true) (mode : Mode)
    (n : Nat) (ls : List Lexeme) : significantTokens (place mode n (l :: ls)) =
      ⟨l, n, mode, []⟩ :: significantTokens (place mode (n + l.text.length) ls) :=
  significantTokens_cons hl _

/-- The leading lexemes that carry meaning are label definitions and errors. -/
theorem mem_meaning_of_isLeading {ls : List Lexeme} (h : ∀ l ∈ ls, isLeading l.kind = true) :
    ∀ k ∈ meaning ls, k = .labelDef ∨ k = .error := by
  intro k hk
  obtain ⟨hk, hsig⟩ := List.mem_filter.1 hk
  obtain ⟨l, hl, rfl⟩ := List.mem_map.1 hk
  have hleading := h l hl
  generalize l.kind = k at hsig hleading
  cases k <;> simp [isLeading, Kind.significant] at hsig hleading ⊢

/-- Behind its label definitions a line has a body, or an error in its place. -/
theorem Lexer.LineRest.lineBody {ls : List Lexeme} (h : LineRest ls) (mode : Mode) (n : Nat)
    (hok : ∀ t ∈ place mode n ls, t.kind ≠ .error) :
    LineBody (DataTail .idle) (significantTokens (place mode n ls)) := by
  cases h with
  | nothing hls =>
    rw [← map_kind_significantTokens mode n, List.map_eq_nil_iff] at hls
    rw [hls]
    exact .nothing
  | unknown hl => exact absurd hl (hok _ List.mem_cons_self)
  | opcode hl hls =>
    rw [significantTokens_place_cons hl.significant]
    exact .instruction hl fun t ht => hls _ (kind_mem_meaning ht)
  | @parameters l ls k hl hk hne hls =>
    rw [significantTokens_place_cons (by rw [hl]; rfl)]
    have hmap := map_kind_significantTokens mode (n + l.text.length) ls
    refine .directive hl hk hne ?_ ?_
    · intro t ht
      have hmem := kind_mem_meaning ht
      rcases hls with hls | hls
      · rw [hls] at hmem
        cases hmem
      · rw [hls] at hmem
        exact List.mem_singleton.1 hmem
    · rw [← List.length_map (f := (·.kind)), hmap]
      rcases hls with hls | hls <;> simp [hls]
  | @data l st s hl hk hst hstage =>
    rw [significantTokens_place_cons (by rw [hl]; rfl)]
    refine .data hl hk (.inr ?_)
    rw [map_kind_significantTokens, ← hst.phase_eq]
    exact dataTail_run (hst.inData hstage) s

/-- The parts of the tokens of a line, at the word that decides it. -/
theorem exists_lex_eq (mode : Mode) (s : Bytes) : ∃ front back, lexemes s = front ++ back ∧
    (∀ l ∈ front, isLeading l.kind = true) ∧ LineRest back ∧
    lex mode s = place mode 0 front ++ place mode (front.flatMap (·.text)).length back := by
  have hidle : State.Idle {} := ⟨rfl, rfl, rfl, rfl⟩
  have hdecided : Decided (run {} s) := decided_run hidle rfl
  obtain ⟨front, back, hrun, hfront, hback⟩ := hdecided
  refine ⟨front, back, hrun, hfront, hback, ?_⟩
  rw [lex, lexemes, hrun, place_append, Nat.zero_add]

theorem lineShape_of_ok {mode : Mode} {s : Bytes} (hok : ∀ t ∈ lex mode s, t.kind ≠ .error) :
    LineShape Series (significantTokens (lex mode s)) := by
  obtain ⟨front, back, -, hfront, hback, hlex⟩ := exists_lex_eq mode s
  rw [hlex] at hok ⊢
  rw [List.forall_mem_append] at hok
  refine ⟨_, _, significantTokens_append _ _, ?_, ?_⟩
  · intro t ht
    have hmem := List.mem_of_mem_filter ht
    exact (mem_meaning_of_isLeading hfront _ (kind_mem_meaning ht)).resolve_right (hok.1 t hmem)
  · exact (hback.lineBody mode _ hok.2).mono fun ks h => h.completes

/-- The kinds that neither start nor end a data value. -/
def isPlain : Kind → Bool
  | .dataStart | .dataEnd => false
  | _ => true

/-- The values of a line come last in it. -/
theorem Lexer.LineRest.exists_dataTail {ls : List Lexeme} (h : LineRest ls) :
    ∃ front ks, meaning ls = front ++ ks ∧ (∀ k ∈ front, isPlain k = true) ∧
      DataTail .idle ks := by
  have hpart {ks : List Kind} (hks : ∀ k ∈ ks, k.isPart = true) : ∀ k ∈ ks, isPlain k = true := by
    intro k hk
    have := hks k hk
    cases k <;> first | rfl | cases this
  -- a line that is decided by another word has no values
  have hnone {l : Lexeme} {ls : List Lexeme} (hsig : l.kind.significant = true)
      (hl : isPlain l.kind = true) (hls : ∀ k ∈ meaning ls, isPlain k = true) :
      ∃ front ks, meaning (l :: ls) = front ++ ks ∧ (∀ k ∈ front, isPlain k = true) ∧
        DataTail .idle ks := by
    refine ⟨l.kind :: meaning ls, [], ?_, List.forall_mem_cons.2 ⟨hl, hls⟩, .nothing⟩
    rw [meaning_cons_of_significant hsig, List.append_nil]
  cases h with
  | nothing hls => exact ⟨[], [], hls, by simp, .nothing⟩
  | unknown hl hls => exact hnone (by rw [hl]; rfl) (by rw [hl]; rfl) (hpart hls)
  | opcode hl hls =>
    refine hnone hl.significant ?_ (hpart hls)
    rcases hl.kind_eq with hk | hk <;> rw [hk] <;> rfl
  | parameters hl hk hne hls =>
    refine hnone (by rw [hl]; rfl) (by rw [hl]; rfl) ?_
    rcases hls with hls | hls <;> simp [hls, isPlain]
  | @data l st s hl hk hst hstage =>
    refine ⟨[l.kind], meaning (run st s), ?_, List.forall_mem_singleton.2 (by rw [hl]; rfl), ?_⟩
    · rw [meaning_cons_of_significant (by rw [hl]; rfl), List.singleton_append]
    · rw [← hst.phase_eq]
      exact dataTail_run (hst.inData hstage) s

theorem valueMarks_of_isPlain {front : List Kind} (h : ∀ k ∈ front, isPlain k = true)
    (ks : List Kind) : valueMarks (front ++ ks) = valueMarks ks := by
  have hfront : front.filter (fun k => k = .dataStart || k = .dataEnd) = [] := by
    refine List.filter_eq_nil_iff.2 fun k hk => ?_
    have := h k hk
    cases k <;> first | decide | cases this
  rw [valueMarks, List.filter_append, hfront]
  rfl

theorem outside_of_isPlain {front : List Kind} (h : ∀ k ∈ front, isPlain k = true)
    (ks : List Kind) : outside false (front ++ ks) = front ++ outside false ks := by
  induction front with
  | nil => rfl
  | cons k front ih =>
    obtain ⟨hk, hfront⟩ := List.forall_mem_cons.1 h
    rw [List.cons_append, outside, if_neg (by rintro rfl; cases hk),
      if_neg (by rintro rfl; cases hk), if_neg Bool.false_ne_true, ih hfront, List.cons_append]

theorem isPlain_meaning_of_isLeading {ls : List Lexeme} (h : ∀ l ∈ ls, isLeading l.kind = true) :
    ∀ k ∈ meaning ls, isPlain k = true := by
  intro k hk
  rcases mem_meaning_of_isLeading h k hk with rfl | rfl <;> rfl

/-- Starts and ends of values take turns, on every line. -/
theorem exists_valueMarks_eq (mode : Mode) (s : Bytes) :
    ∃ n, valueMarks ((lex mode s).map (·.kind)) =
      (List.replicate n [Kind.dataStart, .dataEnd]).flatten := by
  obtain ⟨front, back, hrun, hfront, hback, -⟩ := exists_lex_eq mode s
  obtain ⟨before, ks, hback, hbefore, htail⟩ := hback.exists_dataTail
  obtain ⟨n, hn⟩ := htail.alternates
  refine ⟨n, ?_⟩
  rw [map_kind_lex, ← valueMarks_meaning, hrun, meaning_append, hback,
    valueMarks_of_isPlain (isPlain_meaning_of_isLeading hfront), valueMarks_of_isPlain hbefore]
  exact hn

/-- The data directive of a line, and the text behind it. -/
theorem Lexer.LineRest.exists_data {ls : List Lexeme} (h : LineRest ls) {mode : Mode} {n : Nat}
    {d : Token} (hd : d ∈ place mode n ls) (hk : d.kind = .directive)
    (hdata : d.directiveKind? = some .data) :
    ∃ st u, ls = d.toLexeme :: run st u ∧ d.start = n ∧ st.Idle ∧ st.stage = .data := by
  have hmem : d ∈ significantTokens (place mode n ls) :=
    List.mem_filter.2 ⟨hd, by rw [hk]; rfl⟩
  have hnone {ms : List Lexeme} {m : Nat} (hms : ∀ k ∈ meaning ms, k ≠ .directive)
      (hd : d ∈ significantTokens (place mode m ms)) : False :=
    hms _ (kind_mem_meaning hd) hk
  have hpart {ms : List Lexeme} (hms : ∀ k ∈ meaning ms, k.isPart = true) :
      ∀ k ∈ meaning ms, k ≠ .directive := by
    rintro k hk rfl
    cases hms _ hk
  cases h with
  | nothing hls => exact (hnone (by simp [hls]) hmem).elim
  | unknown hl hls =>
    rw [significantTokens_place_cons (by rw [hl]; rfl)] at hmem
    rcases List.mem_cons.1 hmem with rfl | hmem
    · rw [hl] at hk
      cases hk
    · exact (hnone (hpart hls) hmem).elim
  | opcode hl hls =>
    rw [significantTokens_place_cons hl.significant] at hmem
    rcases List.mem_cons.1 hmem with rfl | hmem
    · rcases hl.kind_eq with h | h <;> rw [h] at hk <;> cases hk
    · exact (hnone (hpart hls) hmem).elim
  | parameters hl hk' hne hls =>
    rw [significantTokens_place_cons (by rw [hl]; rfl)] at hmem
    rcases List.mem_cons.1 hmem with rfl | hmem
    · exact absurd (Option.some.inj (hk'.symm.trans hdata)) hne
    · exact (hnone (by rcases hls with hls | hls <;> simp [hls]) hmem).elim
  | @data l st u hl hk' hst hstage =>
    rcases List.mem_cons.1 hd with rfl | hd
    · exact ⟨st, u, rfl, rfl, hst, hstage⟩
    · have := opens_of_run (by simp [hstage]) u _ (mem_place hd)
      rw [hk] at this
      cases this

theorem flatMap_text_run (st : State) (s : Bytes) : (run st s).flatMap (·.text) = s := by
  obtain ⟨ls, hrun, htext, -⟩ := exists_run_eq st s
  rw [hrun, List.flatMap_append, htext]
  exact List.append_nil s

/-- The lexemes of a data line, taken apart at its directive. -/
theorem exists_lexemes_eq {mode : Mode} {s : Bytes} {d : Token} (hd : d ∈ lex mode s)
    (hk : d.kind = .directive) (hdata : d.directiveKind? = some .data) :
    ∃ front st, lexemes s = front ++ d.toLexeme :: run st (s.drop d.stop) ∧
      (∀ l ∈ front, isLeading l.kind = true) ∧ st.Idle ∧ st.stage = .data := by
  obtain ⟨front, back, hrun, hfront, hback, hlex⟩ := exists_lex_eq mode s
  have hback : ∃ st u, back = d.toLexeme :: run st u ∧
      d.start = (front.flatMap (·.text)).length ∧ st.Idle ∧ st.stage = .data := by
    rw [hlex] at hd
    rcases List.mem_append.1 hd with hd | hd
    · have := hfront _ (mem_place hd)
      rw [hk] at this
      cases this
    · exact hback.exists_data hd hk hdata
  obtain ⟨st, u, rfl, hstart, hst, hstage⟩ := hback
  have hu : s.drop d.stop = u := by
    have htext := flatMap_text_run {} s
    rw [show run {} s = lexemes s from rfl, hrun, List.flatMap_append, List.flatMap_cons,
      flatMap_text_run] at htext
    rw [← htext, Token.stop, hstart, ← List.append_assoc, ← List.length_append, List.drop_left]
  exact ⟨front, st, by rw [hrun, hu], hfront, hst, hstage⟩

/-- A data line with an operand has a value more than separators outside values. -/
theorem count_values_eq {mode : Mode} {s : Bytes} {d : Token} (hd : d ∈ lex mode s)
    (hk : d.kind = .directive) (hdata : d.directiveKind? = some .data)
    (hs : hasOperand (s.drop d.stop) = true) {ks : List Kind}
    (hks : ks = (significantTokens (lex mode s)).map (·.kind)) :
    ks.count .dataStart = (outside false ks).count .separator + 1 := by
  obtain ⟨front, st, hrun, hfront, hst, hstage⟩ := exists_lexemes_eq hd hk hdata
  generalize s.drop d.stop = u at hrun hs
  have hcount := (dataTail_run (hst.inData hstage) u).count_eq (meaning_run_ne_nil hst hstage hs)
  rw [hst.phase_eq] at hcount
  have hmeaning : ks = (meaning front ++ [.directive]) ++ meaning (run st u) := by
    rw [hks, lex, map_kind_significantTokens, hrun, meaning_append,
      meaning_cons_of_significant (by rw [hk]; rfl), hk, List.append_assoc, List.singleton_append]
  have hbefore : ∀ k ∈ meaning front ++ [Kind.directive],
      isPlain k = true ∧ k ≠ .dataStart ∧ k ≠ .separator := by
    refine List.forall_mem_append.2 ⟨fun k hk => ?_, List.forall_mem_singleton.2 (by decide)⟩
    rcases mem_meaning_of_isLeading hfront k hk with rfl | rfl <;> decide
  generalize meaning front ++ [Kind.directive] = before at hmeaning hbefore
  have hstarts : before.count .dataStart = 0 :=
    List.count_eq_zero.2 fun hmem => (hbefore _ hmem).2.1 rfl
  have hseparators : before.count .separator = 0 :=
    List.count_eq_zero.2 fun hmem => (hbefore _ hmem).2.2 rfl
  rw [hmeaning, outside_of_isPlain fun k hk => (hbefore k hk).1, List.count_append,
    List.count_append, hstarts, hseparators, Nat.zero_add, Nat.zero_add]
  exact hcount

/-! ## Instructions -/

theorem find?_parameters_significantTokens (ts : List Token) :
    (significantTokens ts).find? (·.kind == .parameters) = ts.find? (·.kind == .parameters) := by
  rw [significantTokens, List.find?_filter]
  refine congrArg (List.find? · ts) (funext fun t => ?_)
  cases t.kind <;> rfl

/-- The directive of a line is one of the tokens that carry meaning. -/
theorem Directive.ofTokens?_significantTokens (ts : List Token) :
    ofTokens? (significantTokens ts) = ofTokens? ts := by
  induction ts with
  | nil => rfl
  | cons t ts ih =>
    by_cases hk : t.kind = .directive
    · have hsig : t.kind.significant = true := by rw [hk]; rfl
      rw [significantTokens_cons hsig, ofTokens?_cons hk, ofTokens?_cons hk,
        find?_parameters_significantTokens]
    · rw [ofTokens?, if_neg hk, ← ih]
      cases hsig : t.kind.significant with
      | true => rw [significantTokens_cons hsig, ofTokens?, if_neg hk]
      | false => rw [significantTokens, List.filter_cons_of_neg (by simp [hsig]), significantTokens]

/-- A line without a directive has an opcode behind its label definitions, or nothing. -/
theorem LineShape.isSome_shape? {V : List Kind → Prop} {ts : List Token} (h : LineShape V ts)
    (hd : Directive.ofTokens? ts = none) {op : Token} {rest : List Token}
    (hop : ts.dropWhile (·.kind == .labelDef) = op :: rest) :
    (Instruction.shape? op).isSome = true := by
  obtain ⟨labels, body, rfl, hlabels, hbody⟩ := h
  rw [List.dropWhile_append_of_pos fun t ht => beq_iff_eq.2 (hlabels t ht)] at hop
  have hopens : ∀ t ∈ labels, opens t.kind = false := by
    intro t ht
    rw [hlabels t ht]
    rfl
  rw [Directive.ofTokens?_append hopens] at hd
  cases hbody with
  | nothing => cases hop
  | @instruction first ts hfirst _ =>
    have hkind : (first.kind == .labelDef) = false := by
      rcases IsOpcode.kind_eq (l := first.toLexeme) hfirst with hk | hk <;> simp [hk]
    rw [List.dropWhile_cons_of_neg (by simp [hkind])] at hop
    rwa [← (List.cons.inj hop).1]
  | directive hk hkind _ _ _ =>
    rw [Directive.ofTokens?_cons hk] at hd
    rw [Lexeme.directiveKind?] at hkind
    rw [hkind] at hd
    cases hd
  | data hk hkind _ =>
    rw [Directive.ofTokens?_cons hk] at hd
    rw [Lexeme.directiveKind?] at hkind
    rw [hkind] at hd
    cases hd

/-- The first token of an instruction is an opcode. -/
theorem Line.Scanned.isSome_shape? {l : Line} {mode : Mode} (h : l.Scanned mode)
    (hok : ∀ t ∈ lex mode l.text, t.kind ≠ .error) (hd : l.directive = none) {op : Token}
    {rest : List Token} (hop : l.significant.dropWhile (·.kind == .labelDef) = op :: rest) :
    (Instruction.shape? op).isSome = true := by
  have hshape := lineShape_of_ok hok
  have hnone : Directive.ofTokens? (significantTokens (lex mode l.text)) = none := by
    rw [Directive.ofTokens?_significantTokens, ← h.directive_eq, hd]
  have hdrop := congrArg (List.dropWhile (·.kind == .labelDef)) h.significant_eq
  rw [List.dropWhile_map, List.dropWhile_map] at hdrop
  have hdrop : (l.significant.dropWhile (·.kind == .labelDef)).map Token.bare =
      ((significantTokens (lex mode l.text)).dropWhile (·.kind == .labelDef)).map Token.bare :=
    hdrop
  rw [hop, List.map_cons] at hdrop
  obtain ⟨op', rest', hop', hbare, -⟩ := List.map_eq_cons_iff.1 hdrop.symm
  have hsame : Instruction.shape? op' = Instruction.shape? op :=
    show Instruction.shape? op'.bare = Instruction.shape? op.bare by rw [hbare]
  rw [← hsame]
  exact hshape.isSome_shape? hnone hop'

theorem Instruction.parse_eq_ok_none_iff {text : Bytes} {ts : List Token} :
    parse text ts = .ok none ↔ ∀ t ∈ ts, t.kind = .labelDef := by
  have hall : (∀ t ∈ ts, t.kind = .labelDef) ↔ ts.dropWhile (·.kind == .labelDef) = [] := by
    simp [List.dropWhile_eq_nil_iff]
  rw [hall]
  unfold parse
  split
  · simp [*]
  · rename_i op rest hop
    refine iff_of_false ?_ (by simp [hop])
    intro h
    simp only at h
    split at h
    · cases h
    · obtain ⟨b, -, h⟩ := bind_eq_ok.1 h
      obtain ⟨a, -, h⟩ := bind_eq_ok.1 h
      cases h
    · obtain ⟨a, -, h⟩ := bind_eq_ok.1 h
      cases h
    · obtain ⟨a, -, h⟩ := bind_eq_ok.1 h
      cases h
    · cases h

/-- The tokens of a line. Starts and ends of data values take turns, and a data line with an operand
has a value more than separators outside values. If no token is an error, the line is made of label
definitions and what may stand behind them. Then, if it has no directive, the first token behind
the label definitions is an opcode, so that an instruction is missing only if nothing stands
there. -/
theorem lex_lineShape (mode : Mode) (s : Bytes) :
    (∃ n, valueMarks ((lex mode s).map (·.kind)) =
      (List.replicate n [Kind.dataStart, .dataEnd]).flatten) ∧
    (∀ d ∈ lex mode s, d.kind = .directive → d.directiveKind? = some .data →
      hasOperand (s.drop d.stop) = true → ∀ ks, ks = (significantTokens (lex mode s)).map (·.kind) →
        ks.count .dataStart = (outside false ks).count .separator + 1) ∧
    ((∀ t ∈ lex mode s, t.kind ≠ .error) →
      LineShape Series (significantTokens (lex mode s)) ∧
      ∀ l : Line, l.Scanned mode → l.text = s → l.directive = none →
        (∀ op rest, l.significant.dropWhile (·.kind == .labelDef) = op :: rest →
          (Instruction.shape? op).isSome = true) ∧
        (Instruction.parse l.text l.significant = .ok none ↔
          ∀ t ∈ l.significant, t.kind = .labelDef)) := by
  refine ⟨exists_valueMarks_eq mode s, ?_, ?_⟩
  · intro d hd hk hdata hs ks hks
    exact count_values_eq hd hk hdata hs hks
  · intro hok
    refine ⟨lineShape_of_ok hok, ?_⟩
    rintro l hl rfl hdirective
    exact ⟨fun op rest hop => hl.isSome_shape? hok hdirective hop, Instruction.parse_eq_ok_none_iff⟩

/-- A line with a text, as it is read where no define is made. -/
def Line.ofText (text : Bytes) : Line :=
  { document := ⟨"main", []⟩, number := 1, raw := text, text, tokens := lex .initial text,
    directive := Directive.ofTokens? (lex .initial text) }

theorem Line.scanned_ofText (text : Bytes) : (Line.ofText text).Scanned .initial := ⟨rfl, rfl⟩

/-- Four values, the last of them empty, with commas inside brackets and inside a string. -/
def sampleValues : Bytes := "a: :b DAT (1, 2), \",\" , PICK x,"

/-- An instruction behind two labels. -/
def sampleInstruction : Bytes := "c: :.d SET [A + 1], PICK (2) ; note"

/-- Four values have three separators between them, and an instruction has its opcode. -/
theorem sample_lex_lineShape :
    ((significantTokens (lex .initial sampleValues)).map (·.kind)).count .dataStart = 4 ∧
    (outside false ((significantTokens (lex .initial sampleValues)).map (·.kind))).count
      .separator + 1 = 4 ∧
    LineShape Series (significantTokens (lex .initial sampleValues)) ∧
    ∃ op rest, (Line.ofText sampleInstruction).significant.dropWhile (·.kind == .labelDef) =
      op :: rest ∧ rest.length = 11 ∧ (Instruction.shape? op).isSome = true := by
  obtain ⟨-, hcount, hshape⟩ := lex_lineShape .initial sampleValues
  obtain ⟨-, -, hline⟩ := lex_lineShape .initial sampleInstruction
  have hfour : ((significantTokens (lex .initial sampleValues)).map (·.kind)).count .dataStart =
      4 := by decide +kernel
  have hdirective : ∃ d ∈ lex .initial sampleValues, d.kind = .directive ∧
      d.directiveKind? = some .data ∧ hasOperand (sampleValues.drop d.stop) = true := by
    decide +kernel
  obtain ⟨d, hd, hk, hdata, hs⟩ := hdirective
  have hvalues := hcount d hd hk hdata hs _ rfl
  rw [hfour] at hvalues
  refine ⟨hfour, hvalues.symm, (hshape (by decide +kernel)).1, ?_⟩
  have hinstruction := ((hline (by decide +kernel)).2 (Line.ofText sampleInstruction)
    (Line.scanned_ofText _) rfl (by decide +kernel)).1
  have hlength : ((Line.ofText sampleInstruction).significant.dropWhile
      (·.kind == .labelDef)).length = 12 := by decide +kernel
  cases hop : (Line.ofText sampleInstruction).significant.dropWhile (·.kind == .labelDef) with
  | nil =>
    rw [hop] at hlength
    cases hlength
  | cons op rest =>
    rw [hop] at hlength
    exact ⟨op, rest, rfl, Nat.succ.inj hlength, hinstruction op rest hop⟩

/-- The end of a `PICK` that was opened inside brackets stands between a separator and the empty
value behind it, outside of both values. -/
theorem not_lineShape_joined : (∀ t ∈ lex .initial "DAT (PICK 1),", t.kind ≠ .error) ∧
    ¬LineShape Joined (significantTokens (lex .initial "DAT (PICK 1),")) := by
  refine ⟨by decide +kernel, ?_⟩
  intro h
  have hpick : Kind.pickEnd ∈
      outside false ((significantTokens (lex .initial "DAT (PICK 1),")).tail.map (·.kind)) := by
    decide +kernel
  have hfirst : ∀ d ∈ (significantTokens (lex .initial "DAT (PICK 1),")).head?,
      d.kind = .directive ∧ d.directiveKind? = some .data := by decide +kernel
  cases hts : significantTokens (lex .initial "DAT (PICK 1),") with
  | nil =>
    rw [hts] at hpick
    cases hpick
  | cons d ts =>
    rw [hts] at h hpick hfirst
    obtain ⟨hd, hk⟩ := hfirst d rfl
    rcases h.values hd hk with rfl | hjoined
    · cases hpick
    · cases hjoined.outside_eq _ hpick

end Asm16
