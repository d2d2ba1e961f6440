import Asm16.Reading

/-!
# Steps over a line

The lexemes of a step cover the bytes it takes (`step_text`). Behind the mnemonic or the directive
of a line no step finds anything of a directive again (`opens_of_run`). What a step before them can
be is `LineStep`, and what a step at an operand or a data value can be is `ValueStep`.
-/

namespace Asm16

/-! ## Runs of bytes -/

section Runs

variable {p : UInt8 → Bool} {x r : Bytes}

/-- A run of bytes ends before a byte of another kind. -/
theorem takeWhile_append_of_head? (hx : ∀ c ∈ x, p c) (hr : ∀ c, r.head? = some c → p c = false) :
    (x ++ r).takeWhile p = x := by
  rw [List.takeWhile_append_of_pos hx]
  cases r with
  | nil => simp
  | cons c rest => simp [hr c rfl]

theorem dropWhile_append_of_head? (hx : ∀ c ∈ x, p c) (hr : ∀ c, r.head? = some c → p c = false) :
    (x ++ r).dropWhile p = r := by
  rw [List.dropWhile_append_of_pos hx]
  cases r with
  | nil => rfl
  | cons c rest => simp [hr c rfl]

theorem head?_dropWhile (p : UInt8 → Bool) (s : Bytes) :
    ∀ c, (s.dropWhile p).head? = some c → p c = false := by
  intro c hc
  simpa [hc] using List.head?_dropWhile_not p s

/-- A text behind, that begins with a byte of another kind, makes no run longer. -/
theorem takeWhile_append_of_stop (hr : ∀ c, r.head? = some c → p c = false) (s : Bytes) :
    (s ++ r).takeWhile p = s.takeWhile p := by
  induction s with
  | nil => simpa using takeWhile_append_of_head? (x := []) (by simp) hr
  | cons c s ih => by_cases hc : p c <;> simp [hc, ih]

theorem dropWhile_append_of_stop (hr : ∀ c, r.head? = some c → p c = false) (s : Bytes) :
    (s ++ r).dropWhile p = s.dropWhile p ++ r := by
  induction s with
  | nil => simpa using dropWhile_append_of_head? (x := []) (by simp) hr
  | cons c s ih => by_cases hc : p c <;> simp [hc, ih]

/-- Where a run ends is seen from the byte behind it. -/
theorem span_append {r' : Bytes} (h : (x ++ r).dropWhile p = r) (hr : r'.head? = r.head?) :
    (x ++ r').takeWhile p = (x ++ r).takeWhile p ∧ (x ++ r').dropWhile p = r' := by
  have htake : (x ++ r).takeWhile p = x := by
    have := List.takeWhile_append_dropWhile (p := p) (l := x ++ r)
    rw [h] at this
    exact List.append_cancel_right this
  have hx : ∀ c ∈ x, p c := by
    rw [← htake]
    exact List.all_eq_true.1 List.all_takeWhile
  have hstop : ∀ c, r'.head? = some c → p c = false := by
    rw [hr, ← h]
    exact head?_dropWhile p (x ++ r)
  exact ⟨by rw [takeWhile_append_of_head? hx hstop, htake], dropWhile_append_of_head? hx hstop⟩

theorem head?_append_congr {r' : Bytes} (x : Bytes) (hr : r'.head? = r.head?) :
    (x ++ r').head? = (x ++ r).head? := by
  cases x with
  | nil => exact hr
  | cons c x => rfl

theorem isBlank_of_isWordByte {c : UInt8} (h : isWordByte c = true) : isBlank c = false := by
  grind [isWordByte, isBlank, isLetter, isLower, isUpper, isDigit]

theorem isWordByte_of_isBlank {c : UInt8} (h : isBlank c = true) : isWordByte c = false := by
  refine Bool.eq_false_iff.2 fun hw => ?_
  rw [isBlank_of_isWordByte hw] at h
  cases h

end Runs

namespace Lexer

/-! ## Lexemes cover the line -/

theorem isSuffix_next (c : UInt8) (rest : Bytes) : (Utf8.next c rest).2 <:+ rest := by
  unfold Utf8.next
  split
  · exact List.drop_suffix _ _
  · exact List.suffix_refl _

theorem isSuffix_quotedChar? {body after : Bytes} {ch : Char}
    (h : quotedChar? body = some (ch, after)) : after <:+ body := by
  match body with
  | [] => cases h
  | c :: rest =>
    simp only [quotedChar?.eq_def] at h
    split at h
    · split at h
      · obtain ⟨e, -, he⟩ := Option.map_eq_some_iff.1 h
        obtain ⟨-, rfl⟩ := Prod.mk.inj he
        exact (List.suffix_cons _ _).trans (List.suffix_cons _ _)
      · cases h
    · split at h
      · cases h
      · have hafter : (Utf8.next c rest).2 = after := by rw [Option.some.inj h]
        exact hafter ▸ (isSuffix_next c rest).trans (List.suffix_cons _ _)

theorem isSuffix_character? {body after : Bytes} {ch : Char}
    (h : character? body = some (ch, after)) : after <:+ body := by
  unfold character? at h
  split at h
  · rename_i c more hq
    split at h
    · obtain ⟨-, rfl⟩ := Prod.mk.inj (Option.some.inj h)
      exact (List.suffix_cons _ _).trans (isSuffix_quotedChar? hq)
    · cases h
  · cases h

theorem isSuffix_string? {body contents after : Bytes} (h : string? body = some (contents, after)) :
    after <:+ body := by
  fun_induction string? body generalizing contents after with
  | case1 => cases h
  | case2 rest =>
    obtain ⟨-, rfl⟩ := Prod.mk.inj (Option.some.inj h)
    exact List.suffix_cons _ _
  | case3 => cases h
  | case4 c d more ih =>
    simp only [Option.bind_eq_bind, Option.bind_eq_some_iff] at h
    obtain ⟨ch, -, ⟨cs, af⟩, hs, he⟩ := h
    obtain ⟨-, rfl⟩ := Prod.mk.inj (Option.some.inj he)
    exact (ih hs).trans ((List.suffix_cons _ _).trans (List.suffix_cons _ _))
  | case5 c rest _ _ ih =>
    simp only [Option.bind_eq_bind, Option.bind_eq_some_iff] at h
    obtain ⟨⟨cs, af⟩, hs, he⟩ := h
    obtain ⟨-, rfl⟩ := Prod.mk.inj (Option.some.inj he)
    exact (ih hs).trans ((isSuffix_next c rest).trans (List.suffix_cons _ _))

theorem before_append {s rest : Bytes} (h : rest <:+ s) : before s rest ++ rest = s := by
  obtain ⟨front, rfl⟩ := h
  simp [before]

theorem before_append_append {s rest : Bytes} (h : rest.length ≤ s.length) (tail : Bytes) :
    before (s ++ tail) (rest ++ tail) = before s rest := by
  rw [before, before, List.length_append, List.length_append, Nat.add_sub_add_right,
    List.take_append_of_le_length (by omega)]

theorem identifier?_append {s name after : Bytes} (h : identifier? s = some (name, after)) :
    name ++ after = s := by
  unfold identifier? at h
  split at h
  · cases h
  · split at h
    · split at h
      · split at h
        · obtain ⟨rfl, rfl⟩ := Prod.mk.inj (Option.some.inj h)
          simp
        · cases h
      · cases h
    · split at h
      · obtain ⟨rfl, rfl⟩ := Prod.mk.inj (Option.some.inj h)
        simp
      · cases h

/-- Parameters end at a semicolon or with the line. -/
theorem exists_parameterText_append (q : Option UInt8) (s : Bytes) :
    ∃ tail, s = parameterText q s ++ tail ∧ ∀ c, tail.head? = some c → c = byte ';' := by
  fun_induction parameterText q s with
  | case1 => exact ⟨[], rfl, by simp⟩
  | case2 c rest _ ih | case4 c rest _ _ ih =>
    obtain ⟨tail, hs, htail⟩ := ih
    exact ⟨tail, congrArg (c :: ·) hs, htail⟩
  | case3 rest => exact ⟨byte ';' :: rest, rfl, by simp⟩
  | case5 q d more ih =>
    obtain ⟨tail, hs, htail⟩ := ih
    exact ⟨tail, congrArg (byte '\\' :: d :: ·) hs, htail⟩
  | case6 => exact ⟨[], rfl, by simp⟩
  | case7 q rest _ ih =>
    obtain ⟨tail, hs, htail⟩ := ih
    exact ⟨tail, congrArg (q :: ·) hs, htail⟩
  | case8 q c rest _ _ ih =>
    obtain ⟨tail, hs, htail⟩ := ih
    exact ⟨tail, congrArg (c :: ·) hs, htail⟩

theorem exists_dropEnd_append (p : UInt8 → Bool) (s : Bytes) :
    ∃ back, s = s.dropEnd p ++ back ∧ ∀ c ∈ back, p c = true := by
  refine ⟨(s.reverse.takeWhile p).reverse, ?_, ?_⟩
  · rw [Bytes.dropEnd, ← List.reverse_append, List.takeWhile_append_dropWhile, List.reverse_reverse]
  · intro c hc
    exact List.all_eq_true.1 List.all_takeWhile c (List.mem_reverse.1 hc)

theorem dropEnd_append {p : UInt8 → Bool} {w : Bytes} (hw : ∀ c ∈ w, p c = false) (s : Bytes) :
    Bytes.dropEnd p (w ++ s) = w ++ s.dropEnd p := by
  have hlast : w.reverse.dropWhile p = w.reverse := by
    cases h : w.reverse with
    | nil => rfl
    | cons c rest =>
      have hc : c ∈ w := List.mem_reverse.1 (h ▸ List.mem_cons_self)
      simp [hw c hc]
  rw [Bytes.dropEnd, List.reverse_append, List.dropWhile_append, hlast, Bytes.dropEnd]
  split
  · rename_i hnil
    rw [List.isEmpty_iff.1 hnil]
    simp
  · simp

/-- All of a word is parameters. -/
theorem parameterText_append {w : Bytes} (hw : ∀ c ∈ w, isWordByte c = true) (s : Bytes) :
    parameterText none (w ++ s) = w ++ parameterText none s := by
  have hplain {c : UInt8} (hc : isWordByte c = true) :
      ¬(c = byte '"' ∨ c = byte '\'') ∧ c ≠ byte ';' := by
    grind [isWordByte, isLetter, isLower, isUpper, isDigit]
  induction w with
  | nil => rfl
  | cons c rest ih =>
    obtain ⟨hc, hrest⟩ := List.forall_mem_cons.1 hw
    rw [List.cons_append, parameterText, if_neg (hplain hc).1, if_neg (hplain hc).2, ih hrest,
      List.cons_append]

theorem isPrefix_parameterText (q : Option UInt8) (s : Bytes) : parameterText q s <+: s := by
  obtain ⟨tail, hs, -⟩ := exists_parameterText_append q s
  exact ⟨tail, hs.symm⟩

theorem isPrefix_dropEnd (p : UInt8 → Bool) (s : Bytes) : s.dropEnd p <+: s := by
  obtain ⟨back, hs, -⟩ := exists_dropEnd_append p s
  exact ⟨back, hs.symm⟩

/-- The bytes of a step : those of its lexemes and those it leaves. -/
def Step.text (s : Step) : Bytes := s.emitted.flatMap (·.text) ++ s.rest

theorem errorRun_text (st : State) (c : UInt8) (rest : Bytes) :
    (errorRun st c rest).text = c :: rest := by
  simp [errorRun, Step.text, plain]

theorem directive?_text {st : State} {c : UInt8} {rest : Bytes} {s : Step}
    (h : directive? st c rest = some s) : s.text = c :: rest := by
  simp only [directive?] at h
  split at h
  · cases h
  split at h
  · cases h
  · obtain rfl := Option.some.inj h
    simp [Step.text, plain]
  · obtain rfl := Option.some.inj h
    have hspace (t : Bytes) :
        (if t.isEmpty then [] else [plain .whitespace t]).flatMap (·.text) = t := by
      cases t <;> simp [plain]
    have hparams (t : Bytes) :
        (if t.isEmpty then [] else [plain .parameters t]).flatMap (·.text) = t := by
      cases t <;> simp [plain]
    have hbody := (isPrefix_dropEnd isBlank _).trans
      (isPrefix_parameterText none ((rest.dropWhile isLetter).dropWhile isBlank))
    simp only [Step.text, List.flatMap_append, hspace, hparams, List.append_assoc]
    rw [List.prefix_iff_eq_append.1 hbody]
    simp [plain]

theorem identifier?_dot (rest : Bytes) : identifier? (byte '.' :: rest) =
    if rest.head?.any isNameStart then
      some (byte '.' :: rest.takeWhile isWordByte, rest.dropWhile isWordByte) else none := by
  cases rest <;> simp [identifier?]

theorem identifier?_cons {c : UInt8} (hc : c ≠ byte '.') (rest : Bytes) : identifier? (c :: rest) =
    if isNameStart c then some (c :: rest.takeWhile isWordByte, rest.dropWhile isWordByte)
    else none := by
  simp only [identifier?.eq_def]
  exact if_neg hc

/-- The kinds of a word in the place of the mnemonic, with the stage that follows. -/
inductive Heads : Kind → Stage → Prop
  | basic : Heads .basicOpcode .operands
  | special : Heads .specialOpcode .operands
  | data : Heads .directive .data
  | unknown : Heads .error .operands

theorem Heads.kind_ne {k : Kind} {stage : Stage} (h : Heads k stage) : k ≠ .parameters := by
  cases h <;> simp

theorem Heads.stage_ne {k : Kind} {stage : Stage} (h : Heads k stage) : stage ≠ .line := by
  cases h <;> simp

/-- What a step before the mnemonic can be. -/
inductive LineStep (st : State) (c : UInt8) (rest : Bytes) : Step → Prop
  | directive {s : Step} (hc : c = byte '#' ∨ c = byte '.') (h : directive? st c rest = some s) :
      LineStep st c rest s
  | colon {name after : Bytes} (hc : c = byte ':') (h : identifier? rest = some (name, after)) :
      LineStep st c rest ⟨[labelDef (c :: name)], st, after⟩
  | loneColon (hc : c = byte ':') (h : identifier? rest = none) :
      LineStep st c rest (errorRun st c rest)
  | loneDot (hc : c = byte '.') (h : rest.head?.any isNameStart = false) :
      LineStep st c rest (errorRun st c rest)
  | label {name after : Bytes} (h : identifier? (c :: rest) = some (name, byte ':' :: after)) :
      LineStep st c rest ⟨[labelDef (name ++ [byte ':'])], st, after⟩
  | word {name after : Bytes} {k : Kind} {stage : Stage} (hk : Heads k stage)
      (h : identifier? (c :: rest) = some (name, after)) :
      LineStep st c rest ⟨[plain k name], { st with stage }, after⟩
  | other : LineStep st c rest (errorRun { st with stage := .operands } c rest)

theorem lineStep_spec (st : State) (c : UInt8) (rest : Bytes) :
    LineStep st c rest (lineStep st c rest) := by
  unfold lineStep
  split
  · rename_i s hs
    split at hs
    · rename_i hc
      exact .directive hc hs
    · cases hs
  split
  · rename_i hc
    split
    · rename_i hid
      exact .loneColon hc hid
    · rename_i hid
      exact .colon hc hid
  split
  · rename_i hstart
    split
    · rename_i hid
      by_cases hc : c = byte '.'
      · refine .loneDot hc ?_
        subst hc
        rw [identifier?_dot] at hid
        split at hid
        · cases hid
        · rename_i hhead
          simpa using hhead
      · have hstart : isNameStart c = true :=
          (Bool.or_eq_true_iff.1 hstart).resolve_right fun hdot => hc (of_decide_eq_true hdot)
        rw [identifier?_cons hc, if_pos hstart] at hid
        cases hid
    · rename_i name after hid
      split
      · rename_i hcolon
        obtain ⟨more, rfl⟩ := List.head?_eq_some_iff.1 hcolon
        exact .label hid
      · simp only
        split
        · exact .word .basic hid
        · split
          · exact .word .special hid
          · split
            · exact .word .data hid
            · exact .word .unknown hid
  · exact .other

theorem LineStep.text_eq {st : State} {c : UInt8} {rest : Bytes} {s : Step}
    (h : LineStep st c rest s) : s.text = c :: rest := by
  cases h with
  | directive _ h => exact directive?_text h
  | colon _ h => simp [Step.text, labelDef, plain, identifier?_append h]
  | loneColon | loneDot | other => exact errorRun_text _ _ _
  | label h => simp [Step.text, labelDef, plain, ← identifier?_append h]
  | word _ h => simp [Step.text, plain, identifier?_append h]

/-- A word among operands or data values, and what it can be. -/
theorem wordLexeme_spec (name : Bytes) : (wordLexeme name).text = name ∧
    (wordLexeme name).kind ∈ [Kind.register, .stackAccess, .pickStart, .labelUse] := by
  unfold wordLexeme
  simp only
  split
  · simp [plain]
  · split
    · simp [plain]
    · split <;> simp [plain]

theorem kind_of_bracket? {c : UInt8} {k : Kind} {d : Int} (h : bracket? c = some (k, d)) :
    k ∈ [Kind.addressStart, .addressEnd, .groupStart, .groupEnd] := by
  unfold bracket? at h
  grind

theorem kind_of_operator? {st : State} {c : UInt8} {k : Kind} (h : operator? st c = some k) :
    k ∈ [Kind.operator, .unaryOperator] := by
  unfold operator? at h
  grind

/-- What a step among operands or data values can be, at a byte other than a comma. -/
inductive ValueStep (st : State) (c : UInt8) (rest : Bytes) : Step → Prop
  | bracket {k : Kind} {d : Int} (h : bracket? c = some (k, d)) :
      ValueStep st c rest ⟨[plain k [c]], { st with depth := st.depth + d }, rest⟩
  | operator {k : Kind} (h : operator? st c = some k) :
      ValueStep st c rest ⟨[plain k [c]], st, rest⟩
  | number {n : Int} (hc : isDigit c = true)
      (h : Numeral.read (c :: rest.takeWhile isWordByte) = .ok n) :
      ValueStep st c rest
        ⟨[⟨.literal, c :: rest.takeWhile isWordByte, some (.resolved n), false, []⟩], st,
          rest.dropWhile isWordByte⟩
  | badNumber : ValueStep st c rest
      ⟨[plain .error (c :: rest.takeWhile isWordByte)], st, rest.dropWhile isWordByte⟩
  | character {ch : Char} {after : Bytes} (hc : c = byte '\'')
      (h : character? rest = some (ch, after)) :
      ValueStep st c rest
        ⟨[⟨.literal, c :: before rest after, some (.resolved ch.toNat), false, []⟩], st, after⟩
  | string {contents after : Bytes} (h : string? rest = some (contents, after)) :
      ValueStep st c rest ⟨[⟨.string, c :: before rest after, none, false, contents⟩], st, after⟩
  | openString : ValueStep st c rest ⟨[plain .error (c :: rest)], st, []⟩
  | word {name after : Bytes} (pick : Option Int)
      (h : identifier? (c :: rest) = some (name, after)) :
      ValueStep st c rest ⟨[wordLexeme name], { st with pick }, after⟩
  | shift (hc : c = byte '<' ∨ c = byte '>') (h : rest.head? = some c) :
      ValueStep st c rest ⟨[plain .operator [c, c]], st, rest.drop 1⟩
  | other : ValueStep st c rest (errorRun st c rest)

theorem valueStep_spec (st : State) (c : UInt8) (rest : Bytes) :
    ValueStep st c rest (valueStep st c rest) := by
  unfold valueStep
  split
  · exact .bracket ‹_›
  · exact .operator ‹_›
  split
  · rename_i hc
    unfold numberStep
    simp only
    split
    · exact .number hc ‹_›
    · exact .badNumber
  split
  · rename_i hc
    unfold characterStep
    split
    · exact .character hc ‹_›
    · exact .other
  split
  · unfold stringStep
    split
    · exact .string ‹_›
    · exact .openString
  split
  · unfold wordStep
    split
    · simp only
      split
      · exact .word _ ‹_›
      · exact .word st.pick ‹_›
    · exact .other
  split
  · rename_i hc
    unfold shiftStep
    split
    · exact .shift hc ‹_›
    · exact .other
  · exact .other

theorem valueStep_text (st : State) (c : UInt8) (rest : Bytes) :
    (valueStep st c rest).text = c :: rest := by
  have h := valueStep_spec st c rest
  generalize valueStep st c rest = s at h
  cases h with
  | bracket _ | operator _ | number _ _ | badNumber | openString => simp [Step.text, plain]
  | character _ h => simp [Step.text, before_append (isSuffix_character? h)]
  | string h => simp [Step.text, before_append (isSuffix_string? h)]
  | word _ h => simp [Step.text, (wordLexeme_spec _).1, identifier?_append h]
  | shift _ h =>
    obtain ⟨more, rfl⟩ := List.head?_eq_some_iff.1 h
    simp [Step.text, plain]
  | other => exact errorRun_text st c rest

theorem operandStep_text (st : State) (c : UInt8) (rest : Bytes) :
    (operandStep st c rest).text = c :: rest := by
  unfold operandStep
  split
  · rename_i hc
    simp only [commaStep, Step.text, List.flatMap_append]
    split <;> split <;> simp [mark, plain, hc]
  · split
    · exact valueStep_text _ _ _
    · exact valueStep_text _ _ _

theorem closeValue_text (st : State) : (closeValue st).1.flatMap (·.text) = [] := by
  simp only [closeValue, List.flatMap_append]
  split <;> split <;> split <;> rfl

/-- The lexemes of a step cover the bytes it takes. -/
theorem step_text (st : State) (c : UInt8) (rest : Bytes) : (step st c rest).text = c :: rest := by
  show (stepAt st c rest).text = c :: rest
  unfold stepAt
  split
  · simp [Step.text, plain]
  · split
    · simp [Step.text, closeValue_text, plain]
    · split
      · exact (lineStep_spec _ _ _).text_eq
      · exact operandStep_text _ _ _

/-- The bytes a step takes : the one it is at, and those up to what it leaves. -/
theorem exists_taken (st : State) (c : UInt8) (rest : Bytes) :
    ∃ z, (step st c rest).emitted.flatMap (·.text) = c :: z ∧
      rest = z ++ (step st c rest).rest := by
  have htext := step_text st c rest
  rw [Step.text] at htext
  cases hz : (step st c rest).emitted.flatMap (·.text) with
  | nil =>
    have hle := step_rest_le st c rest
    rw [hz, List.nil_append] at htext
    rw [htext] at hle
    exact absurd hle (Nat.not_succ_le_self _)
  | cons b z =>
    rw [hz, List.cons_append] at htext
    obtain ⟨rfl, hrest⟩ := List.cons.inj htext
    exact ⟨z, rfl, hrest.symm⟩

/-! ## Behind the mnemonic or the directive -/

/-- The kinds that make a directive line. -/
def opens : Kind → Bool
  | .directive | .parameters => true
  | _ => false

/-- A step that stays in a stage of the line and finds nothing of a directive. -/
structure Step.Quiet (s : Step) (stage : Stage) : Prop where
  stage_eq : s.state.stage = stage
  opens_eq : ∀ l ∈ s.emitted, opens l.kind = false

theorem quiet_singleton {l : Lexeme} {st : State} {rest : Bytes} (h : opens l.kind = false) :
    Step.Quiet ⟨[l], st, rest⟩ st.stage :=
  ⟨rfl, by simpa using h⟩

theorem quiet_valueStep (st : State) (c : UInt8) (rest : Bytes) :
    (valueStep st c rest).Quiet st.stage := by
  have hbracket : ∀ k ∈ [Kind.addressStart, .addressEnd, .groupStart, .groupEnd],
      opens k = false := by decide
  have hoperator : ∀ k ∈ [Kind.operator, .unaryOperator], opens k = false := by decide
  have hword : ∀ k ∈ [Kind.register, .stackAccess, .pickStart, .labelUse], opens k = false := by
    decide
  have h := valueStep_spec st c rest
  generalize valueStep st c rest = s at h
  cases h with
  | bracket h => exact ⟨rfl, by simpa [plain] using hbracket _ (kind_of_bracket? h)⟩
  | operator h => exact quiet_singleton (hoperator _ (kind_of_operator? h))
  | word _ _ => exact ⟨rfl, by simpa using hword _ (wordLexeme_spec _).2⟩
  | _ => exact quiet_singleton rfl

theorem quiet_operandStep (st : State) (c : UInt8) (rest : Bytes) :
    (operandStep st c rest).Quiet st.stage := by
  unfold operandStep
  split
  · refine ⟨rfl, ?_⟩
    simp only [commaStep]
    generalize decide (st.pick = some st.depth) = closesPick
    generalize decide (st.stage = .data ∧ st.depth = 0) = closesValue
    cases closesPick <;> cases closesValue <;> cases st.inValue <;> simp [mark, plain, opens]
  · split
    · obtain ⟨hstage, hopens⟩ :=
        quiet_valueStep { st with inValue := true, trailing := false } c rest
      exact ⟨hstage, List.forall_mem_cons.2 ⟨rfl, hopens⟩⟩
    · exact quiet_valueStep _ _ _

theorem closeValue_opens (st : State) : ∀ l ∈ (closeValue st).1, opens l.kind = false := by
  simp only [closeValue]
  split <;> split <;> split <;> simp [mark, opens]

/-- Behind the mnemonic or the directive of a line nothing of a directive is found. -/
theorem quiet_step {st : State} (h : st.stage ≠ .line) (c : UInt8) (rest : Bytes) :
    (step st c rest).Quiet st.stage := by
  suffices hat : (stepAt st c rest).Quiet st.stage from ⟨hat.stage_eq, hat.opens_eq⟩
  unfold stepAt
  split
  · exact quiet_singleton rfl
  · split
    · refine ⟨rfl, ?_⟩
      intro l hl
      rcases List.mem_append.1 hl with hl | hl
      · exact closeValue_opens st l hl
      · rw [List.mem_singleton.1 hl]
        rfl
    · exact quiet_operandStep _ _ _

theorem opens_of_run {st : State} (h : st.stage ≠ .line) (s : Bytes) :
    ∀ l ∈ run st s, opens l.kind = false := by
  fun_induction run st s with
  | case1 st =>
    intro l hl
    rcases List.mem_append.1 hl with hl | hl
    · exact closeValue_opens st l hl
    · rw [List.mem_singleton.1 hl]
      rfl
  | case2 st c rest ih =>
    have hquiet := quiet_step h c rest
    intro l hl
    rcases List.mem_append.1 hl with hl | hl
    · exact hquiet.opens_eq l hl
    · exact ih (by rwa [hquiet.stage_eq]) l hl

end Lexer

end Asm16
