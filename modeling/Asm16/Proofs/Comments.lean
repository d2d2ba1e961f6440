import Asm16.Proofs.Strings

/-!
# Comments

A comment behind a line changes nothing of what the line means (`significantTokens_lex_comment`).
A step looks at bytes behind those it takes : whether a name goes on or a colon follows it, whether
a second `<` stands there, where parameters end. A semicolon answers each of these questions as the
end of the line does, unless it falls into a string or a character that is still open, and then the
line has an error, or into parameters with a quote. So a step finds the same with a comment behind
(`Lexer.step_comment`), and the run does too, up to the end, where what is open is closed at the
same place.
-/

namespace Asm16

namespace Lexer

/-! ## Steps with a comment behind -/

/-- A lexeme that nothing behind it can change : no error, and no parameters with a quote. -/
def Settled (l : Lexeme) : Prop :=
  l.kind ≠ .error ∧ (l.kind = .parameters → byte '"' ∉ l.text ∧ byte '\'' ∉ l.text)

/-- A step with more text behind. -/
def Step.followedBy (s : Step) (tail : Bytes) : Step := { s with rest := s.rest ++ tail }

theorem not_settled_error (text : Bytes) : ¬ Settled (plain .error text) := fun h => h.1 rfl

section Steps

variable {st : State} {c : UInt8} {rest tail : Bytes}

theorem not_settled_errorRun (st : State) (c : UInt8) (rest : Bytes) :
    ¬ ∀ l ∈ (errorRun st c rest).emitted, Settled l :=
  fun h => not_settled_error _ (h _ List.mem_cons_self)

/-- A run of bytes that a semicolon is none of ends before a comment. -/
theorem head?_comment {p : UInt8 → Bool} (hp : p (byte ';') = false) (comment : Bytes) :
    ∀ d, (byte ';' :: comment).head? = some d → p d = false := by
  rintro _ ⟨⟩
  exact hp

theorem numberStep_append (htail : Stops tail) :
    numberStep st c (rest ++ tail) = (numberStep st c rest).followedBy tail := by
  simp only [numberStep, Step.followedBy, takeWhile_append_of_stop htail,
    dropWhile_append_of_stop htail]

theorem characterStep_append (h : ∀ l ∈ (characterStep st c rest).emitted, Settled l) :
    characterStep st c (rest ++ tail) = (characterStep st c rest).followedBy tail := by
  unfold characterStep at h ⊢
  cases hchar : character? rest with
  | none =>
    rw [hchar] at h
    exact absurd h (not_settled_errorRun st c rest)
  | some p =>
    rw [character?_append hchar tail]
    simp only [before_append_append (character?_rest_le hchar), Step.followedBy]

theorem stringStep_append (h : ∀ l ∈ (stringStep st c rest).emitted, Settled l) :
    stringStep st c (rest ++ tail) = (stringStep st c rest).followedBy tail := by
  unfold stringStep at h ⊢
  cases hstring : string? rest with
  | none =>
    rw [hstring] at h
    exact absurd (h _ List.mem_cons_self) (not_settled_error _)
  | some p =>
    rw [string?_append hstring tail]
    simp only [before_append_append (string?_rest_le hstring), Step.followedBy]

theorem wordStep_append (htail : Stops tail) (h : ∀ l ∈ (wordStep st c rest).emitted, Settled l) :
    wordStep st c (rest ++ tail) = (wordStep st c rest).followedBy tail := by
  unfold wordStep at h ⊢
  cases hident : identifier? (c :: rest) with
  | none =>
    rw [hident] at h
    exact absurd h (not_settled_errorRun st c rest)
  | some p =>
    rw [← List.cons_append, identifier?_append_tail hident htail]
    rfl

theorem shiftStep_append (h : ∀ l ∈ (shiftStep st c rest).emitted, Settled l) :
    shiftStep st c (rest ++ tail) = (shiftStep st c rest).followedBy tail := by
  unfold shiftStep at h ⊢
  by_cases hhead : rest.head? = some c
  · cases rest with
    | nil => cases hhead
    | cons d more =>
      have happend : (d :: more ++ tail).head? = some c := hhead
      rw [if_pos hhead, if_pos happend]
      rfl
  · rw [if_neg hhead] at h
    exact absurd h (not_settled_errorRun st c rest)

theorem valueStep_append (htail : Stops tail)
    (h : ∀ l ∈ (valueStep st c rest).emitted, Settled l) :
    valueStep st c (rest ++ tail) = (valueStep st c rest).followedBy tail := by
  unfold valueStep at h ⊢
  cases hb : bracket? c with
  | some p => rfl
  | none =>
    cases ho : operator? st c with
    | some k => rfl
    | none =>
      simp only [hb, ho] at h ⊢
      split_ifs at h ⊢
      · exact numberStep_append htail
      · exact characterStep_append h
      · exact stringStep_append h
      · exact wordStep_append htail h
      · exact shiftStep_append h
      · exact absurd h (not_settled_errorRun st c rest)

theorem operandStep_append (htail : Stops tail)
    (h : ∀ l ∈ (operandStep st c rest).emitted, Settled l) :
    operandStep st c (rest ++ tail) = (operandStep st c rest).followedBy tail := by
  unfold operandStep at h ⊢
  split_ifs at h ⊢
  · rfl
  · rw [valueStep_append htail fun l hl => h l (List.mem_cons_of_mem _ hl)]
    rfl
  · exact valueStep_append htail h

/-- Parameters without a quote end before a comment. -/
theorem parameterText_comment {s : Bytes}
    (h : byte '"' ∉ parameterText none s ∧ byte '\'' ∉ parameterText none s) (comment : Bytes) :
    parameterText none (s ++ byte ';' :: comment) = parameterText none s := by
  induction s with
  | nil => rfl
  | cons c s ih =>
    rw [List.cons_append]
    simp only [parameterText] at h ⊢
    split_ifs at h ⊢ with hquote hsemi
    · rcases hquote with rfl | rfl
      · exact absurd List.mem_cons_self h.1
      · exact absurd List.mem_cons_self h.2
    · rfl
    · rw [ih ⟨fun hmem => h.1 (List.mem_cons_of_mem _ hmem),
        fun hmem => h.2 (List.mem_cons_of_mem _ hmem)⟩]

/-- Trimmed parameters without a quote are the same before a comment. -/
theorem dropEnd_parameterText_comment {body params : Bytes}
    (hparams : (parameterText none body).dropEnd isBlank = params)
    (h : byte '"' ∉ params ∧ byte '\'' ∉ params) (comment : Bytes) :
    (parameterText none (body ++ byte ';' :: comment)).dropEnd isBlank = params ∧
      (body ++ byte ';' :: comment).drop params.length =
        body.drop params.length ++ byte ';' :: comment := by
  obtain ⟨back, hback, hblank⟩ := exists_dropEnd_append isBlank (parameterText none body)
  obtain ⟨behind, hbody, -⟩ := exists_parameterText_append none body
  rw [hparams] at hback
  -- what is trimmed is blank, so a quote would stand in what is left
  have hquote {q : UInt8} (hq : isBlank q = false) (hmem : q ∉ params) :
      q ∉ parameterText none body := by
    rw [hback, List.mem_append, not_or]
    exact ⟨hmem, fun hq' => by simp [hblank q hq'] at hq⟩
  rw [parameterText_comment ⟨hquote rfl h.1, hquote rfl h.2⟩]
  refine ⟨hparams, List.drop_append_of_le_length ?_⟩
  rw [hbody, hback]
  simp only [List.length_append]
  omega

theorem directive?_comment (h : ∀ s, directive? st c rest = some s → ∀ l ∈ s.emitted, Settled l)
    (comment : Bytes) : directive? st c (rest ++ byte ';' :: comment) =
      (directive? st c rest).map (·.followedBy (byte ';' :: comment)) := by
  have hletter := head?_comment (p := isLetter) rfl comment
  have hblank := head?_comment (p := isBlank) rfl comment
  have hhead (after : Bytes) :
      (after ++ byte ';' :: comment).head?.any (fun d => d = byte ':' || isWordByte d) =
        after.head?.any fun d => d = byte ':' || isWordByte d := by
    cases after <;> rfl
  simp only [directive?, takeWhile_append_of_stop hletter, dropWhile_append_of_stop hletter,
    hhead] at h ⊢
  by_cases hafter : (rest.dropWhile isLetter).head?.any fun d => d = byte ':' || isWordByte d
  · simp only [hafter, if_true, Option.map_none]
  simp only [if_neg hafter] at h ⊢
  cases hform : directiveForm? (Bytes.lower (rest.takeWhile isLetter)) with
  | none => rfl
  | some form =>
    cases form with
    | values => rfl
    | parameters =>
      simp only [hform, Option.some.injEq, forall_eq'] at h
      simp only [takeWhile_append_of_stop hblank, dropWhile_append_of_stop hblank]
      generalize (rest.dropWhile isLetter).dropWhile isBlank = body at h ⊢
      generalize hparams : (parameterText none body).dropEnd isBlank = params at h ⊢
      have hquotes : byte '"' ∉ params ∧ byte '\'' ∉ params := by
        cases params with
        | nil => simp
        | cons d params => exact (h (plain .parameters (d :: params)) (by simp)).2 rfl
      obtain ⟨htext, hdrop⟩ := dropEnd_parameterText_comment hparams hquotes comment
      simp only [htext, hdrop]
      rfl

theorem lineStep_comment (h : ∀ l ∈ (lineStep st c rest).emitted, Settled l) (comment : Bytes) :
    lineStep st c (rest ++ byte ';' :: comment) =
      (lineStep st c rest).followedBy (byte ';' :: comment) := by
  have hident {s : Bytes} {p : Bytes × Bytes} (hs : identifier? s = some p) :
      identifier? (s ++ byte ';' :: comment) = some (p.1, p.2 ++ byte ';' :: comment) :=
    identifier?_append_tail hs (stops_cons rfl comment)
  have hdirective : (if c = byte '#' ∨ c = byte '.' then
        directive? st c (rest ++ byte ';' :: comment) else none) =
      (if c = byte '#' ∨ c = byte '.' then directive? st c rest else none).map
        (·.followedBy (byte ';' :: comment)) := by
    split_ifs with hc
    · refine directive?_comment (fun s hs => ?_) comment
      rwa [lineStep, if_pos hc, hs] at h
    · rfl
  unfold lineStep at h ⊢
  rw [hdirective]
  cases hmarked : (if c = byte '#' ∨ c = byte '.' then directive? st c rest else none) with
  | some s => rfl
  | none =>
    simp only [hmarked, Option.map_none] at h ⊢
    by_cases hcolon : c = byte ':'
    · simp only [if_pos hcolon] at h ⊢
      cases hname : identifier? rest with
      | none =>
        simp only [hname] at h
        exact absurd h (not_settled_errorRun _ _ _)
      | some p =>
        rw [hident hname]
        rfl
    simp only [if_neg hcolon] at h ⊢
    by_cases hstart : (isNameStart c || c = byte '.') = true
    · simp only [if_pos hstart] at h ⊢
      cases hname : identifier? (c :: rest) with
      | none =>
        simp only [hname] at h
        exact absurd h (not_settled_errorRun _ _ _)
      | some p =>
        obtain ⟨name, after⟩ := p
        rw [← List.cons_append, hident hname]
        -- a semicolon is no colon
        have hhead : (after ++ byte ';' :: comment).head? = some (byte ':') ↔
            after.head? = some (byte ':') := by
          cases after <;> simp
        by_cases hlabel : after.head? = some (byte ':')
        · obtain ⟨more, rfl⟩ := List.head?_eq_some_iff.1 hlabel
          rfl
        · simp only [hhead, if_neg hlabel, Step.followedBy]
          split_ifs <;> rfl
    · simp only [if_neg hstart] at h
      exact absurd h (not_settled_errorRun _ _ _)

/-- A step finds the same with a comment behind. -/
theorem step_comment (hc : c ≠ byte ';') (h : ∀ l ∈ (step st c rest).emitted, Settled l)
    (comment : Bytes) : step st c (rest ++ byte ';' :: comment) =
      (step st c rest).followedBy (byte ';' :: comment) := by
  have hstep : stepAt st c (rest ++ byte ';' :: comment) =
      (stepAt st c rest).followedBy (byte ';' :: comment) := by
    have hsettled : ∀ l ∈ (stepAt st c rest).emitted, Settled l := h
    unfold stepAt at hsettled ⊢
    split_ifs at hsettled ⊢
    · have hblank := head?_comment (p := isBlank) rfl comment
      rw [takeWhile_append_of_stop hblank, dropWhile_append_of_stop hblank]
      rfl
    · exact lineStep_comment hsettled comment
    · exact operandStep_append (stops_cons rfl comment) hsettled
  rw [step, hstep]
  rfl

end Steps

/-! ## Lines with a comment behind -/

theorem significantTokens_place_append (mode : Mode) (n : Nat) (first second : List Lexeme) :
    significantTokens (place mode n (first ++ second)) = significantTokens (place mode n first) ++
      significantTokens (place mode (n + (first.flatMap (·.text)).length) second) := by
  rw [place_append, significantTokens, List.filter_append]
  rfl

theorem significantTokens_run_nil (mode : Mode) (n : Nat) (st : State) :
    significantTokens (place mode n (run st [])) =
      significantTokens (place mode n (closeValue st).1) := by
  rw [run, significantTokens_place_append]
  exact List.append_nil _

/-- A comment ends a line as the end of the text does : what is open is closed before it, and
nothing is left to close behind it. -/
theorem significantTokens_run_semicolon (mode : Mode) (n : Nat) (st : State) (comment : Bytes) :
    significantTokens (place mode n (run st (byte ';' :: comment))) =
      significantTokens (place mode n (run st [])) := by
  rw [run_cons, step, stepAt_semicolon, significantTokens_place_append, significantTokens_run_nil,
    significantTokens_place_append, significantTokens_run_nil, List.append_assoc]
  exact List.append_nil _

theorem significantTokens_run_comment {st : State} {s : Bytes} (h : ∀ l ∈ run st s, Settled l)
    (mode : Mode) (n : Nat) (comment : Bytes) :
    significantTokens (place mode n (run st (s ++ byte ';' :: comment))) =
      significantTokens (place mode n (run st s)) := by
  fun_induction run st s generalizing n with
  | case1 st =>
    rw [← run]
    exact significantTokens_run_semicolon mode n st comment
  | case2 st c rest ih =>
    rw [List.cons_append]
    obtain ⟨hstep, hrun⟩ := List.forall_mem_append.1 h
    by_cases hc : c = byte ';'
    · -- the text ends with a comment already
      subst hc
      rw [← run_cons, significantTokens_run_semicolon, significantTokens_run_semicolon]
    · -- the step is the same, so the rest of the run starts in the same state and at the same place
      rw [run_cons, step_comment hc hstep, significantTokens_place_append,
        significantTokens_place_append]
      exact congrArg (_ ++ ·) (ih hrun _)

end Lexer

/-- A comment behind a text changes none of its tokens that carry meaning, nor where they stand, if
the text has no error and no quote stands in directive parameters. -/
theorem significantTokens_lex_comment (mode : Mode) (text comment : Bytes)
    (herror : errorTokens (lex mode text) = [])
    (hquote : ∀ t ∈ lex mode text, t.kind = .parameters →
      byte '"' ∉ t.text ∧ byte '\'' ∉ t.text) :
    significantTokens (lex mode (text ++ byte ';' :: comment)) =
      significantTokens (lex mode text) := by
  refine Lexer.significantTokens_run_comment (fun l hl => ?_) mode 0 comment
  rw [← Lexer.map_toLexeme_place mode 0 (Lexer.run {} text)] at hl
  obtain ⟨t, ht, rfl⟩ := List.mem_map.1 hl
  refine ⟨fun hkind => ?_, hquote t ht⟩
  have hmem : t ∈ errorTokens (lex mode text) := List.mem_filter.2 ⟨ht, by simp [hkind]⟩
  rw [herror] at hmem
  cases hmem

/-- A line that leaves a `PICK` operand and a data value open, and parameters with a blank behind
them; the comment opens a quote. -/
theorem sample_significantTokens_lex_comment :
    significantTokens (lex .initial (":here dat \"a;b\", pick (2)" ++ byte ';' :: " it's \"")) =
        significantTokens (lex .initial ":here dat \"a;b\", pick (2)") ∧
      significantTokens (lex .initial (".define n 1 " ++ byte ';' :: " it's \"")) =
        significantTokens (lex .initial ".define n 1 ") :=
  ⟨significantTokens_lex_comment .initial _ _ (by decide +kernel) (by decide +kernel),
    significantTokens_lex_comment .initial _ _ (by decide +kernel) (by decide +kernel)⟩

end Asm16
