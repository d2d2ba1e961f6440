import Asm16.Proofs.Lexing

/-!
# What decides a directive

As long as a line has not come to its mnemonic or directive, a step looks no further than the byte
behind those it takes (`step_append`). So the directive of a line is decided before its parameters :
whatever is put in their place, if its first byte is the same, the line has a directive of the same
kind, with the parameters that are found there (`exists_leads`).
-/

namespace Asm16.Lexer

/-! ## Before the mnemonic or the directive -/

theorem isNameStart_of_isLetter {c : UInt8} (h : isLetter c = true) : isNameStart c = true := by
  simp [isNameStart, h]

/-- Where a name ends is seen from the byte behind it. -/
theorem identifier?_congr {x r r' name : Bytes} (h : identifier? (x ++ r) = some (name, r))
    (hr : r'.head? = r.head?) : identifier? (x ++ r') = some (name, r') := by
  have hname : name = x := List.append_cancel_right (identifier?_append h)
  cases x with
  | nil =>
    have := identifier?_rest_lt h
    simp at this
  | cons c y =>
    rw [List.cons_append] at h ⊢
    by_cases hc : c = byte '.'
    · subst hc
      rw [identifier?_dot] at h ⊢
      rw [head?_append_congr y hr]
      split at h
      · rename_i hd
        obtain ⟨rfl, hdrop⟩ := Prod.mk.inj (Option.some.inj h)
        obtain ⟨htake, hrest⟩ := span_append hdrop hr
        rw [if_pos hd, htake, hrest]
      · cases h
    · rw [identifier?_cons hc] at h ⊢
      split at h
      · rename_i hc
        obtain ⟨rfl, hdrop⟩ := Prod.mk.inj (Option.some.inj h)
        obtain ⟨htake, hrest⟩ := span_append hdrop hr
        rw [if_pos hc, htake, hrest]
      · cases h

/-- A text that begins with no letter has no directive word. -/
theorem directive?_eq_none {st : State} {c : UInt8} {rest : Bytes}
    (h : rest.head?.any isNameStart = false) : directive? st c rest = none := by
  have hword : rest.takeWhile isLetter = [] := by
    cases rest with
    | nil => rfl
    | cons d more =>
      have hd : isLetter d = false := by
        refine Bool.eq_false_iff.2 fun hd => ?_
        simp [isNameStart_of_isLetter hd] at h
      simp [hd]
  simp only [directive?, hword]
  split
  · rfl
  · rfl

/-- A label before a colon is no directive word. -/
theorem directive?_eq_none_of_colon {st : State} {c : UInt8} {word after : Bytes}
    (hword : ∀ d ∈ word, isWordByte d) : directive? st c (word ++ byte ':' :: after) = none := by
  have hstop : ((word ++ byte ':' :: after).dropWhile isLetter).head?.any
      (fun d => d = byte ':' || isWordByte d) = true := by
    induction word with
    | nil => rfl
    | cons d word ih =>
      obtain ⟨hd, hword⟩ := List.forall_mem_cons.1 hword
      by_cases hl : isLetter d
      · simpa [hl] using ih hword
      · simp [hl, hd]
  simp only [directive?, hstop, if_true]

theorem lineStep_label {st : State} {c : UInt8} {rest name after : Bytes}
    (h : identifier? (c :: rest) = some (name, byte ':' :: after)) :
    lineStep st c rest = ⟨[labelDef (name ++ [byte ':'])], st, after⟩ := by
  have hstart : (isNameStart c || c = byte '.') = true ∧ c ≠ byte ':' ∧
      (if c = byte '#' ∨ c = byte '.' then directive? st c rest else none) = none := by
    by_cases hc : c = byte '.'
    · subst hc
      rw [identifier?_dot] at h
      split at h
      · obtain ⟨-, hafter⟩ := Prod.mk.inj (Option.some.inj h)
        have hrest : rest = rest.takeWhile isWordByte ++ byte ':' :: after := by
          rw [← hafter, List.takeWhile_append_dropWhile]
        refine ⟨rfl, by decide, ?_⟩
        rw [if_pos (.inr rfl), hrest]
        exact directive?_eq_none_of_colon (List.all_eq_true.1 List.all_takeWhile)
      · cases h
    · rw [identifier?_cons hc] at h
      split at h
      · rename_i hname
        refine ⟨by simp [hname], ?_, if_neg ?_⟩
        · rintro rfl
          revert hname
          decide
        · rintro (rfl | rfl)
          · revert hname
            decide
          · exact hc rfl
      · cases h
  obtain ⟨hname, hcolon, hdirective⟩ := hstart
  unfold lineStep
  rw [hdirective]
  simp only [if_neg hcolon, hname, if_true, h, List.head?_cons, List.drop_succ_cons, List.drop_zero]

theorem lineStep_colon (st : State) (rest : Bytes) : lineStep st (byte ':') rest =
    match identifier? rest with
    | none => errorRun st (byte ':') rest
    | some (name, after) => ⟨[labelDef (byte ':' :: name)], st, after⟩ := rfl

theorem lineStep_dot {st : State} {rest : Bytes} (h : rest.head?.any isNameStart = false) :
    lineStep st (byte '.') rest = errorRun st (byte '.') rest := by
  have hid : identifier? (byte '.' :: rest) = none := by
    rw [identifier?_dot, h]
    rfl
  unfold lineStep
  rw [if_pos (.inr rfl), directive?_eq_none h, hid]
  rfl

theorem directive?_stage {st : State} {c : UInt8} {rest : Bytes} {s : Step}
    (h : directive? st c rest = some s) : s.state.stage ≠ .line := by
  simp only [directive?] at h
  split at h
  · cases h
  split at h
  · cases h
  · obtain rfl := Option.some.inj h
    exact Stage.noConfusion
  · obtain rfl := Option.some.inj h
    exact Stage.noConfusion

theorem errorRun_append {st : State} {c : UInt8} {x r r' : Bytes}
    (h : (errorRun st c (x ++ r)).rest = r) (hr : r'.head? = r.head?) :
    errorRun st c (x ++ r') = { errorRun st c (x ++ r) with rest := r' } := by
  obtain ⟨htake, hdrop⟩ := span_append h hr
  simp only [errorRun, htake, hdrop]

theorem not_isNameStart_of_isDelimiter {c : UInt8} (h : isDelimiter c = true) :
    isNameStart c = false ∧ c ≠ byte '.' := by
  grind [isDelimiter, isBlank, isNameStart, isLetter, isLower, isUpper]

/-- A colon without a name is seen from the byte behind the run it begins. -/
theorem identifier?_eq_none_congr {x r r' : Bytes}
    (hrun : (x ++ r).dropWhile (!isDelimiter ·) = r) (hr : r'.head? = r.head?)
    (h : identifier? (x ++ r) = none) : identifier? (x ++ r') = none := by
  match x with
  | [] =>
    match r, r' with
    | _, [] => rfl
    | c :: r, d :: r' =>
      obtain rfl : d = c := Option.some.inj hr
      have hdelimiter : isDelimiter d = true := by
        simpa using head?_dropWhile (!isDelimiter ·) _ d (by rw [hrun]; rfl)
      have hname := not_isNameStart_of_isDelimiter hdelimiter
      rw [List.nil_append, identifier?_cons hname.2, hname.1]
      rfl
  | c :: y =>
    rw [List.cons_append] at h ⊢
    by_cases hc : c = byte '.'
    · subst hc
      rw [identifier?_dot] at h ⊢
      rw [head?_append_congr y hr]
      split at h
      · cases h
      · rename_i hd
        exact if_neg hd
    · rw [identifier?_cons hc] at h ⊢
      split at h
      · cases h
      · rename_i hd
        exact if_neg hd

theorem lineStep_append {st : State} {c : UInt8} {x r r' : Bytes}
    (hstage : (lineStep st c (x ++ r)).state.stage = .line)
    (hrest : (lineStep st c (x ++ r)).rest = r) (hr : r'.head? = r.head?) :
    lineStep st c (x ++ r') = { lineStep st c (x ++ r) with rest := r' } := by
  have hspec := lineStep_spec st c (x ++ r)
  generalize lineStep st c (x ++ r) = s at hspec hstage hrest ⊢
  cases hspec with
  | directive _ h => exact absurd hstage (directive?_stage h)
  | colon hc h =>
    subst hc hrest
    rw [lineStep_colon, identifier?_congr h hr]
  | loneColon hc h =>
    subst hc
    rw [lineStep_colon, identifier?_eq_none_congr hrest hr h]
    exact errorRun_append hrest hr
  | loneDot hc h =>
    subst hc
    rw [← head?_append_congr x hr] at h
    rw [lineStep_dot h]
    exact errorRun_append hrest hr
  | @label name after h =>
    subst hrest
    -- the colon is the last byte the step takes, so the name before it is found again
    have htaken : name ++ [byte ':'] = c :: x := by
      have := identifier?_append h
      rw [List.append_cons, ← List.cons_append] at this
      exact List.append_cancel_right this
    have hsplit (t : Bytes) : c :: (x ++ t) = name ++ byte ':' :: t := by
      rw [← List.cons_append, ← htaken, List.append_assoc]
      rfl
    rw [hsplit] at h
    have h' : identifier? (name ++ byte ':' :: r') = some (name, byte ':' :: r') :=
      identifier?_congr h rfl
    rw [← hsplit] at h'
    rw [lineStep_label h']
  | word hk _ => exact absurd hstage hk.stage_ne
  | other => cases hstage

theorem LineStep.opens_eq {st : State} {c : UInt8} {rest : Bytes} {s : Step}
    (h : LineStep st c rest s) (hstage : s.state.stage = .line) :
    ∀ l ∈ s.emitted, opens l.kind = false := by
  cases h with
  | directive _ h => exact absurd hstage (directive?_stage h)
  | colon | label => simp [labelDef, plain, opens]
  | loneColon | loneDot => simp [errorRun, plain, opens]
  | word hk _ => exact absurd hstage hk.stage_ne
  | other => cases hstage

/-- A step that does not come to the mnemonic or the directive finds nothing of a directive. -/
theorem step_opens {st : State} (hst : st.stage = .line) {c : UInt8} {rest : Bytes}
    (hstage : (step st c rest).state.stage = .line) :
    ∀ l ∈ (step st c rest).emitted, opens l.kind = false := by
  have hat : (stepAt st c rest).state.stage = .line := hstage
  show ∀ l ∈ (stepAt st c rest).emitted, opens l.kind = false
  unfold stepAt at hat ⊢
  split at hat
  · rename_i hc
    simp [hc, plain, opens]
  · rename_i hc
    rw [if_neg hc]
    split at hat
    · rename_i hc
      rw [if_pos hc]
      intro l hl
      rcases List.mem_append.1 hl with hl | hl
      · exact closeValue_opens st l hl
      · rw [List.mem_singleton.1 hl]
        rfl
    · rename_i hc
      rw [if_neg hc, if_pos hst]
      exact (lineStep_spec _ _ _).opens_eq hat

/-- Before the mnemonic or the directive a step looks no further than the byte behind those it
takes. -/
theorem step_append {st : State} (hst : st.stage = .line) {c : UInt8} {x r r' : Bytes}
    (hstage : (step st c (x ++ r)).state.stage = .line) (hrest : (step st c (x ++ r)).rest = r)
    (hr : r'.head? = r.head?) :
    step st c (x ++ r') = { step st c (x ++ r) with rest := r' } := by
  suffices hat : stepAt st c (x ++ r') = { stepAt st c (x ++ r) with rest := r' } by
    simp only [step, hat]
  have hstage : (stepAt st c (x ++ r)).state.stage = .line := hstage
  have hrest : (stepAt st c (x ++ r)).rest = r := hrest
  unfold stepAt at hstage hrest ⊢
  by_cases hblank : isBlank c
  · simp only [hblank, if_true] at hrest ⊢
    obtain ⟨htake, hdrop⟩ := span_append hrest hr
    rw [htake, hdrop]
  · simp only [if_neg hblank] at hstage hrest ⊢
    by_cases hc : c = byte ';'
    · -- a comment takes all there is
      simp only [if_pos hc] at hrest ⊢
      subst hrest
      obtain rfl : r' = [] := List.head?_eq_none_iff.1 hr
      rfl
    · simp only [if_neg hc, if_pos hst] at hstage hrest ⊢
      exact lineStep_append hstage hrest hr

/-! ## Directives and their parameters -/

theorem place_append (mode : Mode) (n : Nat) (first second : List Lexeme) :
    place mode n (first ++ second) =
      place mode n first ++ place mode (n + (first.flatMap (·.text)).length) second := by
  induction first generalizing n with
  | nil => rfl
  | cons l rest ih => simp [place, ih, Nat.add_assoc]

theorem mem_place {mode : Mode} {n : Nat} {ls : List Lexeme} {t : Token} (h : t ∈ place mode n ls) :
    t.toLexeme ∈ ls := by
  induction ls generalizing n with
  | nil => cases h
  | cons l rest ih =>
    rcases List.mem_cons.1 h with rfl | h
    · exact List.mem_cons_self
    · exact List.mem_cons_of_mem _ (ih h)

end Asm16.Lexer

namespace Asm16

/-- Tokens before the directive do not count for it. -/
theorem Directive.ofTokens?_append {ts us : List Token}
    (h : ∀ t ∈ ts, Lexer.opens t.kind = false) : ofTokens? (ts ++ us) = ofTokens? us := by
  induction ts with
  | nil => rfl
  | cons t rest ih =>
    obtain ⟨ht, hrest⟩ := List.forall_mem_cons.1 h
    rw [List.cons_append, ofTokens?, if_neg, ih hrest]
    intro hk
    rw [hk] at ht
    cases ht

theorem find?_parameters_eq_none {ts : List Token} (h : ∀ t ∈ ts, Lexer.opens t.kind = false) :
    ts.find? (·.kind == .parameters) = none := by
  refine List.find?_eq_none.2 fun t ht hk => ?_
  have := h t ht
  rw [beq_iff_eq.1 hk] at this
  cases this

theorem parameterStart_append {ts us : List Token} (h : ∀ t ∈ ts, Lexer.opens t.kind = false) :
    parameterStart (ts ++ us) = parameterStart us := by
  rw [parameterStart, List.find?_append, find?_parameters_eq_none h]
  rfl

theorem Directive.ofTokens?_cons {t : Token} (ht : t.kind = .directive) (ts : List Token) :
    ofTokens? (t :: ts) = (DirectiveKind.ofKeyword? (directiveKeyword t.text)).map fun kind =>
      ⟨kind, t.text, (ts.find? (·.kind == .parameters)).elim [] (·.text)⟩ := by
  rw [ofTokens?, if_pos ht]

/-- Parameters that are not empty are a token of the line. -/
theorem Directive.exists_parameters {ts : List Token} {d : Directive} (h : ofTokens? ts = some d)
    (hp : d.params ≠ []) : ∃ t ∈ ts, t.kind = .parameters := by
  induction ts with
  | nil => cases h
  | cons t rest ih =>
    by_cases ht : t.kind = .directive
    · rw [ofTokens?_cons ht] at h
      obtain ⟨kind, -, rfl⟩ := Option.map_eq_some_iff.1 h
      cases hfind : rest.find? (·.kind == .parameters) with
      | none => simp [hfind] at hp
      | some u =>
        exact ⟨u, List.mem_cons_of_mem _ (List.mem_of_find?_eq_some hfind),
          by simpa using List.find?_some hfind⟩
    · rw [ofTokens?, if_neg ht] at h
      obtain ⟨u, hu, hk⟩ := ih h
      exact ⟨u, List.mem_cons_of_mem _ hu, hk⟩

namespace Lexer

/-- A step at a directive word. -/
theorem step_of_directive? {st : State} (hst : st.stage = .line) {c : UInt8} {rest : Bytes}
    {s : Step} (hc : c = byte '#' ∨ c = byte '.') (h : directive? st c rest = some s) :
    (step st c rest).emitted = s.emitted ∧ (step st c rest).state.stage ≠ .line := by
  have hmark : isBlank c = false ∧ c ≠ byte ';' := by
    rcases hc with rfl | rfl <;> decide
  have hat : stepAt st c rest = s := by
    simp only [stepAt, hmark.1, Bool.false_eq_true, if_false, if_neg hmark.2, if_pos hst, lineStep,
      if_pos hc, h]
  subst hat
  refine ⟨rfl, ?_⟩
  show (stepAt st c rest).state.stage ≠ .line
  exact directive?_stage h

/-- Parameters are found behind a directive word only. -/
theorem exists_directive? {st : State} (hst : st.stage = .line) {c : UInt8} {rest : Bytes}
    {l : Lexeme} (hl : l ∈ (step st c rest).emitted) (hk : l.kind = .parameters) :
    (c = byte '#' ∨ c = byte '.') ∧ ∃ s, directive? st c rest = some s := by
  have hl : l ∈ (stepAt st c rest).emitted := hl
  unfold stepAt at hl
  split at hl
  · rw [List.mem_singleton.1 hl] at hk
    cases hk
  split at hl
  · have hopens : opens l.kind = false := by
      rcases List.mem_append.1 hl with hl | hl
      · exact closeValue_opens st l hl
      · rw [List.mem_singleton.1 hl]
        rfl
    rw [hk] at hopens
    cases hopens
  have hspec := lineStep_spec st c rest
  generalize lineStep st c rest = s at hspec hl
  cases hspec with
  | @directive s hc h => exact ⟨hc, s, h⟩
  | word hword _ =>
    rw [List.mem_singleton.1 hl] at hk
    exact absurd hk hword.kind_ne
  | _ =>
    rw [List.mem_singleton.1 hl] at hk
    cases hk

/-- The parameters that a text begins with : up to a semicolon outside quotes, without the white
space around them. -/
def parametersOf (s : Bytes) : Bytes := (parameterText none (s.dropWhile isBlank)).dropEnd isBlank

theorem parametersOf_append {space : Bytes} (h : ∀ c ∈ space, isBlank c = true) (s : Bytes) :
    parametersOf (space ++ s) = parametersOf s := by
  rw [parametersOf, List.dropWhile_append_of_pos h, parametersOf]

/-- White space or a comment stands behind parameters, if anything. -/
theorem exists_parametersOf (s : Bytes) : ∃ y, s = s.takeWhile isBlank ++ parametersOf s ++ y ∧
    ∀ c, y.head? = some c → isBlank c = true ∨ c = byte ';' := by
  obtain ⟨tail, htext, htail⟩ := exists_parameterText_append none (s.dropWhile isBlank)
  obtain ⟨back, hparams, hback⟩ :=
    exists_dropEnd_append isBlank (parameterText none (s.dropWhile isBlank))
  refine ⟨back ++ tail, ?_, ?_⟩
  · rw [List.append_assoc, ← List.append_assoc (parametersOf s), parametersOf, ← hparams, ← htext,
      List.takeWhile_append_dropWhile]
  · intro c hc
    cases back with
    | nil => exact .inr (htail c hc)
    | cons b back =>
      obtain rfl : b = c := Option.some.inj hc
      exact .inl (hback b List.mem_cons_self)

/-- What a directive word with the text `r` behind it gives. -/
def directiveLexemes (word r : Bytes) : List Lexeme :=
  plain .directive word ::
    ((if (r.takeWhile isBlank).isEmpty then [] else [plain .whitespace (r.takeWhile isBlank)]) ++
      if (parametersOf r).isEmpty then [] else [plain .parameters (parametersOf r)])

/-- A directive word that takes parameters is found again if the byte behind it is the same. -/
theorem exists_directive?_append {st : State} {c : UInt8} {rest : Bytes} {s : Step}
    (h : directive? st c rest = some s) {l : Lexeme} (hl : l ∈ s.emitted)
    (hk : l.kind = .parameters) {r : Bytes} (hr : r.head? = (rest.dropWhile isLetter).head?) :
    ∃ s', directive? st c (rest.takeWhile isLetter ++ r) = some s' ∧
      s'.emitted = directiveLexemes (c :: rest.takeWhile isLetter) r := by
  have hword : (rest.takeWhile isLetter ++ rest.dropWhile isLetter).dropWhile isLetter =
      rest.dropWhile isLetter := by
    rw [List.takeWhile_append_dropWhile]
  obtain ⟨htake, hdrop⟩ := span_append hword hr
  rw [List.takeWhile_append_dropWhile] at htake
  simp only [directive?] at h ⊢
  rw [htake, hdrop, hr]
  split at h
  · cases h
  · rename_i hstop
    simp only [if_neg hstop]
    split at h
    · cases h
    · obtain rfl := Option.some.inj h
      rw [List.mem_singleton.1 hl] at hk
      cases hk
    · exact ⟨_, rfl, rfl⟩

theorem opens_of_place {mode : Mode} {n : Nat} {ls : List Lexeme}
    (h : ∀ l ∈ ls, opens l.kind = false) : ∀ t ∈ place mode n ls, opens t.kind = false :=
  fun _ ht => h _ (mem_place ht)

/-- In a line `s` the text `x` stands before the parameters of the directive `d`. It decides the
directive : whatever has the first byte of the parameters may stand in their place. -/
structure Leads (st : State) (s x : Bytes) (d : Directive) : Prop where
  text_eq : ∃ y, s = x ++ d.params ++ y ∧ ∀ c, y.head? = some c → isBlank c = true ∨ c = byte ';'
  again : ∀ (t : Bytes) (mode : Mode) (n : Nat), t.head? = d.params.head? →
    Directive.ofTokens? (place mode n (run st (x ++ t))) = some { d with params := parametersOf t }

theorem head?_of_ne_nil {params t : Bytes} (hp : params ≠ []) (ht : t.head? = params.head?)
    (y : Bytes) : t.head? = (params ++ y).head? := by
  rw [ht]
  cases params with
  | nil => exact absurd rfl hp
  | cons b more => rfl

section Leading

variable {st : State} {c : UInt8} {rest : Bytes} {mode : Mode} {n : Nat} {d : Directive}

/-- A step before the directive. -/
theorem Leads.step {x : Bytes} (hst : st.stage = .line)
    (hstage : (step st c rest).state.stage = .line) (hp : d.params ≠ [])
    (h : Leads (step st c rest).state (step st c rest).rest x d) :
    Leads st (c :: rest) ((step st c rest).emitted.flatMap (·.text) ++ x) d := by
  obtain ⟨⟨y, hrest, hy⟩, hagain⟩ := h
  obtain ⟨z, htaken, hz⟩ := exists_taken st c rest
  rw [htaken]
  refine ⟨⟨y, ?_, hy⟩, ?_⟩
  · rw [List.append_assoc, List.append_assoc, ← List.append_assoc x, ← hrest, List.cons_append,
      ← hz]
  · intro t mode' n' ht
    have hhead : (x ++ t).head? = (Lexer.step st c rest).rest.head? := by
      rw [hrest, List.append_assoc]
      exact head?_append_congr x (head?_of_ne_nil hp ht y)
    have hstep : Lexer.step st c (z ++ (x ++ t)) =
        { Lexer.step st c (z ++ (Lexer.step st c rest).rest) with rest := x ++ t } :=
      step_append hst (by rwa [← hz]) (by rw [← hz]) hhead
    rw [← hz] at hstep
    rw [List.append_assoc, List.cons_append, run, hstep, place_append,
      Directive.ofTokens?_append (opens_of_place (step_opens hst hstage))]
    exact hagain t mode' _ ht

section Lexemes

variable (word r : Bytes) {more : List Lexeme}

/-- The parameters are found among the lexemes of a directive word. -/
theorem ofTokens?_directiveLexemes (hmore : ∀ l ∈ more, opens l.kind = false) :
    Directive.ofTokens? (place mode n (directiveLexemes word r ++ more)) =
      (DirectiveKind.ofKeyword? (directiveKeyword word)).map (⟨·, word, parametersOf r⟩) := by
  have hquiet (k : Nat) : (place mode k more).find? (·.kind == .parameters) = none :=
    find?_parameters_eq_none (opens_of_place hmore)
  rw [directiveLexemes, List.cons_append, place, Directive.ofTokens?_cons rfl]
  congr 1
  funext kind
  cases r.takeWhile isBlank <;> cases parametersOf r <;> simp [place, plain, hquiet]

theorem parameterStart_directiveLexemes (hr : parametersOf r ≠ []) (more : List Lexeme) :
    parameterStart (place mode n (directiveLexemes word r ++ more)) =
      n + word.length + (r.takeWhile isBlank).length := by
  rw [parameterStart, directiveLexemes]
  cases hspace : r.takeWhile isBlank <;> cases hparams : parametersOf r <;>
    simp_all [place, plain]

end Lexemes

/-- A step that comes to the directive. -/
theorem exists_leads_of_step (hst : st.stage = .line)
    (hstage : (step st c rest).state.stage ≠ .line)
    (h : Directive.ofTokens? (place mode n (run st (c :: rest))) = some d) (hp : d.params ≠ []) :
    ∃ x, Leads st (c :: rest) x d ∧
      parameterStart (place mode n (run st (c :: rest))) = n + x.length := by
  -- behind this step no parameters are found, so it has them
  obtain ⟨u, hu, hk⟩ := Directive.exists_parameters h hp
  have hl : u.toLexeme ∈ (step st c rest).emitted := by
    have hu := mem_place hu
    rw [run] at hu
    rcases List.mem_append.1 hu with hu | hu
    · exact hu
    · have := opens_of_run hstage (step st c rest).rest _ hu
      rw [hk] at this
      cases this
  obtain ⟨hc, s, hs⟩ := exists_directive? hst hl hk
  rw [(step_of_directive? hst hc hs).1] at hl
  have hagain {r : Bytes} (hr : r.head? = (rest.dropWhile isLetter).head?) (mode : Mode) (n : Nat) :
      Directive.ofTokens? (place mode n (run st (c :: (rest.takeWhile isLetter ++ r)))) =
        (DirectiveKind.ofKeyword? (directiveKeyword (c :: rest.takeWhile isLetter))).map
          (⟨·, c :: rest.takeWhile isLetter, parametersOf r⟩) := by
    obtain ⟨s', hs', hemitted⟩ := exists_directive?_append hs hl hk hr
    obtain ⟨hstep, hdone⟩ := step_of_directive? hst hc hs'
    rw [run, hstep, hemitted]
    exact ofTokens?_directiveLexemes _ _ (opens_of_run hdone _)
  have hrest : rest.takeWhile isLetter ++ rest.dropWhile isLetter = rest :=
    List.takeWhile_append_dropWhile
  have hd := hagain rfl mode n
  rw [hrest, h] at hd
  obtain ⟨kind, hkind, rfl⟩ := Option.map_eq_some_iff.1 hd.symm
  obtain ⟨y, hy, hbehind⟩ := exists_parametersOf (rest.dropWhile isLetter)
  refine ⟨c :: rest.takeWhile isLetter ++ (rest.dropWhile isLetter).takeWhile isBlank,
    ⟨⟨y, ?_, hbehind⟩, ?_⟩, ?_⟩
  · rw [List.append_assoc, List.append_assoc, ← List.append_assoc (List.takeWhile isBlank _), ← hy,
      List.cons_append, hrest]
  · intro t mode' n' ht
    rw [List.append_assoc, List.cons_append, hagain, hkind, parametersOf_append]
    · rfl
    · exact List.all_eq_true.1 List.all_takeWhile
    · refine (head?_append_congr _ (head?_of_ne_nil hp ht y)).trans ?_
      rw [← List.append_assoc, ← hy]
  · obtain ⟨s', hs', hemitted⟩ := exists_directive?_append hs hl hk rfl
    rw [hrest] at hs'
    rw [run, (step_of_directive? hst hc hs').1, hemitted, parameterStart_directiveLexemes _ _ hp,
      List.length_append, Nat.add_assoc]

end Leading

/-- The directive of a line is decided before its parameters. -/
theorem exists_leads {st : State} (hst : st.stage = .line) {s : Bytes} {mode : Mode} {n : Nat}
    {d : Directive} (h : Directive.ofTokens? (place mode n (run st s)) = some d)
    (hp : d.params ≠ []) :
    ∃ x, Leads st s x d ∧ parameterStart (place mode n (run st s)) = n + x.length := by
  fun_induction run st s generalizing n with
  | case1 st =>
    obtain ⟨u, hu, hk⟩ := Directive.exists_parameters h hp
    have hopens : opens u.kind = false := by
      rcases List.mem_append.1 (mem_place hu) with hu | hu
      · exact closeValue_opens st _ hu
      · rw [List.mem_singleton.1 hu]
        rfl
    rw [hk] at hopens
    cases hopens
  | case2 st c rest ih =>
    by_cases hstage : (step st c rest).state.stage = .line
    · have hopens : ∀ t ∈ place mode n (step st c rest).emitted, opens t.kind = false :=
        opens_of_place (step_opens hst hstage)
      rw [place_append] at h ⊢
      rw [Directive.ofTokens?_append hopens] at h
      rw [parameterStart_append hopens]
      obtain ⟨x, hleads, hstart⟩ := ih hstage h
      exact ⟨_, hleads.step hst hstage hp, by rw [hstart, List.length_append, Nat.add_assoc]⟩
    · rw [← run] at h ⊢
      exact exists_leads_of_step hst hstage h hp

end Lexer

end Asm16
