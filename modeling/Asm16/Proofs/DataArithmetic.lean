import Asm16.Layout
import Asm16.Proofs.Covering
import Asm16.Proofs.Parting
import Asm16.Proofs.Reassembly

/-!
# Arithmetic in data values

The parameters of a directive are evaluated as text. A data value is evaluated from its tokens :
they are printed with spaces between them, and the result is evaluated. The two agree.

A token of arithmetic stands for a symbol (`Stands`). If a data value has no tokens but these, the
text it was read from is cut into their symbols (`exists_parted_of_dataRuns`). The induction is
along the run of the lexer as long as the value is open (`parted_of_open`) : its steps find symbols,
and a comma that would end the value makes a second one. The printed text is cut into the same
symbols (`exists_expressionText`). A text without `//` is evaluated by the symbols it is cut into
(`Parted.evaluate_eq_ok`), so both texts have the same values.
-/

namespace Asm16

open Arith Numeral

/-- The kinds of tokens in arithmetic without labels. -/
def numericKinds : List Kind := [.literal, .operator, .unaryOperator, .groupStart, .groupEnd]

/-- A lexeme stands for a symbol of arithmetic. -/
inductive Stands : Lexeme → Symbol → Prop
  | literal {l : Lexeme} {n : Nat} (hk : l.kind = .literal) (hv : l.value? = some (n : Int))
    (hw : Literal l.text n) (hn : n < intLimit) : Stands l (.int n)
  | mark {l : Lexeme} {symbol : Symbol} (hk : l.kind ∈ numericKinds) (hne : l.kind ≠ .literal)
    (hv : l.value? = none) (ht : l.text = symbol.spelling) (hs : symbol ∈ sourceMarks) :
    Stands l symbol

/-- Tokens stand for symbols, one by one. -/
abbrev StandFor (ts : List Token) (syms : List Symbol) : Prop :=
  List.Forall₂ (fun t symbol => Stands t.toLexeme symbol) ts syms

/-! ## The printed text -/

/-- A token is printed as the symbol it stands for. -/
theorem Stands.expressionText_cons {t : Token} {symbol : Symbol} (h : Stands t.toLexeme symbol)
    {ts : List Token} {s : Bytes} (hs : expressionText ts = .ok s) :
    expressionText (t :: ts) = .ok (symbol.spelling ++ " " ++ s) := by
  cases h with
  | literal hk hv _ _ =>
    simp only [expressionText, hk, hv, hs, ok_bind, ofInt_natCast]
    rfl
  | mark hk hne _ ht _ =>
    simp only [numericKinds, List.mem_cons, List.not_mem_nil, or_false] at hk
    rcases hk.resolve_left hne with hk | hk | hk | hk <;>
      simp only [expressionText, hk, ht, hs, ok_bind]

/-- The printed text is cut into the symbols of its tokens. -/
theorem exists_expressionText {ts : List Token} {syms : List Symbol} (h : StandFor ts syms) :
    ∃ s, expressionText ts = .ok s ∧ Parted syms s ∧ SlashesApart s := by
  induction h with
  | nil => exact ⟨[], rfl, .nil isGap_nil, .nil⟩
  | @cons t symbol ts syms ht _ ih =>
    obtain ⟨s, hs, hparted, hslash⟩ := ih
    have hspace : IsGap " " := fun c hc => Or.inl (List.mem_singleton.1 hc)
    refine ⟨_, ht.expressionText_cons hs, ?_⟩
    cases ht with
    | @literal n _ _ _ _ =>
      have hliteral := literal_decimal n
      refine ⟨?_, (slashesApart_of_isWord (isWord_of_literal hliteral).all).append_gap hslash⟩
      rw [List.append_assoc]
      refine .int (g := []) isGap_nil hliteral ?_ (hparted.gap_append hspace)
      intro c hc
      obtain rfl := Option.some.inj hc
      rfl
    | mark _ _ _ _ hmark =>
      refine ⟨?_, (slashesApart_spelling symbol hmark).append_gap hslash⟩
      rw [List.append_assoc]
      exact .mark (g := []) isGap_nil hmark (hparted.gap_append hspace)

/-- Tokens that are no lone number have the value of their text. -/
theorem evaluateTokens_of_expressionText {ts : List Token} {s : Bytes}
    (hs : expressionText ts = .ok s) (hlone : ∀ t, ts = [t] → t.value? = none) {v : Int} :
    evaluateTokens ts = .ok v ↔ Arith.evaluate s = .ok v := by
  unfold evaluateTokens
  simp only
  split
  · rename_i n hn
    split at hn
    · rw [hlone _ rfl] at hn
      cases hn
    · cases hn
  · rw [hs, ok_bind]
    cases Arith.evaluate s <;> simp

/-- The value of tokens is the value of the expression their symbols derive. -/
theorem StandFor.evaluateTokens_eq_ok {ts : List Token} {syms : List Symbol} (h : StandFor ts syms)
    {v : Int} : evaluateTokens ts = .ok v ↔
      ∃ e, Derives 0 syms e ∧ e.value? = some v ∧ FitsInt v := by
  obtain ⟨s, hs, hparted, hslash⟩ := exists_expressionText h
  rw [← hparted.evaluate_eq_ok hslash]
  by_cases hlone : ∀ t, ts = [t] → t.value? = none
  · exact evaluateTokens_of_expressionText hs hlone
  · -- a lone number has the value that its text has
    push Not at hlone
    obtain ⟨t, rfl, hvalue⟩ := hlone
    obtain ⟨symbol, syms, ht, hnil, rfl⟩ := List.forall₂_cons_left_iff.1 h
    obtain rfl := List.forall₂_nil_left_iff.1 hnil
    cases ht with
    | mark _ _ hv _ _ => exact absurd hv hvalue
    | @literal n _ hv _ hn =>
      have hfits : FitsInt (n : Int) := by
        unfold FitsInt
        omega
      have htext := (hparted.evaluate_eq_ok hslash).2 ⟨.literal n, .literal hn, rfl, hfits⟩
      simp only [evaluateTokens, hv, htext, Except.ok.injEq]

/-! ## Steps of the lexer -/

namespace Lexer

variable {st : State} {c : UInt8} {rest : Bytes} {l : Lexeme}

/-- A lexeme is written as a mark of arithmetic. -/
def IsSourceMark (k : Kind) (text : Bytes) : Prop :=
  (k ∈ numericKinds ∧ k ≠ .literal) ∧ ∃ symbol ∈ sourceMarks, text = symbol.spelling

instance (k : Kind) (text : Bytes) : Decidable (IsSourceMark k text) :=
  inferInstanceAs (Decidable (_ ∧ _))

theorem isSourceMark_of_bracket : ∀ c : UInt8, ∀ p ∈ bracket? c, p.1 ∈ numericKinds →
    IsSourceMark p.1 [c] :=
  forall_byte (by decide +kernel)

theorem isSourceMark_of_operator (st : State) (c : UInt8) :
    ∀ k ∈ operator? st c, IsSourceMark k [c] := by
  have hall : ∀ afterValue, ∀ c : UInt8, ∀ k ∈ operator? { afterValue } c, IsSourceMark k [c] := by
    intro afterValue
    cases afterValue <;> exact forall_byte (by decide +kernel)
  exact hall st.afterValue c

theorem IsSourceMark.exists_stands {k : Kind} {text : Bytes} (h : IsSourceMark k text) :
    ∃ symbol, Stands (plain k text) symbol ∧ symbol.isMark = true := by
  obtain ⟨⟨hk, hne⟩, symbol, hs, rfl⟩ := h
  exact ⟨symbol, .mark hk hne rfl rfl hs, isMark_of_mem_sourceMarks symbol hs⟩

/-- A step at arithmetic finds a symbol; a number ends where its word ends. -/
theorem ValueStep.exists_stands {s : Step} (h : ValueStep st c rest s) (hl : s.emitted = [l])
    (hk : l.kind ∈ numericKinds) (hc : c ≠ byte '\'') : ∃ symbol, Stands l symbol ∧
      (symbol.isMark = false → ∀ d, s.rest.head? = some d → isWordByte d = false) := by
  have hmark {k : Kind} {text r : Bytes} (h : IsSourceMark k text) :
      ∃ symbol, Stands (plain k text) symbol ∧
        (symbol.isMark = false → ∀ d, r.head? = some d → isWordByte d = false) := by
    obtain ⟨symbol, hstands, hm⟩ := h.exists_stands
    exact ⟨symbol, hstands, fun hn => absurd (hm.symm.trans hn) (by decide)⟩
  have hword : ∀ k ∈ [Kind.register, .stackAccess, .pickStart, .labelUse], k ∉ numericKinds := by
    decide
  cases h with
  | bracket h =>
    obtain rfl := List.singleton_inj.1 hl
    exact hmark (isSourceMark_of_bracket c _ h hk)
  | operator h =>
    obtain rfl := List.singleton_inj.1 hl
    exact hmark (isSourceMark_of_operator st c _ h)
  | number hdigit h =>
    obtain rfl := List.singleton_inj.1 hl
    have hword : ∀ d ∈ c :: rest.takeWhile isWordByte, isWordByte d = true := by
      refine List.forall_mem_cons.2 ⟨?_, List.all_eq_true.1 List.all_takeWhile⟩
      rw [isWordByte, hdigit, Bool.or_true, Bool.true_or]
    obtain ⟨n, rfl, hw, hn⟩ := exists_literal_of_read hword h
    exact ⟨.int n, .literal rfl rfl hw hn, fun _ => head?_dropWhile isWordByte rest⟩
  | character hquote _ => exact absurd hquote hc
  | word _ _ =>
    obtain rfl := List.singleton_inj.1 hl
    exact absurd hk (hword _ (wordLexeme_spec _).2)
  | shift hshift _ =>
    obtain rfl := List.singleton_inj.1 hl
    refine hmark ?_
    rcases hshift with rfl | rfl <;> decide
  | badNumber | string _ | openString | other =>
    obtain rfl := List.singleton_inj.1 hl
    exact absurd hk (by simp [plain, numericKinds])

theorem valueStep_state (st : State) (c : UInt8) (rest : Bytes) :
    (valueStep st c rest).state.stage = st.stage ∧
      (valueStep st c rest).state.inValue = st.inValue ∧
      (valueStep st c rest).state.trailing = st.trailing := by
  have h := valueStep_spec st c rest
  generalize valueStep st c rest = s at h
  cases h <;> exact ⟨rfl, rfl, rfl⟩

theorem stepAt_blank (hc : isBlank c = true) : stepAt st c rest =
    ⟨[plain .whitespace (c :: rest.takeWhile isBlank)], st, rest.dropWhile isBlank⟩ := by
  rw [stepAt, if_pos hc]

theorem stepAt_semicolon (st : State) (rest : Bytes) : stepAt st (byte ';') rest =
    ⟨(closeValue st).1 ++ [plain .comment (byte ';' :: rest)], (closeValue st).2, []⟩ := by
  rw [stepAt, if_neg (by decide), if_pos rfl]

theorem stepAt_data (hstage : st.stage = .data) (hc : isBlank c = false) (hsemi : c ≠ byte ';')
    (rest : Bytes) : stepAt st c rest = operandStep st c rest := by
  rw [stepAt, if_neg (by simp [hc]), if_neg hsemi, if_neg (by simp [hstage])]

/-! ## The values of a run -/

/-- The data values of lexemes, from a position of the line on. -/
def placedRuns (mode : Mode) (n : Nat) (current : Option (List Token)) (ls : List Lexeme) :
    Option (List (List Token)) :=
  dataRuns current (significantTokens (place mode n ls))

section PlacedRuns

variable {mode : Mode} {n : Nat} {current : Option (List Token)} {ls : List Lexeme}

theorem placedRuns_skip (hk : l.kind.significant = false) :
    placedRuns mode n current (l :: ls) = placedRuns mode (n + l.text.length) current ls := by
  simp [placedRuns, place, significantTokens, hk]

theorem placedRuns_start (hk : l.kind = .dataStart) :
    placedRuns mode n current (l :: ls) = placedRuns mode (n + l.text.length) (some []) ls := by
  simp [placedRuns, place, significantTokens, hk, Kind.significant, dataRuns]

theorem placedRuns_end {run : List Token} (hk : l.kind = .dataEnd) (hne : run ≠ []) :
    placedRuns mode n (some run) (l :: ls) =
      (placedRuns mode (n + l.text.length) none ls).map (run :: ·) := by
  cases run with
  | nil => exact absurd rfl hne
  | cons t run => simp [placedRuns, place, significantTokens, hk, Kind.significant, dataRuns]

theorem placedRuns_end_empty (hk : l.kind = .dataEnd) :
    placedRuns mode n (some []) (l :: ls) = none := by
  simp [placedRuns, place, significantTokens, hk, Kind.significant, dataRuns]

theorem placedRuns_inner (hk : l.kind.significant = true) (hstart : l.kind ≠ .dataStart)
    (hend : l.kind ≠ .dataEnd) : placedRuns mode n current (l :: ls) =
      placedRuns mode (n + l.text.length) (current.map (· ++ [⟨l, n, mode, []⟩])) ls := by
  simp only [placedRuns, place, significantTokens, List.filter_cons, hk, if_true]
  rw [dataRuns.eq_def]
  simp only

theorem placedRuns_parts (mode : Mode) (n : Nat) (front : List Token) {ms : List Lexeme}
    (hms : ∀ l ∈ ms, l.kind.isPart = true) (ls : List Lexeme) : ∃ n',
      placedRuns mode n (some front) (ms ++ ls) =
        placedRuns mode n' (some (front ++ place mode n ms)) ls := by
  induction ms generalizing n front with
  | nil => exact ⟨n, by rw [place, List.append_nil, List.nil_append]⟩
  | cons l ms ih =>
    obtain ⟨hl, hms⟩ := List.forall_mem_cons.1 hms
    obtain ⟨n', h⟩ := ih (n + l.text.length) (front ++ [⟨l, n, mode, []⟩]) hms
    refine ⟨n', ?_⟩
    rw [List.cons_append, placedRuns_inner (Kind.significant_of_isPart hl)
      (Kind.ne_of_class hl rfl) (Kind.ne_of_class hl rfl), Option.map_some, h, place,
      List.append_assoc, List.singleton_append]

/-- What comes before the end of an open value belongs to it. -/
theorem eq_of_placedRuns_end {front ts : List Token} {ms : List Lexeme}
    (hms : ∀ l ∈ ms, l.kind.isPart = true)
    (h : placedRuns mode n (some front) (ms ++ mark .dataEnd :: ls) = some [ts]) :
    ts = front ++ place mode n ms ∧ ∃ n', placedRuns mode n' none ls = some [] := by
  obtain ⟨n', hparts⟩ := placedRuns_parts mode n front hms (mark .dataEnd :: ls)
  rw [hparts] at h
  by_cases hne : front ++ place mode n ms = []
  · rw [hne, placedRuns_end_empty rfl] at h
    cases h
  · rw [placedRuns_end rfl hne, Option.map_eq_some_iff] at h
    obtain ⟨runs, hruns, heq⟩ := h
    obtain ⟨rfl, rfl⟩ := List.cons.inj heq
    exact ⟨rfl, _, hruns⟩

/-- An end of a value ends a value. -/
theorem placedRuns_ne_nil (h : ∃ l ∈ ls, l.kind = .dataEnd) :
    placedRuns mode n current ls ≠ some [] := by
  induction ls generalizing n current with
  | nil => simp at h
  | cons l ls ih =>
    by_cases hend : l.kind = .dataEnd
    · cases current with
      | none => simp [placedRuns, place, significantTokens, hend, Kind.significant, dataRuns]
      | some run =>
        by_cases hne : run = []
        · simp [hne, placedRuns_end_empty hend]
        · simp [placedRuns_end hend hne]
    · have hrest : ∃ l ∈ ls, l.kind = .dataEnd := by
        obtain ⟨m, hm, hk⟩ := h
        rcases List.mem_cons.1 hm with rfl | hm
        · exact absurd hk hend
        · exact ⟨m, hm, hk⟩
      by_cases hstart : l.kind = .dataStart
      · rw [placedRuns_start hstart]
        exact ih hrest
      · by_cases hk : l.kind.significant = true
        · rw [placedRuns_inner hk hstart hend]
          exact ih hrest
        · rw [placedRuns_skip (Bool.not_eq_true _ ▸ hk)]
          exact ih hrest

end PlacedRuns

/-- A value that is open is ended at the latest with the line. -/
theorem exists_dataEnd_of_run (hstage : st.stage = .data)
    (hopen : (st.trailing || st.inValue) = true) (u : Bytes) :
    ∃ l ∈ run st u, l.kind = .dataEnd := by
  fun_induction run st u with
  | case1 st => exact ⟨mark .dataEnd, by simp [closeValue, hopen], rfl⟩
  | case2 st c rest ih =>
    suffices hstep : (∃ l ∈ (stepAt st c rest).emitted, l.kind = .dataEnd) ∨
        (stepAt st c rest).state.stage = .data ∧
          ((stepAt st c rest).state.trailing || (stepAt st c rest).state.inValue) = true by
      rcases hstep with ⟨l, hl, hk⟩ | ⟨hstage, hopen⟩
      · exact ⟨l, List.mem_append_left _ hl, hk⟩
      · obtain ⟨l, hl, hk⟩ := ih hstage hopen
        exact ⟨l, List.mem_append_right _ hl, hk⟩
    by_cases hblank : isBlank c = true
    · rw [stepAt_blank hblank]
      exact Or.inr ⟨hstage, hopen⟩
    · by_cases hsemi : c = byte ';'
      · left
        rw [stepAt, if_neg hblank, if_pos hsemi]
        exact ⟨mark .dataEnd, by simp [closeValue, hopen], rfl⟩
      · rw [stepAt_data hstage (Bool.not_eq_true _ ▸ hblank) hsemi, operandStep]
        split
        · by_cases hdepth : st.depth = 0
          · exact Or.inl ⟨mark .dataEnd, by simp [commaStep, hstage, hdepth], rfl⟩
          · right
            simpa [commaStep, hstage, hdepth] using hopen
        · right
          split
          · obtain ⟨hs, hi, -⟩ :=
              valueStep_state { st with inValue := true, trailing := false } c rest
            exact ⟨hs.trans hstage, by simp [hi]⟩
          · obtain ⟨hs, hi, ht⟩ := valueStep_state st c rest
            exact ⟨hs.trans hstage, by rw [hi, ht, hopen]⟩

/-! ## Open values -/

/-- A text without the bytes that mean one thing in a line and another in arithmetic. -/
structure Bare (u : Bytes) : Prop where
  blank : ∀ c ∈ u, isBlank c = true → c = byte ' ' ∨ c = byte '\t'
  quote : byte '\'' ∉ u
  comment : byte ';' ∉ u

theorem Bare.suffix {u v : Bytes} (h : Bare (u ++ v)) : Bare v :=
  ⟨fun c hc => h.blank c (List.mem_append_right u hc),
    fun hc => h.quote (List.mem_append_right u hc),
    fun hc => h.comment (List.mem_append_right u hc)⟩

theorem Bare.step_rest (h : Bare (c :: rest)) (st : State) : Bare (step st c rest).rest := by
  rw [← step_text st c rest] at h
  exact h.suffix

theorem Bare.isGap_takeWhile {u : Bytes} (h : Bare u) : IsGap (u.takeWhile isBlank) := fun c hc =>
  h.blank c (List.takeWhile_subset isBlank hc) (List.all_eq_true.1 List.all_takeWhile c hc)

theorem Bare.parted_of_blank {syms : List Symbol} (h : Bare (c :: rest)) (hc : isBlank c = true)
    (hp : Parted syms (rest.dropWhile isBlank)) : Parted syms (c :: rest) := by
  have hgap := h.isGap_takeWhile
  have hsplit : (c :: rest).takeWhile isBlank ++ rest.dropWhile isBlank = c :: rest := by
    simp [hc]
  rw [← hsplit]
  exact hp.gap_append hgap

theorem parted_of_stands {symbol : Symbol} {syms : List Symbol} {u : Bytes} (h : Stands l symbol)
    (hnext : symbol.isMark = false → ∀ d, u.head? = some d → isWordByte d = false)
    (hp : Parted syms u) : Parted (symbol :: syms) (l.text ++ u) := by
  cases h with
  | literal _ _ hw _ => exact .int (g := []) isGap_nil hw (hnext rfl) hp
  | mark _ _ _ ht hs =>
    rw [ht]
    exact .mark (g := []) isGap_nil hs hp

section Open

variable {mode : Mode} {n : Nat} {front ts : List Token}

/-- At the end of the line an open value of arithmetic has no more tokens. -/
theorem eq_of_closeValue (hts : ∀ t ∈ ts, t.kind ∈ numericKinds) (hopen : st.inValue = true)
    (h : placedRuns mode n (some front) ((closeValue st).1 ++ [mark .eof]) = some [ts]) :
    ts = front := by
  have hpick : ∀ l ∈ (if st.pick.isSome then [mark .pickEnd] else []), l.kind.isPart = true :=
    forall_mem_ite (by rfl) _
  by_cases htrailing : st.trailing = true
  · have hclose : (closeValue st).1 ++ [mark .eof] =
        (if st.pick.isSome = true then [mark .pickEnd] else []) ++
          [mark .dataStart, mark .dataEnd, mark .eof] := by
      simp [closeValue, hopen, htrailing]
    obtain ⟨n', hparts⟩ := placedRuns_parts mode n front hpick
      [mark .dataStart, mark .dataEnd, mark .eof]
    rw [hclose, hparts, placedRuns_start rfl, placedRuns_end_empty rfl] at h
    cases h
  · have hclose : (closeValue st).1 ++ [mark .eof] =
        (if st.pick.isSome = true then [mark .pickEnd] else []) ++ [mark .dataEnd, mark .eof] := by
      simp [closeValue, hopen, htrailing]
    rw [hclose] at h
    obtain ⟨heq, -⟩ := eq_of_placedRuns_end hpick h
    by_cases hp : st.pick.isSome = true
    · rw [if_pos hp] at heq
      have hmem : (⟨mark .pickEnd, n, mode, []⟩ : Token) ∈ ts := by simp [heq, place]
      exact absurd (hts _ hmem) (by simp [mark, numericKinds])
    · rw [if_neg hp, place, List.append_nil] at heq
      exact heq

/-- A comma outside brackets ends a value, and another one ends later. -/
theorem placedRuns_comma_ne (hstage : st.stage = .data) (hopen : st.inValue = true)
    (hdepth : st.depth = 0) (rest : Bytes) :
    placedRuns mode n (some front) (run st (byte ',' :: rest)) ≠ some [ts] := by
  intro h
  have hstep : stepAt st (byte ',') rest = commaStep st rest := by
    rw [stepAt_data hstage rfl (by decide), operandStep, if_pos rfl]
  have hemitted : (step st (byte ',') rest).emitted =
      (if st.pick = some st.depth then [mark .pickEnd] else []) ++
        [mark .dataEnd, plain .separator [byte ',']] := by
    show (stepAt st (byte ',') rest).emitted = _
    rw [hstep]
    simp [commaStep, hstage, hopen, hdepth]
  have hnext : (step st (byte ',') rest).state.stage = .data ∧
      (step st (byte ',') rest).state.trailing = true := by
    show (stepAt st (byte ',') rest).state.stage = _ ∧
      (stepAt st (byte ',') rest).state.trailing = _
    rw [hstep]
    simp [commaStep, hstage, hdepth]
  rw [run_cons, hemitted, List.append_assoc] at h
  obtain ⟨-, n', hnil⟩ := eq_of_placedRuns_end (forall_mem_ite (by rfl) _) h
  obtain ⟨l, hl, hk⟩ := exists_dataEnd_of_run hnext.1 (by rw [hnext.2, Bool.true_or])
    (step st (byte ',') rest).rest
  exact placedRuns_ne_nil ⟨l, List.mem_append_right _ hl, hk⟩ hnil

/-- Any other step leaves the value open, and its lexemes are part of it. -/
theorem step_open (hstage : st.stage = .data) (hopen : st.inValue = true)
    (hblank : isBlank c = false) (hsemi : c ≠ byte ';') (hcomma : c = byte ',' → st.depth ≠ 0)
    (rest : Bytes) : (∀ l ∈ (step st c rest).emitted, l.kind.isPart = true) ∧
      (step st c rest).state.stage = .data ∧ (step st c rest).state.inValue = true := by
  show (∀ l ∈ (stepAt st c rest).emitted, l.kind.isPart = true) ∧
    (stepAt st c rest).state.stage = .data ∧ (stepAt st c rest).state.inValue = true
  rw [stepAt_data hstage hblank hsemi, operandStep]
  split
  · rename_i hc
    refine ⟨?_, hstage, by simp [commaStep, hopen, hcomma hc]⟩
    simp only [commaStep, hcomma hc, and_false, decide_false, Bool.false_eq_true, if_false,
      List.append_nil]
    exact List.forall_mem_append.2 ⟨forall_mem_ite (by rfl) _, List.forall_mem_singleton.2 rfl⟩
  · rw [if_neg (by simp [hopen])]
    obtain ⟨l, hl, hk⟩ := exists_single_valueStep st c rest
    obtain ⟨hs, hi, -⟩ := valueStep_state st c rest
    refine ⟨?_, hs.trans hstage, hi.trans hopen⟩
    rw [hl.emitted_eq]
    exact List.forall_mem_singleton.2 hk

/-- If its lexemes are arithmetic, such a step finds a symbol. -/
theorem exists_stands_of_step (hstage : st.stage = .data) (hopen : st.inValue = true)
    (hblank : isBlank c = false) (hsemi : c ≠ byte ';') (hquote : c ≠ byte '\'')
    (hk : ∀ l ∈ (step st c rest).emitted, l.kind ∈ numericKinds) :
    ∃ l symbol, (step st c rest).emitted = [l] ∧ Stands l symbol ∧ (symbol.isMark = false →
      ∀ d, (step st c rest).rest.head? = some d → isWordByte d = false) := by
  have hstep := stepAt_data hstage hblank hsemi rest
  have hemitted : (step st c rest).emitted = (stepAt st c rest).emitted := rfl
  have hrest : (step st c rest).rest = (stepAt st c rest).rest := rfl
  rw [hemitted] at hk
  rw [hemitted, hrest]
  rw [hstep, operandStep] at hk ⊢
  split at hk
  · have hseparator := hk (plain .separator [byte ',']) (by simp [commaStep])
    exact absurd hseparator (by decide)
  · rename_i hcomma
    rw [if_neg (by simp [hopen])] at hk
    rw [if_neg hcomma, if_neg (by simp [hopen])]
    obtain ⟨l, hl, -⟩ := exists_single_valueStep st c rest
    obtain ⟨symbol, hsymbol, hnext⟩ :=
      (valueStep_spec st c rest).exists_stands hl.emitted_eq (hk l (by simp [hl.emitted_eq])) hquote
    exact ⟨l, symbol, hl.emitted_eq, hsymbol, hnext⟩

/-- The text of an open value is cut into the symbols of its tokens. -/
theorem parted_of_open {u : Bytes} (hts : ∀ t ∈ ts, t.kind ∈ numericKinds) (hu : Bare u)
    (hstage : st.stage = .data) (hopen : st.inValue = true)
    (h : placedRuns mode n (some front) (run st u) = some [ts]) :
    ∃ back syms, ts = front ++ back ∧ StandFor back syms ∧ Parted syms u := by
  fun_induction run st u generalizing n front with
  | case1 st =>
    obtain rfl := eq_of_closeValue hts hopen h
    exact ⟨[], [], (List.append_nil ts).symm, .nil, .nil isGap_nil⟩
  | case2 st c rest ih =>
    have hbare := hu.step_rest st
    by_cases hblank : isBlank c = true
    · have hstep : (step st c rest).emitted = [plain .whitespace (c :: rest.takeWhile isBlank)] ∧
          (step st c rest).rest = rest.dropWhile isBlank ∧
          (step st c rest).state.stage = st.stage ∧
          (step st c rest).state.inValue = st.inValue := by
        unfold step
        simp [stepAt_blank hblank]
      obtain ⟨hemitted, hrest, hs, hi⟩ := hstep
      rw [hemitted, List.singleton_append, placedRuns_skip rfl] at h
      obtain ⟨back, syms, rfl, hstands, hparted⟩ := ih hbare (hs.trans hstage) (hi.trans hopen) h
      rw [hrest] at hparted
      exact ⟨back, syms, rfl, hstands, hu.parted_of_blank hblank hparted⟩
    rw [Bool.not_eq_true] at hblank
    have hsemi : c ≠ byte ';' := fun hc => hu.comment (hc ▸ List.mem_cons_self)
    have hquote : c ≠ byte '\'' := fun hc => hu.quote (hc ▸ List.mem_cons_self)
    have hcomma : c = byte ',' → st.depth ≠ 0 := by
      rintro rfl hdepth
      rw [← run_cons] at h
      exact placedRuns_comma_ne hstage hopen hdepth rest h
    obtain ⟨hparts, hs, hi⟩ := step_open hstage hopen hblank hsemi hcomma rest
    obtain ⟨n', hplaced⟩ := placedRuns_parts mode n front hparts
      (run (step st c rest).state (step st c rest).rest)
    rw [hplaced] at h
    obtain ⟨back, syms, rfl, hstands, hparted⟩ := ih hbare hs hi h
    have hk : ∀ l ∈ (step st c rest).emitted, l.kind ∈ numericKinds := by
      intro l hl
      rw [← map_toLexeme_place mode n (step st c rest).emitted] at hl
      obtain ⟨t, ht, rfl⟩ := List.mem_map.1 hl
      exact hts t (by simp [ht])
    obtain ⟨l, symbol, hemitted, hsymbol, hnext⟩ :=
      exists_stands_of_step hstage hopen hblank hsemi hquote hk
    have htext := step_text st c rest
    rw [Step.text, hemitted, List.flatMap_singleton] at htext
    rw [← htext, hemitted]
    exact ⟨_, symbol :: syms, List.append_assoc _ _ _, .cons hsymbol hstands,
      parted_of_stands hsymbol hnext hparted⟩

/-- The first byte of a value opens it. -/
theorem run_first (hstage : st.stage = .data) (hclosed : st.inValue = false)
    (hblank : isBlank c = false) (hsemi : c ≠ byte ';') (hcomma : c ≠ byte ',') (rest : Bytes) :
    run st (c :: rest) =
      mark .dataStart :: run { st with inValue := true, trailing := false } (c :: rest) := by
  have hvalue : stepAt { st with inValue := true, trailing := false } c rest =
      valueStep { st with inValue := true, trailing := false } c rest := by
    refine (stepAt_data ?_ hblank hsemi rest).trans ?_
    · exact hstage
    · rw [operandStep, if_neg hcomma, if_neg (by simp)]
  have hfirst : stepAt st c rest =
      { valueStep { st with inValue := true, trailing := false } c rest with
        emitted := mark .dataStart ::
          (valueStep { st with inValue := true, trailing := false } c rest).emitted } := by
    rw [stepAt_data hstage hblank hsemi, operandStep, if_neg hcomma,
      if_pos ⟨hstage, by simp [hclosed]⟩]
  rw [run_cons, run_cons, step, hfirst, step, hvalue]
  rfl

/-- A text that is one data value of arithmetic is cut into the symbols of its tokens. -/
theorem parted_of_first {u : Bytes} (hts : ∀ t ∈ ts, t.kind ∈ numericKinds) (hu : Bare u)
    (hhead : ∀ c, u.head? = some c → isBlank c = false)
    (h : placedRuns mode n none (run { stage := .data } u) = some [ts]) :
    ∃ syms, StandFor ts syms ∧ Parted syms u := by
  cases u with
  | nil =>
    rw [run] at h
    cases h
  | cons c rest =>
    have hsemi : c ≠ byte ';' := fun hc => hu.comment (hc ▸ List.mem_cons_self)
    by_cases hcomma : c = byte ','
    · subst hcomma
      have hemitted : (step { stage := .data } (byte ',') rest).emitted =
          [mark .dataStart, mark .dataEnd, plain .separator [byte ',']] := rfl
      rw [run_cons, hemitted, List.cons_append, placedRuns_start rfl, List.cons_append,
        placedRuns_end_empty rfl] at h
      cases h
    · rw [run_first rfl rfl (hhead c rfl) hsemi hcomma, placedRuns_start rfl] at h
      obtain ⟨back, syms, rfl, hstands, hparted⟩ := parted_of_open hts hu rfl rfl h
      exact ⟨syms, hstands, hparted⟩

end Open

end Lexer

open Lexer

/-- The text of a data value of arithmetic is cut into the symbols of its tokens. -/
theorem exists_parted_of_dataRuns {mode : Mode} {u : Bytes} {ts : List Token} (hu : Bare u)
    (h : dataRuns none (significantTokens (lex mode ("DAT " ++ u))) = some [ts])
    (hts : ∀ t ∈ ts, t.kind ∈ numericKinds) : ∃ syms, StandFor ts syms ∧ Parted syms u := by
  have hrun : lexemes ("DAT " ++ u) =
      plain .directive "DAT" :: plain .whitespace (byte ' ' :: u.takeWhile isBlank) ::
        run { stage := .data } (u.dropWhile isBlank) := by
    have hline : run {} ("DAT " ++ u) =
        plain .directive "DAT" :: run { stage := .data } (byte ' ' :: u) := by
      show run {} (byte 'D' :: byte 'A' :: byte 'T' :: byte ' ' :: u) = _
      rw [run_cons]
      rfl
    rw [lexemes, hline, run_cons]
    rfl
  have hbare : Bare (u.dropWhile isBlank) := by
    rw [← List.takeWhile_append_dropWhile (p := isBlank) (l := u)] at hu
    exact hu.suffix
  have hplaced : placedRuns mode 0 none (lexemes ("DAT " ++ u)) = some [ts] := h
  rw [hrun, placedRuns_inner rfl Kind.noConfusion Kind.noConfusion, placedRuns_skip rfl]
    at hplaced
  obtain ⟨syms, hstands, hparted⟩ :=
    parted_of_first hts hbare (head?_dropWhile isBlank u) hplaced
  refine ⟨syms, hstands, ?_⟩
  rw [← List.takeWhile_append_dropWhile (p := isBlank) (l := u)]
  exact hparted.gap_append hu.isGap_takeWhile

/-- The arithmetic of directives and that of data values agree. Let a text have no white space but
spaces and tabs, no two slashes side by side, no single quote and no semicolon, and let it be one
data value with no tokens but those of arithmetic without labels. Then the value of the tokens is
the value of the text. -/
theorem evaluateTokens_eq_ok_iff_evaluate (mode : Mode) {text : Bytes} {ts : List Token} (n : Int)
    (hblank : ∀ c ∈ text, isBlank c = true → c = byte ' ' ∨ c = byte '\t')
    (hslash : ¬[byte '/', byte '/'] <:+: text) (hquote : byte '\'' ∉ text)
    (hcomment : byte ';' ∉ text)
    (hvalue : dataRuns none (significantTokens (lex mode ("DAT " ++ text))) = some [ts])
    (hkinds : ∀ t ∈ ts, t.kind ∈ numericKinds) :
    evaluateTokens ts = .ok n ↔ Arith.evaluate text = .ok n := by
  have hapart : SlashesApart text := by
    refine List.isChain_iff_forall_rel_of_append_cons_cons.2 ?_
    rintro a b front back rfl ⟨rfl, rfl⟩
    exact hslash ⟨front, back, by simp⟩
  obtain ⟨syms, hstands, hparted⟩ :=
    exists_parted_of_dataRuns ⟨hblank, hquote, hcomment⟩ hvalue hkinds
  rw [hstands.evaluateTokens_eq_ok, hparted.evaluate_eq_ok hapart]

/-- An expression with signs, parentheses, a shift and literals in three bases. -/
def sampleArithmetic : Bytes := "-(2 + 0x10)*~03\t<<1 %5|+7 / 0b10"

theorem sample_evaluateTokens_iff : ∃ ts : List Token, ts.length = 18 ∧
    dataRuns none (significantTokens (lex .initial ("DAT " ++ sampleArithmetic))) = some [ts] ∧
    evaluateTokens ts = .ok 147 ∧ Arith.evaluate sampleArithmetic = .ok 147 := by
  have hlex : (dataRuns none (significantTokens (lex .initial ("DAT " ++ sampleArithmetic)))).any
      (fun runs => decide (runs.length = 1 ∧ ∀ ts ∈ runs, ts.length = 18 ∧
        ∀ t ∈ ts, t.kind ∈ numericKinds)) = true := by decide +kernel
  obtain ⟨runs, hruns, hp⟩ := (Option.any_eq_true _ _).1 hlex
  obtain ⟨hone, hall⟩ := of_decide_eq_true hp
  obtain ⟨ts, rfl⟩ := List.length_eq_one_iff.1 hone
  obtain ⟨hlength, hkinds⟩ := List.forall_mem_singleton.1 hall
  obtain ⟨n, hn, hv⟩ : ∃ n, Arith.evaluate sampleArithmetic = .ok n ∧ decide (n = 147) = true :=
    exists_ok (by decide +kernel)
  rw [of_decide_eq_true hv] at hn
  have hiff := evaluateTokens_eq_ok_iff_evaluate .initial 147 (by decide +kernel)
    (by decide +kernel) (by decide +kernel) (by decide +kernel) hruns hkinds
  exact ⟨ts, hlength, hruns, hiff.2 hn, hn⟩

end Asm16
