import Asm16.Proofs.LabelDefinitions
import Asm16.Proofs.LineShapes

/-!
# Arithmetic inside a line

An arithmetic text, lexed where an operand may stand, gives literals, label uses, operators and
parentheses, in the order of an expression (`Lexer.IsArithmetic`). It is cut into the same lexemes
at any depth of brackets, behind `PICK` or not, and whatever follows it, as long as no word or
numeral is made longer (`Lexer.IsArithmetic.exists_cutsInto`). The induction is along the run of the
lexer over the text : a step that finds arithmetic finds the same with more text behind
(`Lexer.matches_valueStep`).
-/

namespace Asm16

theorem Kind.significant_of_isArithmetic {k : Kind} (h : k.isArithmetic = true) :
    k.significant = true := by
  revert h
  cases k <;> simp [isArithmetic, significant]

/-! ## Characters -/

theorem Utf8.char?_append {s : Bytes} {ch : Char} {n : Nat} (h : char? s = some (ch, n))
    (tail : Bytes) : char? (s ++ tail) = some (ch, n) ∧ n ≤ s.length := by
  match s with
  | [] => cases h
  | a :: rest =>
    rw [List.cons_append]
    unfold char? at h ⊢
    simp only at h ⊢
    split_ifs at h ⊢ with h₁ h₂ h₃ h₄
    · obtain ⟨rfl, rfl⟩ := Prod.mk.inj (Option.some.inj h)
      exact ⟨rfl, by simp⟩
    · match rest with
      | b :: more =>
        refine ⟨h, ?_⟩
        simp only [Option.bind_eq_bind, Option.bind_eq_some_iff, Option.some.injEq,
          Prod.mk.injEq] at h
        obtain ⟨_, -, _, -, -, rfl⟩ := h
        simp
    · match rest with
      | b :: c :: more =>
        refine ⟨h, ?_⟩
        simp only [Option.bind_eq_bind, Option.bind_eq_some_iff, Option.some.injEq,
          Prod.mk.injEq] at h
        obtain ⟨_, -, _, -, _, -, -, rfl⟩ := h
        simp
    · match rest with
      | b :: c :: d :: more =>
        refine ⟨h, ?_⟩
        simp only [Option.bind_eq_bind, Option.bind_eq_some_iff, Option.some.injEq,
          Prod.mk.injEq] at h
        obtain ⟨_, -, _, -, _, -, _, -, -, rfl⟩ := h
        simp

/-- A character that is there in full is the same with more text behind. -/
theorem Utf8.next_append {c : UInt8} {rest : Bytes} {p : Char × Nat}
    (h : char? (c :: rest) = some p) (tail : Bytes) :
    next c (rest ++ tail) = ((next c rest).1, (next c rest).2 ++ tail) := by
  obtain ⟨happend, hlen⟩ := char?_append h tail
  rw [List.cons_append] at happend
  unfold next
  rw [h, happend]
  simp only [Prod.mk.injEq, true_and]
  exact List.drop_append_of_le_length (by simp at hlen; omega)

namespace Lexer

theorem quotedChar?_of_ne {c : UInt8} (h : c ≠ byte '\\') (rest : Bytes) : quotedChar? (c :: rest) =
    if (Utf8.next c rest).1 = '\'' ∨ (Utf8.next c rest).1 = Utf8.replacement then none
    else some (Utf8.next c rest) :=
  if_neg h

theorem quotedChar?_append {body after : Bytes} {ch : Char}
    (h : quotedChar? body = some (ch, after)) (tail : Bytes) :
    quotedChar? (body ++ tail) = some (ch, after ++ tail) := by
  match body with
  | [] => cases h
  | c :: rest =>
    rw [List.cons_append]
    by_cases hc : c = byte '\\'
    · subst hc
      match rest with
      | [] => cases h
      | d :: more =>
        obtain ⟨e, he, hpair⟩ := Option.map_eq_some_iff.1 h
        obtain ⟨rfl, rfl⟩ := Prod.mk.inj hpair
        exact Option.map_eq_some_iff.2 ⟨e, he, rfl⟩
    · rw [quotedChar?_of_ne hc] at h ⊢
      -- a character that is no replacement is there in full
      have hnext : Utf8.next c (rest ++ tail) =
          ((Utf8.next c rest).1, (Utf8.next c rest).2 ++ tail) := by
        cases hchar : Utf8.char? (c :: rest) with
        | none =>
          rw [Utf8.next, hchar] at h
          simp at h
        | some p => exact Utf8.next_append hchar tail
      rw [hnext]
      split at h
      · cases h
      · rename_i hplain
        rw [if_neg hplain, Option.some.inj h]

theorem character?_append {body after : Bytes} {ch : Char}
    (h : character? body = some (ch, after)) (tail : Bytes) :
    character? (body ++ tail) = some (ch, after ++ tail) := by
  unfold character? at h ⊢
  split at h
  · rename_i ch' c more hq
    rw [quotedChar?_append hq]
    simp only [List.cons_append]
    split at h
    · rename_i hc
      obtain ⟨rfl, rfl⟩ := Prod.mk.inj (Option.some.inj h)
      rw [if_pos hc]
    · cases h
  · cases h

variable {st : State} {c : UInt8} {rest tail : Bytes}

/-! ## What carries meaning -/

/-- The lexemes of what is left of a line, but for those without meaning. -/
def sense (st : State) (s : Bytes) : List Lexeme := (run st s).filter (·.kind.significant)

theorem sense_cons (st : State) (c : UInt8) (rest : Bytes) : sense st (c :: rest) =
    (step st c rest).emitted.filter (·.kind.significant) ++
      sense (step st c rest).state (step st c rest).rest := by
  rw [sense, run_cons, List.filter_append]
  rfl

theorem sense_dropWhile (st : State) (s : Bytes) : sense st (s.dropWhile isBlank) = sense st s := by
  cases s with
  | nil => rfl
  | cons c rest =>
    by_cases hc : isBlank c = true
    · rw [List.dropWhile_cons_of_pos hc, sense_cons, step_blank hc]
      rfl
    · rw [List.dropWhile_cons_of_neg hc]

theorem sense_blank (st : State) (hc : isBlank c = true) (s : Bytes) :
    sense st (c :: s) = sense st s := by
  rw [← sense_dropWhile st (c :: s), List.dropWhile_cons_of_pos hc, sense_dropWhile]

/-! ## Steps that find arithmetic -/

/-- The change of depth that a lexeme of arithmetic makes. -/
def turn : Kind → Int
  | .groupStart => 1
  | .groupEnd => -1
  | _ => 0

/-- A state behind a lexeme of arithmetic. -/
def State.turned (st : State) (l : Lexeme) : State := { st with depth := st.depth + turn l.kind }

theorem State.turned_of_eq_zero {l : Lexeme} (h : turn l.kind = 0) (st : State) :
    st.turned l = st := by
  rw [State.turned, h, Int.add_zero]

/-- A step in one state that finds one lexeme of arithmetic, and a step in another state that finds
the same with more text behind. -/
def Step.Matches (s : Step) (st : State) (tail : Bytes) (s' : Step) (st' : State) : Prop :=
  ∃ l after, s = ⟨[l], st.turned l, after⟩ ∧ s' = ⟨[l], st'.turned l, after ++ tail⟩

theorem Step.matches_of_eq_zero {l : Lexeme} (h : turn l.kind = 0) (st st' : State)
    (after tail : Bytes) :
    Step.Matches ⟨[l], st, after⟩ st tail ⟨[l], st', after ++ tail⟩ st' :=
  ⟨l, after, by rw [State.turned_of_eq_zero h], by rw [State.turned_of_eq_zero h]⟩

theorem Stops.append {s : Bytes} (hs : Stops s) (htail : Stops tail) : Stops (s ++ tail) := by
  cases s with
  | nil => exact htail
  | cons c s => exact hs

/-- A name is the same before more text that makes it no longer. -/
theorem identifier?_append_tail {s name after : Bytes} (h : identifier? s = some (name, after))
    (htail : Stops tail) : identifier? (s ++ tail) = some (name, after ++ tail) := by
  obtain ⟨-, -, -, -, hsplit, hstops⟩ := identifier?_eq_some_iff.1 h
  rw [hsplit, List.append_assoc]
  exact identifier?_append_of_stops h (hstops.append htail)

section Steps

variable {st' : State}

theorem matches_numberStep (htail : Stops tail)
    (h : ∀ l ∈ (numberStep st c rest).emitted, l.kind.isArithmetic = true) :
    (numberStep st c rest).Matches st tail (numberStep st' c (rest ++ tail)) st' := by
  simp only [numberStep] at h ⊢
  rw [takeWhile_append_of_stop htail, dropWhile_append_of_stop htail]
  cases hread : Numeral.read (c :: rest.takeWhile isWordByte) with
  | ok n => exact Step.matches_of_eq_zero rfl st st' _ tail
  | error e =>
    rw [hread] at h
    cases h _ List.mem_cons_self

theorem matches_characterStep
    (h : ∀ l ∈ (characterStep st c rest).emitted, l.kind.isArithmetic = true) :
    (characterStep st c rest).Matches st tail (characterStep st' c (rest ++ tail)) st' := by
  unfold characterStep at h ⊢
  cases hchar : character? rest with
  | none =>
    rw [hchar] at h
    cases h _ List.mem_cons_self
  | some p =>
    obtain ⟨ch, after⟩ := p
    rw [character?_append hchar tail]
    simp only [before_append_append (character?_rest_le hchar)]
    exact Step.matches_of_eq_zero rfl st st' after tail

theorem matches_wordStep (htail : Stops tail)
    (h : ∀ l ∈ (wordStep st c rest).emitted, l.kind.isArithmetic = true) :
    (wordStep st c rest).Matches st tail (wordStep st' c (rest ++ tail)) st' := by
  unfold wordStep at h ⊢
  cases hident : identifier? (c :: rest) with
  | none =>
    rw [hident] at h
    cases h _ List.mem_cons_self
  | some p =>
    obtain ⟨name, after⟩ := p
    rw [hident] at h
    have hkind : (wordLexeme name).kind = .labelUse := by
      have harith := h _ List.mem_cons_self
      have hmem := (wordLexeme_spec name).2
      revert harith hmem
      generalize (wordLexeme name).kind = k
      cases k <;> simp [Kind.isArithmetic]
    have happend : identifier? (c :: (rest ++ tail)) = some (name, after ++ tail) :=
      identifier?_append_tail hident htail
    have hpick : (wordLexeme name).kind ≠ .pickStart := by simp [hkind]
    simp only [happend, if_neg hpick]
    exact Step.matches_of_eq_zero (by rw [hkind]; rfl) st st' after tail

theorem matches_shiftStep
    (h : ∀ l ∈ (shiftStep st c rest).emitted, l.kind.isArithmetic = true) :
    (shiftStep st c rest).Matches st tail (shiftStep st' c (rest ++ tail)) st' := by
  unfold shiftStep at h ⊢
  cases rest with
  | nil => cases h _ List.mem_cons_self
  | cons d more =>
    by_cases hd : (d :: more).head? = some c
    · have hd' : (d :: more ++ tail).head? = some c := hd
      rw [if_pos hd, if_pos hd']
      exact Step.matches_of_eq_zero rfl st st' more tail
    · rw [if_neg hd] at h
      cases h _ List.mem_cons_self

/-- A step that finds arithmetic finds the same in another state, with more text behind. -/
theorem matches_valueStep (hv : st'.afterValue = st.afterValue) (htail : Stops tail)
    (h : ∀ l ∈ (valueStep st c rest).emitted, l.kind.isArithmetic = true) :
    (valueStep st c rest).Matches st tail (valueStep st' c (rest ++ tail)) st' := by
  have hop : operator? st' c = operator? st c := by rw [operator?, operator?, hv]
  unfold valueStep at h ⊢
  rw [hop]
  cases hb : bracket? c with
  | some p =>
    obtain ⟨k, d⟩ := p
    rw [hb] at h
    have hturn : turn k = d := by
      have harith : k.isArithmetic = true := h _ List.mem_cons_self
      unfold bracket? at hb
      grind [turn, Kind.isArithmetic]
    refine ⟨plain k [c], rest, ?_, ?_⟩ <;> rw [State.turned, ← hturn] <;> rfl
  | none =>
    cases ho : operator? st c with
    | some k =>
      have hturn : turn k = 0 := by
        have hmem := kind_of_operator? ho
        revert hmem
        cases k <;> simp [turn]
      exact Step.matches_of_eq_zero hturn st st' rest tail
    | none =>
      simp only [hb, ho] at h ⊢
      split_ifs at h ⊢
      · exact matches_numberStep htail h
      · exact matches_characterStep h
      · unfold stringStep at h
        split at h <;> cases h _ List.mem_cons_self
      · exact matches_wordStep htail h
      · exact matches_shiftStep h
      · cases h _ List.mem_cons_self

/-- Among operands a step that finds arithmetic leads on among operands, and it is the same at any
depth, behind `PICK` or not, and with more text behind. -/
theorem exists_step_among {d : Int} {v : Bool} (hblank : isBlank c = false) (htail : Stops tail)
    (h : ∀ l ∈ (step (among d none v) c rest).emitted,
      l.kind.isArithmetic = true ∨ l.kind = .whitespace) (d' : Int) (pick : Option Int) :
    ∃ l after, l.kind.isArithmetic = true ∧
      step (among d none v) c rest =
        ⟨[l], among (d + turn l.kind) none (endsValue v l.kind), after⟩ ∧
      step (among d' pick v) c (rest ++ tail) =
        ⟨[l], among (d' + turn l.kind) pick (endsValue v l.kind), after ++ tail⟩ := by
  have hsemi : c ≠ byte ';' := by
    rintro rfl
    have hmem : plain .comment (byte ';' :: rest) ∈
        (step (among d none v) (byte ';') rest).emitted := List.mem_cons_self
    simpa [plain, Kind.isArithmetic] using h _ hmem
  have hcomma : c ≠ byte ',' := by
    rintro rfl
    have hmem : plain .separator [byte ','] ∈ (step (among d none v) (byte ',') rest).emitted :=
      List.mem_cons_self
    simpa [plain, Kind.isArithmetic] using h _ hmem
  have hstep (d : Int) (pick : Option Int) (rest : Bytes) :
      stepAt (among d pick v) c rest = valueStep (among d pick v) c rest := by
    rw [stepAt, if_neg (by simp [hblank]), if_neg hsemi, if_neg (by simp [among]), operandStep,
      if_neg hcomma, if_neg (by simp [among])]
  have harith : ∀ l ∈ (valueStep (among d none v) c rest).emitted, l.kind.isArithmetic = true := by
    obtain ⟨l, hl, hpart⟩ := exists_single_valueStep (among d none v) c rest
    have hmem : l ∈ (step (among d none v) c rest).emitted := by
      rw [step, hstep, hl.emitted_eq]
      exact List.mem_cons_self
    rw [hl.emitted_eq, List.forall_mem_singleton]
    rcases h l hmem with harith | hspace
    · exact harith
    · rw [hspace] at hpart
      cases hpart
  have hv : (among d' pick v).afterValue = (among d none v).afterValue := rfl
  obtain ⟨l, after, hfirst, hsecond⟩ := matches_valueStep hv htail harith
  refine ⟨l, after, harith l (by rw [hfirst]; exact List.mem_cons_self), ?_, ?_⟩
  · rw [step, hstep, hfirst]
    rfl
  · rw [step, hstep, hsecond]
    rfl

end Steps

/-! ## Arithmetic texts -/

/-- The change of depth behind lexemes of arithmetic. -/
def turns (ls : List Lexeme) : Int := (ls.map fun l => turn l.kind).sum

theorem turns_cons (l : Lexeme) (ls : List Lexeme) : turns (l :: ls) = turn l.kind + turns ls := by
  rw [turns, List.map_cons, List.sum_cons, turns]

/-- Whether a value has ended behind lexemes. -/
def endsAfter (v : Bool) (ls : List Lexeme) : Bool := ls.foldl (fun v l => endsValue v l.kind) v

theorem sense_dropWhile_append (st : State) (s tail : Bytes) :
    sense st (s.dropWhile isBlank ++ tail) = sense st (s ++ tail) := by
  induction s with
  | nil => rfl
  | cons c s ih =>
    by_cases hc : isBlank c = true
    · rw [List.dropWhile_cons_of_pos hc, List.cons_append, sense_blank st hc, ih]
    · rw [List.dropWhile_cons_of_neg hc]

/-- Reading a text of arithmetic before another is reading it, and then the other from where it
ends. -/
theorem sense_append {d : Int} {v : Bool} {e : Bytes} {ls : List Lexeme}
    (h : run (among d none v) e = ls ++ [mark .eof])
    (hls : ∀ l ∈ ls, l.kind.isArithmetic = true ∨ l.kind = .whitespace) (htail : Stops tail)
    (d' : Int) (pick : Option Int) : sense (among d' pick v) (e ++ tail) =
      ls.filter (·.kind.significant) ++
        sense (among (d' + turns ls) pick (endsAfter v ls)) tail := by
  generalize hst : among d none v = st at h
  fun_induction run st e generalizing d v ls d' with
  | case1 st =>
    subst hst
    obtain rfl : [] = ls := List.append_cancel_right h
    rw [turns, List.map_nil, List.sum_nil, Int.add_zero]
    rfl
  | case2 st c rest ih =>
    subst hst
    obtain ⟨more, hmore, -⟩ := exists_run_eq (step (among d none v) c rest).state
      (step (among d none v) c rest).rest
    rw [hmore, ← List.append_assoc] at h
    obtain rfl := List.append_cancel_right h
    obtain ⟨hfound, hothers⟩ := List.forall_mem_append.1 hls
    by_cases hblank : isBlank c = true
    · -- white space may go on behind the text
      rw [step_blank hblank] at ih hmore ⊢
      rw [List.cons_append, sense_blank _ hblank, ← sense_dropWhile_append, ih hothers d' rfl hmore,
        List.singleton_append, turns_cons, show turn _ = 0 from rfl, Int.zero_add]
      rfl
    · obtain ⟨l, after, harith, hstep, hstep'⟩ :=
        exists_step_among (by simpa using hblank) htail hfound d' pick
      rw [hstep] at ih hmore ⊢
      rw [List.cons_append, sense_cons, hstep', ih hothers _ rfl hmore, ← List.append_assoc,
        ← List.filter_append, List.singleton_append, turns_cons, ← Int.add_assoc]
      rfl

/-- The kinds of lexemes in the order of an arithmetic expression. -/
inductive Expression : List Kind → Prop
  | literal : Expression [.literal]
  | label : Expression [.labelUse]
  | group {ks : List Kind} (h : Expression ks) : Expression (.groupStart :: ks ++ [.groupEnd])
  | unary {ks : List Kind} (h : Expression ks) : Expression (.unaryOperator :: ks)
  | binary {ks ms : List Kind} (h : Expression ks) (h' : Expression ms) :
      Expression (ks ++ .operator :: ms)

/-- The kinds of lexemes but for white space. -/
def solidKinds (ls : List Lexeme) : List Kind := (ls.map (·.kind)).filter (· ≠ .whitespace)

/-- A text that is an arithmetic expression where an operand may stand : there are literals, label
uses, operators and parentheses in it, in the order of an expression, with white space as it
likes. -/
def IsArithmetic (e : Bytes) : Prop :=
  ∃ ls, run (among 0 none false) e = ls ++ [mark .eof] ∧ Expression (solidKinds ls)

namespace Expression

variable {ks : List Kind}

theorem ne_nil (h : Expression ks) : ks ≠ [] := by
  cases h <;> simp

theorem isArithmetic (h : Expression ks) : ∀ k ∈ ks, k.isArithmetic = true := by
  induction h with
  | literal | label => exact List.forall_mem_singleton.2 rfl
  | group _ ih =>
    exact List.forall_mem_append.2
      ⟨List.forall_mem_cons.2 ⟨rfl, ih⟩, List.forall_mem_singleton.2 rfl⟩
  | unary _ ih => exact List.forall_mem_cons.2 ⟨rfl, ih⟩
  | binary _ _ ih ih' => exact List.forall_mem_append.2 ⟨ih, List.forall_mem_cons.2 ⟨rfl, ih'⟩⟩

/-- Parentheses are balanced. -/
theorem sum_turn (h : Expression ks) : (ks.map turn).sum = 0 := by
  induction h with
  | literal | label => rfl
  | group _ ih => simp [ih, turn]
  | unary _ ih => simp [ih, turn]
  | binary _ _ ih ih' => simp [ih, ih', turn]

/-- An expression ends with a value. -/
theorem foldl_endsValue (h : Expression ks) (v : Bool) : ks.foldl endsValue v = true := by
  induction h generalizing v with
  | literal | label => rfl
  | group => rw [List.foldl_append]; rfl
  | unary _ ih => exact ih _
  | binary _ _ _ ih' => rw [List.foldl_append]; exact ih' _

end Expression

theorem solidKinds_cons (l : Lexeme) (ls : List Lexeme) : solidKinds (l :: ls) =
    if l.kind = .whitespace then solidKinds ls else l.kind :: solidKinds ls := by
  rw [solidKinds, List.map_cons, List.filter_cons]
  by_cases hl : l.kind = .whitespace <;> simp [hl, solidKinds]

theorem turns_eq (ls : List Lexeme) : turns ls = ((solidKinds ls).map turn).sum := by
  induction ls with
  | nil => rfl
  | cons l ls ih =>
    rw [turns_cons, solidKinds_cons, ih]
    split
    · rename_i hl
      rw [hl, show turn .whitespace = 0 from rfl, Int.zero_add]
    · rw [List.map_cons, List.sum_cons]

theorem endsAfter_eq (v : Bool) (ls : List Lexeme) :
    endsAfter v ls = (solidKinds ls).foldl endsValue v := by
  induction ls generalizing v with
  | nil => rfl
  | cons l ls ih =>
    have hcons : endsAfter v (l :: ls) = endsAfter (endsValue v l.kind) ls := rfl
    rw [solidKinds_cons, hcons, ih]
    split
    · rename_i hl
      rw [hl]
      rfl
    · rfl

/-- An arithmetic text with its lexemes, which are found at any depth, behind `PICK` or not,
whatever follows. -/
structure CutsInto (e : Bytes) (ls : List Lexeme) : Prop where
  ne_nil : ls ≠ []
  isArithmetic : ∀ l ∈ ls, l.kind.isArithmetic = true
  sense_eq {tail : Bytes} (h : Stops tail) (d : Int) (pick : Option Int) :
    sense (among d pick false) (e ++ tail) = ls ++ sense (among d pick true) tail

theorem IsArithmetic.exists_cutsInto {e : Bytes} (h : IsArithmetic e) : ∃ ls, CutsInto e ls := by
  obtain ⟨ls, hrun, hform⟩ := h
  have hkinds : ∀ l ∈ ls, l.kind.isArithmetic = true ∨ l.kind = .whitespace := by
    intro l hl
    by_cases hspace : l.kind = .whitespace
    · exact .inr hspace
    · exact .inl (hform.isArithmetic _ (List.mem_filter.2 ⟨List.mem_map_of_mem hl, by simpa⟩))
  refine ⟨ls.filter (·.kind.significant), ?_, ?_, fun htail d pick => ?_⟩
  · obtain ⟨k, hk⟩ := List.exists_mem_of_ne_nil _ hform.ne_nil
    have harith := hform.isArithmetic k hk
    obtain ⟨l, hl, rfl⟩ := List.mem_map.1 (List.mem_filter.1 hk).1
    exact List.ne_nil_of_mem (List.mem_filter.2 ⟨hl, Kind.significant_of_isArithmetic harith⟩)
  · intro l hl
    obtain ⟨hl, hsig⟩ := List.mem_filter.1 hl
    refine (hkinds l hl).resolve_right fun hspace => ?_
    rw [hspace] at hsig
    cases hsig
  · have hdepth : turns ls = 0 := (turns_eq ls).trans hform.sum_turn
    have hvalue : endsAfter false ls = true :=
      (endsAfter_eq false ls).trans (hform.foldl_endsValue _)
    rw [sense_append hrun hkinds htail d pick, hdepth, hvalue, Int.add_zero]

end Lexer

end Asm16
