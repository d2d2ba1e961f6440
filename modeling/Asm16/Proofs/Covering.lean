import Asm16.Proofs.Leading
import Mathlib.Data.List.Chain

/-!
# Tokens cover their line

Whatever the bytes of a line are, its tokens stand one behind the other from the first byte to the
last (`Lexer.Tiles`). Two facts about a step carry this : its lexemes cover the bytes it takes
(`step_text`), and those of them that cover none are the marks of values (`inner_of_mem_step`). Over
a whole run they give `exists_run_eq`, and `place` turns the lengths of lexemes into positions.
-/

namespace Asm16

/-- The kinds of lexemes that cover no bytes. -/
def Kind.isMark : Kind → Bool
  | dataStart | dataEnd | pickEnd | eof => true
  | _ => false

/-- The kinds that stand among operands and inside data values. -/
def Kind.isPart : Kind → Bool
  | basicOpcode | specialOpcode | labelDef | directive | parameters | dataStart | dataEnd
  | whitespace | eof | comment => false
  | _ => true

theorem Kind.significant_of_isPart : ∀ {k : Kind}, k.isPart = true → k.significant = true := by
  intro k hk
  cases k <;> first | rfl | cases hk

/-- Kinds are different if one belongs to a class and the other does not. -/
theorem Kind.ne_of_class {p : Kind → Bool} {k k' : Kind} (h : p k = true) (h' : p k' = false) :
    k ≠ k' := by
  rintro rfl
  rw [h] at h'
  cases h'

namespace Lexer

/-! ## The lexemes of a step -/

/-- Of what may be found, something is true if it is true of the one thing that can be found. -/
theorem forall_mem_ite {α : Type} {q : α → Prop} {a : α} (h : q a) (p : Prop) [Decidable p] :
    ∀ x ∈ (if p then [a] else []), q x := by
  intro x hx
  rw [List.mem_ite_nil_right, List.mem_singleton] at hx
  exact hx.2 ▸ h

/-- A lexeme before the end of the line, which covers no bytes exactly if it is a mark. -/
structure Inner (l : Lexeme) : Prop where
  kind_ne : l.kind ≠ .eof
  text_eq_nil_iff : l.text = [] ↔ l.kind.isMark = true

theorem inner_mark {k : Kind} (hk : k.isMark = true) (hne : k ≠ .eof) : Inner (mark k) :=
  ⟨hne, by simp [mark, hk]⟩

theorem inner_of_text {l : Lexeme} (hk : l.kind.isMark = false) (ht : l.text ≠ []) : Inner l := by
  refine ⟨?_, by simp [hk, ht]⟩
  intro heof
  rw [heof] at hk
  cases hk

/-- A step that finds one lexeme, and no mark. -/
structure Step.Single (s : Step) (l : Lexeme) : Prop where
  emitted_eq : s.emitted = [l]
  isMark_eq : l.kind.isMark = false

/-- The only lexeme of a step covers at least the byte the step is at. -/
theorem Step.Single.inner {s : Step} {l : Lexeme} (h : s.Single l) {c : UInt8} {rest : Bytes}
    (htext : s.text = c :: rest) (hle : s.rest.length ≤ rest.length) :
    ∀ m ∈ s.emitted, Inner m := by
  intro m hm
  rw [h.emitted_eq] at hm
  obtain rfl := List.mem_singleton.1 hm
  refine inner_of_text h.isMark_eq ?_
  intro hnil
  rw [Step.text, h.emitted_eq, List.flatMap_singleton, hnil, List.nil_append] at htext
  rw [htext] at hle
  exact Nat.not_succ_le_self _ hle

theorem inner_of_directive? {st : State} {c : UInt8} {rest : Bytes} {s : Step}
    (h : directive? st c rest = some s) : ∀ l ∈ s.emitted, Inner l := by
  have hpart {k : Kind} (hk : k.isMark = false) (t : Bytes) :
      ∀ l ∈ (if t.isEmpty then [] else [plain k t]), Inner l := by
    intro l hl
    split at hl
    · cases hl
    · rename_i ht
      obtain rfl := List.mem_singleton.1 hl
      exact inner_of_text hk (by simpa [plain] using ht)
  have hword (t : Bytes) : Inner (plain .directive (c :: t)) :=
    inner_of_text rfl (List.cons_ne_nil c t)
  simp only [directive?] at h
  split at h
  · cases h
  split at h
  · cases h
  · obtain rfl := Option.some.inj h
    simpa using hword _
  · obtain rfl := Option.some.inj h
    intro l hl
    rcases List.mem_append.1 hl with hl | hl
    · rcases List.mem_append.1 hl with hl | hl
      · exact List.mem_singleton.1 hl ▸ hword _
      · exact hpart rfl _ l hl
    · exact hpart rfl _ l hl

theorem inner_of_lineStep (st : State) (c : UInt8) (rest : Bytes) :
    ∀ l ∈ (lineStep st c rest).emitted, Inner l := by
  have hle := lineStep_rest_le st c rest
  have hspec := lineStep_spec st c rest
  generalize lineStep st c rest = s at hle hspec
  have htext := hspec.text_eq
  cases hspec with
  | directive _ h => exact inner_of_directive? h
  | colon | label | loneColon | loneDot | other =>
    exact Step.Single.inner ⟨rfl, rfl⟩ htext hle
  | word hk _ => exact Step.Single.inner ⟨rfl, by cases hk <;> rfl⟩ htext hle

/-- Among operands and data values a step finds one lexeme, which is part of them. -/
theorem exists_single_valueStep (st : State) (c : UInt8) (rest : Bytes) :
    ∃ l, (valueStep st c rest).Single l ∧ l.kind.isPart = true := by
  have hbracket : ∀ k ∈ [Kind.addressStart, .addressEnd, .groupStart, .groupEnd],
      k.isMark = false ∧ k.isPart = true := by decide
  have hoperator : ∀ k ∈ [Kind.operator, .unaryOperator],
      k.isMark = false ∧ k.isPart = true := by decide
  have hword : ∀ k ∈ [Kind.register, .stackAccess, .pickStart, .labelUse],
      k.isMark = false ∧ k.isPart = true := by decide
  have h := valueStep_spec st c rest
  generalize valueStep st c rest = s at h
  cases h with
  | bracket h =>
    obtain ⟨hm, hp⟩ := hbracket _ (kind_of_bracket? h)
    exact ⟨_, ⟨rfl, hm⟩, hp⟩
  | operator h =>
    obtain ⟨hm, hp⟩ := hoperator _ (kind_of_operator? h)
    exact ⟨_, ⟨rfl, hm⟩, hp⟩
  | word _ _ =>
    obtain ⟨hm, hp⟩ := hword _ (wordLexeme_spec _).2
    exact ⟨_, ⟨rfl, hm⟩, hp⟩
  | _ => exact ⟨_, ⟨rfl, rfl⟩, rfl⟩

theorem inner_of_valueStep (st : State) (c : UInt8) (rest : Bytes) :
    ∀ l ∈ (valueStep st c rest).emitted, Inner l := by
  obtain ⟨l, hl, -⟩ := exists_single_valueStep st c rest
  exact hl.inner (valueStep_text st c rest) (valueStep_rest_le st c rest)

theorem inner_of_operandStep (st : State) (c : UInt8) (rest : Bytes) :
    ∀ l ∈ (operandStep st c rest).emitted, Inner l := by
  have hpick : Inner (mark .pickEnd) := inner_mark rfl (by decide)
  have hstart : Inner (mark .dataStart) := inner_mark rfl (by decide)
  have hend : Inner (mark .dataEnd) := inner_mark rfl (by decide)
  have hcomma : Inner (plain .separator [byte ',']) := inner_of_text rfl (List.cons_ne_nil _ _)
  unfold operandStep
  split
  · simp only [commaStep]
    generalize decide (st.pick = some st.depth) = closesPick
    generalize decide (st.stage = .data ∧ st.depth = 0) = closesValue
    cases closesPick <;> cases closesValue <;> cases st.inValue <;>
      simpa [hpick, hstart, hend] using hcomma
  · split
    · exact List.forall_mem_cons.2 ⟨hstart, inner_of_valueStep _ c rest⟩
    · exact inner_of_valueStep st c rest

theorem inner_of_closeValue (st : State) : ∀ l ∈ (closeValue st).1, Inner l := by
  have hpick : Inner (mark .pickEnd) := inner_mark rfl (by decide)
  have hstart : Inner (mark .dataStart) := inner_mark rfl (by decide)
  have hend : Inner (mark .dataEnd) := inner_mark rfl (by decide)
  simp only [closeValue]
  split <;> split <;> split <;> simp [hpick, hstart, hend]

/-- The lexemes of a step cover no bytes exactly if they are marks. -/
theorem inner_of_mem_step (st : State) (c : UInt8) (rest : Bytes) :
    ∀ l ∈ (step st c rest).emitted, Inner l := by
  show ∀ l ∈ (stepAt st c rest).emitted, Inner l
  have hplain (k : Kind) (hk : k.isMark = false) (t : Bytes) : Inner (plain k (c :: t)) :=
    inner_of_text hk (List.cons_ne_nil c t)
  unfold stepAt
  split
  · simpa using hplain .whitespace rfl _
  · split
    · intro l hl
      rcases List.mem_append.1 hl with hl | hl
      · exact inner_of_closeValue st l hl
      · exact List.mem_singleton.1 hl ▸ hplain .comment rfl rest
    · split
      · exact inner_of_lineStep st c rest
      · exact inner_of_operandStep st c rest

/-! ## The lexemes of a run -/

/-- A run ends with the end of the line; the lexemes before it cover the line. -/
theorem exists_run_eq (st : State) (s : Bytes) : ∃ ls, run st s = ls ++ [mark .eof] ∧
    ls.flatMap (·.text) = s ∧ ∀ l ∈ ls, Inner l := by
  fun_induction run st s with
  | case1 st => exact ⟨_, rfl, closeValue_text st, inner_of_closeValue st⟩
  | case2 st c rest ih =>
    obtain ⟨ls, hrun, htext, hinner⟩ := ih
    refine ⟨(step st c rest).emitted ++ ls, by rw [hrun, List.append_assoc], ?_, ?_⟩
    · rw [List.flatMap_append, htext]
      exact step_text st c rest
    · exact List.forall_mem_append.2 ⟨inner_of_mem_step st c rest, hinner⟩

/-! ## Positions -/

theorem head?_start_place (mode : Mode) (n : Nat) {ls : List Lexeme} (h : ls ≠ []) :
    (place mode n ls).head?.map (·.start) = some n := by
  cases ls with
  | nil => exact absurd rfl h
  | cons l rest => rfl

theorem isChain_place (mode : Mode) (n : Nat) (ls : List Lexeme) :
    (place mode n ls).IsChain fun t u => u.start = t.stop := by
  induction ls generalizing n with
  | nil => exact .nil
  | cons l rest ih =>
    refine List.isChain_cons.2 ⟨?_, ih _⟩
    intro u hu
    cases rest with
    | nil => cases hu
    | cons m rest =>
      obtain rfl := Option.some.inj hu
      rfl

/-- A token has the text at its position. -/
theorem slice_of_mem_place {mode : Mode} {n : Nat} {ls : List Lexeme} (front : Bytes)
    (hn : front.length = n) : ∀ t ∈ place mode n ls,
      ((front ++ ls.flatMap (·.text)).take t.stop).drop t.start = t.text ∧ t.mode = mode := by
  induction ls generalizing n front with
  | nil => simp [place]
  | cons l rest ih =>
    refine List.forall_mem_cons.2 ⟨⟨?_, rfl⟩, ?_⟩
    · simp [Token.stop, ← hn, List.take_append]
    · have hlen : (front ++ l.text).length = n + l.text.length := by rw [List.length_append, hn]
      simpa using ih _ hlen

theorem flatMap_text_place (mode : Mode) (n : Nat) (ls : List Lexeme) :
    (place mode n ls).flatMap (·.text) = ls.flatMap (·.text) := by
  induction ls generalizing n with
  | nil => rfl
  | cons l rest ih => rw [place, List.flatMap_cons, List.flatMap_cons, ih]

end Lexer

/-! ## Lines -/

/-- Tokens that cover a line from its first byte to its last : each starts where the one before it
ends, and the end of the line is the last of them and stands nowhere else. -/
structure Tiles (mode : Mode) (s : Bytes) (ts : List Token) : Prop where
  first : ts.head?.map (·.start) = some 0
  next : ts.IsChain fun t u => u.start = t.stop
  last : ts.getLast?.map (·.stop) = some s.length
  slice : ∀ t ∈ ts, t.text = (s.take t.stop).drop t.start ∧ t.mode = mode
  eof : ∃ front t, ts = front ++ [t] ∧ t.kind = .eof ∧ ∀ u ∈ front, u.kind ≠ .eof
  width : ∀ t ∈ ts, t.stop = t.start ↔
    t.kind = .dataStart ∨ t.kind = .dataEnd ∨ t.kind = .pickEnd ∨ t.kind = .eof
  joined : ts.flatMap (·.text) = s

theorem Kind.isMark_iff {k : Kind} :
    k.isMark = true ↔ k = .dataStart ∨ k = .dataEnd ∨ k = .pickEnd ∨ k = .eof := by
  cases k <;> simp [isMark]

/-- The tokens of a line cover it, whatever its bytes are. -/
theorem lex_tiles (mode : Mode) (s : Bytes) : Tiles mode s (lex mode s) := by
  obtain ⟨ls, hrun, htext, hinner⟩ := Lexer.exists_run_eq {} s
  have hlexemes : lexemes s = ls ++ [Lexer.mark .eof] := hrun
  have hcover : (lexemes s).flatMap (·.text) = s := by
    rw [hlexemes, List.flatMap_append, htext]
    exact List.append_nil s
  have hlex : lex mode s = Lexer.place mode 0 ls ++ [⟨Lexer.mark .eof, s.length, mode, []⟩] := by
    rw [lex, hlexemes, Lexer.place_append, htext, Nat.zero_add]
    rfl
  have hfront : ∀ t ∈ Lexer.place mode 0 ls, Lexer.Inner t.toLexeme := fun t ht =>
    hinner _ (Lexer.mem_place ht)
  have hwidth (t : Token) : t.stop = t.start ↔ t.text = [] := by
    rw [Token.stop, Nat.add_eq_left, List.length_eq_zero_iff]
  refine ⟨?_, Lexer.isChain_place mode 0 _, ?_, ?_, ?_, ?_, ?_⟩
  · exact Lexer.head?_start_place mode 0 (by simp [hlexemes])
  · rw [hlex, List.getLast?_concat]
    rfl
  · intro t ht
    have hslice := Lexer.slice_of_mem_place [] rfl t ht
    rw [List.nil_append, hcover] at hslice
    exact ⟨hslice.1.symm, hslice.2⟩
  · exact ⟨_, _, hlex, rfl, fun u hu => (hfront u hu).kind_ne⟩
  · intro t ht
    rw [hwidth, ← Kind.isMark_iff]
    rw [hlex] at ht
    rcases List.mem_append.1 ht with ht | ht
    · exact (hfront t ht).text_eq_nil_iff
    · rw [List.mem_singleton.1 ht]
      simp [Lexer.mark, Kind.isMark]
  · exact (Lexer.flatMap_text_place mode 0 _).trans hcover

end Asm16
