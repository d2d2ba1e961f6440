import Asm16.Proofs.DataArithmetic

/-!
# The values of a data line

Behind a data directive a line is between values, behind a separator, or inside a value (`Phase`).
`DataTail` are the kinds of lexemes that can come up in each of these, and a run of the lexer keeps
to it (`dataTail_run`). What is said about the values of a line is read off `DataTail` : starts and
ends take turns (`DataTail.alternates`), there is a value more than separators between them
(`DataTail.count_eq`), and the values are joined by separators (`DataTail.completes`).

A separator that ends the line has an empty value behind it. A `PICK` that is still open there,
because it was opened at another depth of brackets than the separator stands at, is ended before
that value begins; it is the only mark that comes to stand between values.
-/

namespace Asm16

/-- The kinds of the lexemes that carry meaning. -/
def meaning (ls : List Lexeme) : List Kind := (ls.map (·.kind)).filter Kind.significant

@[simp] theorem meaning_append (ls ms : List Lexeme) :
    meaning (ls ++ ms) = meaning ls ++ meaning ms := by
  simp [meaning]

theorem meaning_cons_of_significant {l : Lexeme} (hl : l.kind.significant = true)
    (ls : List Lexeme) : meaning (l :: ls) = l.kind :: meaning ls := by
  simp [meaning, hl]

theorem map_kind_significantTokens (mode : Mode) (n : Nat) (ls : List Lexeme) :
    (significantTokens (Lexer.place mode n ls)).map (·.kind) = meaning ls := by
  have hkinds : (Lexer.place mode n ls).map (·.kind) = ls.map (·.kind) := by
    conv_rhs => rw [← Lexer.map_toLexeme_place mode n ls, List.map_map]
    rfl
  rw [meaning, ← hkinds, List.filter_map, significantTokens]
  rfl

/-! ## Values and separators -/

/-- Data values with a separator between any two. -/
inductive Joined : List Kind → Prop
  | last {value : List Kind} (hv : ∀ k ∈ value, k.isPart = true) :
      Joined (.dataStart :: value ++ [.dataEnd])
  | more {value ks : List Kind} (hv : ∀ k ∈ value, k.isPart = true) (h : Joined ks) :
      Joined (.dataStart :: value ++ .dataEnd :: .separator :: ks)

/-- The empty value at the end of a line, behind the end of a `PICK` that was left open. -/
def afterPick : List Kind := [.pickEnd, .dataStart, .dataEnd]

/-- Data values with a separator between any two, and perhaps the end of a `PICK` behind the last
separator if the value behind it is empty. -/
def Series (ks : List Kind) : Prop :=
  Joined ks ∨ ∃ front, Joined front ∧ ks = front ++ .separator :: afterPick

/-- The kinds that stand outside data values; `inside` tells whether a value is open before. -/
def outside (inside : Bool) : List Kind → List Kind
  | [] => []
  | k :: ks =>
    if k = .dataStart then outside true ks
    else if k = .dataEnd then outside false ks
    else if inside then outside inside ks
    else k :: outside inside ks

/-- The starts and the ends of data values. -/
def valueMarks (ks : List Kind) : List Kind := ks.filter fun k => k = .dataStart || k = .dataEnd

theorem outside_of_isPart {value : List Kind} (hv : ∀ k ∈ value, k.isPart = true)
    (ks : List Kind) : outside true (value ++ ks) = outside true ks := by
  induction value with
  | nil => rfl
  | cons k value ih =>
    obtain ⟨hk, hv⟩ := List.forall_mem_cons.1 hv
    rw [List.cons_append, outside, if_neg (by rintro rfl; cases hk),
      if_neg (by rintro rfl; cases hk), if_pos rfl, ih hv]

/-- Between values that are joined there are separators only. -/
theorem Joined.outside_eq {ks : List Kind} (h : Joined ks) :
    ∀ k ∈ outside false ks, k = .separator := by
  induction h with
  | last hv => simp [outside, outside_of_isPart hv]
  | more hv _ ih => simpa [outside, outside_of_isPart hv] using ih

theorem Series.more {value ks : List Kind} (hv : ∀ k ∈ value, k.isPart = true) (h : Series ks) :
    Series (.dataStart :: value ++ .dataEnd :: .separator :: ks) := by
  rcases h with h | ⟨front, h, rfl⟩
  · exact .inl (.more hv h)
  · exact .inr ⟨_, .more hv h, by simp⟩

/-! ## Phases of a data line -/

/-- Where a data line stands. -/
inductive Phase where
  /-- Before the first value. -/
  | idle
  /-- Behind a separator. -/
  | behind
  /-- Inside a value. -/
  | inside
  deriving DecidableEq

/-- What the kinds `ks`, up to the end of the line, make of its values. -/
def Phase.Completes : Phase → List Kind → Prop
  | .idle, ks => ks = [] ∨ Series ks
  | .behind, ks => Series ks ∨ ks = afterPick
  | .inside, ks => ∀ value, (∀ k ∈ value, k.isPart = true) → Series (.dataStart :: value ++ ks)

/-- The kinds that can come up until the end of the line. -/
inductive DataTail : Phase → List Kind → Prop
  | nothing : DataTail .idle []
  | start {phase : Phase} {ks : List Kind} (hp : phase ≠ .inside) (h : DataTail .inside ks) :
      DataTail phase (.dataStart :: ks)
  | part {k : Kind} {ks : List Kind} (hk : k.isPart = true) (h : DataTail .inside ks) :
      DataTail .inside (k :: ks)
  | last : DataTail .inside [.dataEnd]
  | next {ks : List Kind} (h : DataTail .behind ks) :
      DataTail .inside (.dataEnd :: .separator :: ks)
  | afterPick : DataTail .behind afterPick

namespace DataTail

variable {phase : Phase} {ks : List Kind}

theorem parts {value : List Kind} (hv : ∀ k ∈ value, k.isPart = true) (h : DataTail .inside ks) :
    DataTail .inside (value ++ ks) := by
  induction value with
  | nil => exact h
  | cons k value ih =>
    obtain ⟨hk, hv⟩ := List.forall_mem_cons.1 hv
    exact .part hk (ih hv)

theorem valueMarks_cons_of_isPart {k : Kind} (hk : k.isPart = true) (ks : List Kind) :
    valueMarks (k :: ks) = valueMarks ks := by
  cases k <;> first | rfl | cases hk

/-- Starts and ends of values take turns. -/
theorem alternates (h : DataTail phase ks) : ∃ n, valueMarks ks =
    (if phase = .inside then [Kind.dataEnd] else []) ++
      (List.replicate n [Kind.dataStart, .dataEnd]).flatten := by
  induction h with
  | nothing => exact ⟨0, rfl⟩
  | start hp _ ih =>
    obtain ⟨n, hn⟩ := ih
    refine ⟨n + 1, ?_⟩
    rw [if_neg hp, List.replicate_succ, List.flatten_cons]
    show Kind.dataStart :: valueMarks _ = _
    rw [hn]
    rfl
  | part hk _ ih =>
    rw [valueMarks_cons_of_isPart hk]
    exact ih
  | last => exact ⟨0, rfl⟩
  | @next ks _ ih =>
    obtain ⟨n, hn⟩ := ih
    refine ⟨n, ?_⟩
    show Kind.dataEnd :: valueMarks ks = _
    rw [hn]
    rfl
  | afterPick => exact ⟨1, rfl⟩

theorem ne_nil (h : DataTail phase ks) (hp : phase ≠ .idle) : ks ≠ [] := by
  cases h with
  | nothing => exact absurd rfl hp
  | _ => exact List.cons_ne_nil _ _

/-- There is a value more than separators outside values. -/
theorem count_eq (h : DataTail phase ks) (hne : ks ≠ []) :
    ks.count .dataStart + (if phase = .inside then 1 else 0) =
      (outside (phase = .inside) ks).count .separator + 1 := by
  induction h with
  | nothing => exact absurd rfl hne
  | start hp h ih =>
    have hinside := ih (h.ne_nil (by simp))
    simp only [if_true, decide_true] at hinside
    rw [if_neg hp, List.count_cons_self, outside, if_pos rfl, hinside]
  | part hk h ih =>
    refine Eq.trans ?_ ((ih (h.ne_nil (by simp))).trans ?_)
    · rw [List.count_cons_of_ne (by rintro rfl; cases hk)]
    · rw [outside, if_neg (by rintro rfl; cases hk), if_neg (by rintro rfl; cases hk)]
      rfl
  | last => rfl
  | @next ks h ih =>
    have hbehind := ih (h.ne_nil (by simp))
    simp only [reduceCtorEq, if_false, decide_false, Nat.add_zero] at hbehind
    show ks.count .dataStart + 1 = (Kind.separator :: outside false ks).count .separator + 1
    rw [hbehind, List.count_cons_self]
  | afterPick => rfl

/-- The values of a line are joined by separators. -/
theorem completes (h : DataTail phase ks) : phase.Completes ks := by
  induction h with
  | nothing => exact .inl rfl
  | @start phase ks hp _ ih =>
    have hseries : Series (.dataStart :: ks) := ih [] (by simp)
    cases phase with
    | idle => exact .inr hseries
    | behind => exact .inl hseries
    | inside => exact absurd rfl hp
  | @part k ks hk _ ih =>
    intro value hv
    have hvalue : ∀ j ∈ value ++ [k], j.isPart = true :=
      List.forall_mem_append.2 ⟨hv, List.forall_mem_singleton.2 hk⟩
    simpa using ih (value ++ [k]) hvalue
  | last => exact fun value hv => .inl (.last hv)
  | next _ ih =>
    intro value hv
    rcases ih with hseries | rfl
    · exact hseries.more hv
    · exact .inr ⟨_, .last hv, by simp⟩
  | afterPick => exact .inr rfl

end DataTail

/-! ## Steps behind a data directive -/

namespace Lexer

variable {st : State} {c : UInt8} {rest : Bytes}

/-- The phase of a state. -/
def State.phase (st : State) : Phase :=
  if st.inValue then .inside else if st.trailing then .behind else .idle

/-- The states behind a data directive. Between values all brackets are closed, and a `PICK` that is
open there was opened at another depth. -/
structure State.InData (st : State) : Prop where
  stage_eq : st.stage = .data
  trailing_eq : st.inValue = true → st.trailing = false
  depth_eq : st.inValue = false → st.depth = 0
  pick_ne : st.inValue = false → st.pick ≠ some 0
  pick_eq : st.inValue = false → st.trailing = false → st.pick = none

theorem meaning_closeValue (st : State) : meaning (closeValue st).1 =
    (if st.pick.isSome then [.pickEnd] else []) ++ (if st.trailing then [.dataStart] else []) ++
      (if st.trailing || st.inValue then [.dataEnd] else []) := by
  simp only [closeValue, meaning_append]
  split <;> split <;> split <;> rfl

/-- What is left to be found at the end of a line. -/
theorem State.InData.dataTail_closeValue (h : st.InData) :
    DataTail st.phase (meaning (closeValue st).1) := by
  rw [meaning_closeValue, State.phase]
  cases hin : st.inValue with
  | true =>
    rw [h.trailing_eq hin]
    have hpick : ∀ k ∈ (if st.pick.isSome then [Kind.pickEnd] else []), k.isPart = true :=
      forall_mem_ite (by rfl) _
    simpa using DataTail.parts hpick .last
  | false =>
    cases ht : st.trailing with
    | true =>
      cases hp : st.pick with
      | none => exact .start (by simp) .last
      | some d => exact .afterPick
    | false =>
      rw [h.pick_eq hin ht]
      exact .nothing

/-! ## Ends of lines and white space -/

theorem meaning_run_nil (st : State) : meaning (run st []) = meaning (closeValue st).1 := by
  rw [run, meaning_append]
  exact List.append_nil _

/-- A comment ends a line. -/
theorem meaning_run_comment (st : State) (rest : Bytes) :
    meaning (run st (byte ';' :: rest)) = meaning (closeValue st).1 := by
  rw [run_cons, step, stepAt_semicolon, meaning_append, meaning_run_nil, meaning_closeValue,
    meaning_append]
  simp only [closeValue, Option.isSome_none, Bool.false_eq_true, if_false, Bool.or_false,
    List.append_nil]
  exact List.append_nil _

theorem step_blank (hc : isBlank c = true) : step st c rest =
    ⟨[plain .whitespace (c :: rest.takeWhile isBlank)], st, rest.dropWhile isBlank⟩ := by
  rw [step, stepAt_blank hc]
  rfl

/-! ## Data lines -/

/-- What a step behind a data directive finds, and where it leaves the line. -/
structure Step.Carries (s : Step) (phase : Phase) : Prop where
  inData : s.state.InData
  tail : ∀ ks, DataTail s.state.phase ks → DataTail phase (meaning s.emitted ++ ks)

theorem carries_valueStep (h : st.InData) (hin : st.inValue = true) (c : UInt8) (rest : Bytes) :
    (valueStep st c rest).Carries .inside := by
  obtain ⟨l, hl, hk⟩ := exists_single_valueStep st c rest
  obtain ⟨hstage, hvalue, htrailing⟩ := valueStep_state st c rest
  rw [hin] at hvalue
  refine ⟨⟨hstage.trans h.stage_eq, fun _ => htrailing.trans (h.trailing_eq hin), ?_, ?_, ?_⟩, ?_⟩
  · simp [hvalue]
  · simp [hvalue]
  · simp [hvalue]
  · intro ks hks
    rw [State.phase, hvalue, if_pos rfl] at hks
    rw [hl.emitted_eq, meaning_cons_of_significant (Kind.significant_of_isPart hk)]
    exact .part hk hks

theorem meaning_commaStep (st : State) (rest : Bytes) : meaning (commaStep st rest).emitted =
    (if st.pick = some st.depth then [.pickEnd] else []) ++
      (if st.stage = .data ∧ st.depth = 0 then
        (if st.inValue then [] else [.dataStart]) ++ [.dataEnd] else []) ++ [.separator] := by
  simp only [commaStep, meaning_append, decide_eq_true_eq]
  split <;> split <;> cases st.inValue <;> rfl

/-- A comma inside brackets is part of a value, and any other one ends it. -/
theorem carries_commaStep (h : st.InData) (rest : Bytes) :
    (commaStep st rest).Carries st.phase := by
  have hpick : ∀ k ∈ (if st.pick = some st.depth then [Kind.pickEnd] else []), k.isPart = true :=
    forall_mem_ite (by rfl) _
  by_cases hdepth : st.depth = 0
  · have hnext : (commaStep st rest).state =
        { st with
          pick := if st.pick = some 0 then none else st.pick
          inValue := false
          trailing := true } := by
      simp [commaStep, h.stage_eq, hdepth]
    have hclosed : (if st.pick = some 0 then none else st.pick) ≠ some 0 := by
      split
      · simp
      · assumption
    refine ⟨?_, ?_⟩
    · rw [hnext]
      exact ⟨h.stage_eq, by simp, fun _ => hdepth, fun _ => hclosed, by simp⟩
    · intro ks hks
      rw [hnext] at hks
      rw [meaning_commaStep, if_pos (⟨h.stage_eq, hdepth⟩ : st.stage = .data ∧ st.depth = 0),
        State.phase]
      cases hin : st.inValue with
      | true => simpa [List.append_assoc] using DataTail.parts hpick (.next hks)
      | false =>
        rw [hdepth, if_neg (h.pick_ne hin)]
        refine .start ?_ (.next hks)
        simp only [Bool.false_eq_true, if_false]
        split <;> simp
  · have hin : st.inValue = true := by
      by_contra hne
      exact hdepth (h.depth_eq (Bool.not_eq_true _ ▸ hne))
    have hstate : (commaStep st rest).state.inValue = true ∧
        (commaStep st rest).state.trailing = false := by
      simp [commaStep, h.stage_eq, hdepth, hin, h.trailing_eq hin]
    refine ⟨⟨h.stage_eq, fun _ => hstate.2, ?_, ?_, ?_⟩, ?_⟩
    · simp [hstate.1]
    · simp [hstate.1]
    · simp [hstate.1]
    · intro ks hks
      rw [State.phase, hstate.1, if_pos rfl] at hks
      have hopen : ¬(st.stage = .data ∧ st.depth = 0) := fun hs => hdepth hs.2
      rw [meaning_commaStep, if_neg hopen, State.phase, hin, List.append_nil, List.append_assoc]
      exact DataTail.parts hpick (.part rfl hks)

/-- A step at a byte of an operand. -/
theorem carries_operandStep (h : st.InData) (c : UInt8) (rest : Bytes) :
    (operandStep st c rest).Carries st.phase := by
  unfold operandStep
  split
  · exact carries_commaStep h rest
  cases hin : st.inValue with
  | true =>
    rw [if_neg (by simp), State.phase, hin]
    exact carries_valueStep h hin c rest
  | false =>
    rw [if_pos ⟨h.stage_eq, by simp⟩]
    have hopen : State.InData { st with inValue := true, trailing := false } :=
      ⟨h.stage_eq, fun _ => rfl, by simp, by simp, by simp⟩
    obtain ⟨hdata, htail⟩ := carries_valueStep hopen rfl c rest
    refine ⟨hdata, fun ks hks => ?_⟩
    refine .start ?_ (htail ks hks)
    rw [State.phase, hin]
    simp only [Bool.false_eq_true, if_false]
    split <;> simp

/-- What is left of a data line keeps to its phase. -/
theorem dataTail_run (h : st.InData) (s : Bytes) : DataTail st.phase (meaning (run st s)) := by
  fun_induction run st s with
  | case1 st =>
    rw [meaning_append]
    exact (List.append_nil (meaning (closeValue st).1)).symm ▸ h.dataTail_closeValue
  | case2 st c rest ih =>
    by_cases hblank : isBlank c = true
    · rw [step_blank hblank] at ih ⊢
      exact ih h
    by_cases hsemi : c = byte ';'
    · subst hsemi
      rw [← run_cons, meaning_run_comment]
      exact h.dataTail_closeValue
    · have hstep := stepAt_data h.stage_eq (Bool.not_eq_true _ ▸ hblank) hsemi rest
      obtain ⟨hdata, htail⟩ := carries_operandStep h c rest
      rw [step, hstep] at ih ⊢
      rw [meaning_append]
      exact htail _ (ih ⟨hdata.stage_eq, hdata.trailing_eq, hdata.depth_eq, hdata.pick_ne,
        hdata.pick_eq⟩)

end Lexer

end Asm16
