import Asm16.Proofs.Lexing

/-!
# What a lexeme can be

Whatever the state of a line and the bytes that are left of it, a lexeme that is read is a label
definition around a name, a word among values, a literal, a string, or nothing but its bytes
(`Lexer.Found`). `found_of_run` is the only place that goes through all steps for this; what is true
of every lexeme of a line is proved from the cases.
-/

namespace Asm16.Lexer

/-- The kinds of lexemes that are nothing but their bytes, and no words. -/
def isBare : Kind → Bool
  | .register | .stackAccess | .literal | .labelUse | .labelDef | .pickStart | .string => false
  | _ => true

/-- The lexemes that are read from a line. -/
inductive Found : Lexeme → Prop
  | bare {k : Kind} {text : Bytes} (hk : isBare k = true) : Found (plain k text)
  | definition {s name after text : Bytes} (h : identifier? s = some (name, after))
      (ht : text = byte ':' :: name ∨ text = name ++ [byte ':']) : Found (labelDef text)
  | word {s name after : Bytes} (h : identifier? s = some (name, after)) : Found (wordLexeme name)
  | literal {text : Bytes} {n : Int} : Found ⟨.literal, text, some (.resolved n), false, []⟩
  | string {text contents : Bytes} : Found ⟨.string, text, none, false, contents⟩

theorem found_directive? {st : State} {c : UInt8} {rest : Bytes} {s : Step}
    (h : directive? st c rest = some s) : ∀ l ∈ s.emitted, Found l := by
  have hpart {k : Kind} (hk : isBare k = true) (t : Bytes) :
      ∀ l ∈ (if t.isEmpty then [] else [plain k t]), Found l := by
    split
    · simp
    · exact List.forall_mem_singleton.2 (.bare hk)
  simp only [directive?] at h
  split at h
  · cases h
  split at h
  · cases h
  · obtain rfl := Option.some.inj h
    exact List.forall_mem_singleton.2 (.bare rfl)
  · obtain rfl := Option.some.inj h
    exact List.forall_mem_append.2 ⟨List.forall_mem_append.2
      ⟨List.forall_mem_singleton.2 (.bare rfl), hpart rfl _⟩, hpart rfl _⟩

theorem found_lineStep (st : State) (c : UInt8) (rest : Bytes) :
    ∀ l ∈ (lineStep st c rest).emitted, Found l := by
  have hspec := lineStep_spec st c rest
  generalize lineStep st c rest = s at hspec
  cases hspec with
  | directive _ h => exact found_directive? h
  | colon hc h => exact List.forall_mem_singleton.2 (.definition h (.inl (by rw [hc])))
  | label h => exact List.forall_mem_singleton.2 (.definition h (.inr rfl))
  | word hk _ =>
    refine List.forall_mem_singleton.2 (.bare ?_)
    cases hk <;> rfl
  | loneColon | loneDot | other => exact List.forall_mem_singleton.2 (.bare rfl)

theorem found_valueStep (st : State) (c : UInt8) (rest : Bytes) :
    ∀ l ∈ (valueStep st c rest).emitted, Found l := by
  have hbracket : ∀ k ∈ [Kind.addressStart, .addressEnd, .groupStart, .groupEnd],
      isBare k = true := by decide
  have hoperator : ∀ k ∈ [Kind.operator, .unaryOperator], isBare k = true := by decide
  have hspec := valueStep_spec st c rest
  generalize valueStep st c rest = s at hspec
  cases hspec with
  | bracket h => exact List.forall_mem_singleton.2 (.bare (hbracket _ (kind_of_bracket? h)))
  | operator h => exact List.forall_mem_singleton.2 (.bare (hoperator _ (kind_of_operator? h)))
  | number | character => exact List.forall_mem_singleton.2 .literal
  | string => exact List.forall_mem_singleton.2 .string
  | word _ h => exact List.forall_mem_singleton.2 (.word h)
  | badNumber | openString | shift | other => exact List.forall_mem_singleton.2 (.bare rfl)

theorem found_operandStep (st : State) (c : UInt8) (rest : Bytes) :
    ∀ l ∈ (operandStep st c rest).emitted, Found l := by
  have hmark {k : Kind} (hk : isBare k = true) : Found (mark k) := .bare hk
  unfold operandStep
  split
  · have hpick : Found (mark .pickEnd) := hmark rfl
    have hstart : Found (mark .dataStart) := hmark rfl
    have hend : Found (mark .dataEnd) := hmark rfl
    have hseparator (text : Bytes) : Found (plain .separator text) := .bare rfl
    simp only [commaStep]
    split <;> split <;> cases st.inValue <;> simp [hpick, hstart, hend, hseparator]
  · split
    · exact List.forall_mem_cons.2 ⟨hmark rfl, found_valueStep _ c rest⟩
    · exact found_valueStep st c rest

theorem found_closeValue (st : State) : ∀ l ∈ (closeValue st).1, Found l := by
  have hpick : Found (mark .pickEnd) := .bare rfl
  have hstart : Found (mark .dataStart) := .bare rfl
  have hend : Found (mark .dataEnd) := .bare rfl
  simp only [closeValue]
  split <;> split <;> split <;> simp [hpick, hstart, hend]

theorem found_stepAt (st : State) (c : UInt8) (rest : Bytes) :
    ∀ l ∈ (stepAt st c rest).emitted, Found l := by
  unfold stepAt
  split
  · exact List.forall_mem_singleton.2 (.bare rfl)
  split
  · exact List.forall_mem_append.2
      ⟨found_closeValue st, List.forall_mem_singleton.2 (.bare rfl)⟩
  split
  · exact found_lineStep st c rest
  · exact found_operandStep st c rest

/-- Every lexeme of a line is one of these. -/
theorem found_of_run (st : State) (s : Bytes) : ∀ l ∈ run st s, Found l := by
  fun_induction run st s with
  | case1 st =>
    exact List.forall_mem_append.2
      ⟨found_closeValue st, List.forall_mem_singleton.2 (.bare rfl)⟩
  | case2 st c rest ih => exact List.forall_mem_append.2 ⟨found_stepAt st c rest, ih⟩

end Asm16.Lexer
