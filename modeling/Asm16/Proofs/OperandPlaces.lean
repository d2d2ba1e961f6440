import Asm16.Proofs.Outcomes
import Mathlib.Data.List.Forall2

/-!
# Where operands stand

An instruction is read operand by operand : the tokens behind its opcode are cut at the separators,
and each run of them is parsed by itself. What goes before an operand, up to the opcode or to a
separator, and what follows it, from a separator on, have runs of their own, so the instruction is
the same for any two operands that are parsed alike (`Instruction.reading_congr`).

Names are given to the tokens of an operand without regard to what stands around it, if there are no
label definitions in it (`nameTokens_append`, `scopeAfter_of_ne`).
-/

namespace Asm16

/-! ## Runs of operands -/

namespace Instruction

/-- An instruction is made from what its operands are parsed to. -/
theorem ofRuns_congr {ε : Type} {parse : List Token → Side → Except ε Operand}
    {runs runs' : List (List Token)}
    (h : List.Forall₂ (fun r r' => ∀ side, parse r side = parse r' side) runs runs')
    (wrong : OperandFault → ε) (shape : Shape) :
    ofRuns parse wrong shape runs = ofRuns parse wrong shape runs' := by
  match shape, runs, runs', h with
  | .two op, [_, _], [_, _], .cons hb (.cons ha .nil) => simp only [ofRuns, hb, ha]
  | .jump op, [_], [_], .cons ha .nil => simp only [ofRuns, ha]
  | .one op, [_], [_], .cons ha .nil => simp only [ofRuns, ha]
  | .two op, [], [], .nil => rfl
  | .two op, [_], [_], .cons _ .nil => rfl
  | .two op, _ :: _ :: _ :: _, _ :: _ :: _ :: _, .cons _ (.cons _ (.cons _ h)) =>
    simp only [ofRuns, List.length_cons, h.length_eq]
  | .jump op, [], [], .nil => rfl
  | .jump op, _ :: _ :: _, _ :: _ :: _, .cons _ (.cons _ h) =>
    simp only [ofRuns, List.length_cons, h.length_eq]
  | .one op, [], [], .nil => rfl
  | .one op, _ :: _ :: _, _ :: _ :: _, .cons _ (.cons _ h) =>
    simp only [ofRuns, List.length_cons, h.length_eq]

theorem operandRuns_cons (t : Token) {ts : List Token} (h : ts ≠ []) : operandRuns (t :: ts) =
    if t.kind = .separator then [] :: operandRuns ts
    else match operandRuns ts with
      | run :: more => (t :: run) :: more
      | [] => [[t]] := by
  have hts : ts.isEmpty = false := by simpa using h
  rw [operandRuns, operandRuns, hts]
  rfl

theorem operandRuns_separator {sep : Token} (hs : sep.kind = .separator) (ts : List Token) :
    ∃ runs, operandRuns (sep :: ts) = [] :: runs := by
  rw [operandRuns, if_neg (by simp), List.foldr_cons, if_pos hs]
  exact ⟨_, rfl⟩

theorem operandRuns_ne_nil {ts : List Token} (h : ts ≠ []) : operandRuns ts ≠ [] := by
  obtain ⟨t, rest, rfl⟩ := List.exists_cons_of_ne_nil h
  rw [operandRuns, if_neg (by simp), List.foldr_cons]
  split
  · exact List.cons_ne_nil _ _
  · split <;> exact List.cons_ne_nil _ _

/-- The runs up to a separator do not depend on what follows it. -/
theorem exists_runs_before (front : List Token) {sep : Token} (hs : sep.kind = .separator) :
    ∃ run runs, ∀ {ts : List Token}, ts ≠ [] →
      operandRuns (front ++ sep :: ts) = run :: (runs ++ operandRuns ts) := by
  induction front with
  | nil =>
    refine ⟨[], [], fun {ts} hts => ?_⟩
    rw [List.nil_append, operandRuns_cons sep hts, if_pos hs]
    rfl
  | cons t front ih =>
    obtain ⟨run, runs, h⟩ := ih
    by_cases ht : t.kind = .separator
    · refine ⟨[], run :: runs, fun {ts} hts => ?_⟩
      rw [List.cons_append, operandRuns_cons t (by simp), if_pos ht, h hts]
      rfl
    · refine ⟨t :: run, runs, fun {ts} hts => ?_⟩
      rw [List.cons_append, operandRuns_cons t (by simp), if_neg ht, h hts]

/-- The runs behind a separator do not depend on what goes before it. -/
theorem exists_runs_after {back : List Token}
    (hb : ∀ t, back.head? = some t → t.kind = .separator) :
    ∃ runs, ∀ {ts : List Token}, ts ≠ [] → (∀ t ∈ ts, t.kind ≠ .separator) →
      operandRuns (ts ++ back) = ts :: runs := by
  cases back with
  | nil =>
    refine ⟨[], fun {ts} hne hts => ?_⟩
    rw [List.append_nil, operandRuns_single hne hts]
  | cons sep back =>
    obtain ⟨runs, hruns⟩ := operandRuns_separator (hb sep rfl) back
    refine ⟨runs, fun {ts} hne hts => ?_⟩
    induction ts with
    | nil => exact absurd rfl hne
    | cons t ts ih =>
      obtain ⟨ht, hts⟩ := List.forall_mem_cons.1 hts
      rw [List.cons_append, operandRuns_cons t (by simp), if_neg ht]
      by_cases hempty : ts = []
      · rw [hempty, List.nil_append, hruns]
      · rw [ih hempty hts]

end Instruction

/-! ## Tokens without labels -/

theorem nameTokens_cons_of_ne {t : Token} (hd : t.kind ≠ .labelDef) (hu : t.kind ≠ .labelUse)
    (scope : Bytes) (ts : List Token) :
    nameTokens scope (t :: ts) = t :: nameTokens scope ts := by
  have hopens : t.opensScope = false := by simp [Token.opensScope, hd]
  rw [nameTokens, qualify_snd, hopens, Token.named, if_neg (by simp [hd, hu])]
  rfl

theorem nameTokens_append (scope : Bytes) (ts us : List Token) :
    nameTokens scope (ts ++ us) = nameTokens scope ts ++ nameTokens (scopeAfter scope ts) us := by
  induction ts generalizing scope with
  | nil => rfl
  | cons t ts ih => rw [List.cons_append, nameTokens, nameTokens, ih]; rfl

theorem scopeAfter_of_ne {ts : List Token} (h : ∀ t ∈ ts, t.kind ≠ .labelDef) (scope : Bytes) :
    scopeAfter scope ts = scope := by
  have hopens : ts.filter Token.opensScope = [] :=
    List.filter_eq_nil_iff.2 fun t ht => by simp [Token.opensScope, h t ht]
  rw [scopeAfter_eq, hopens]
  rfl

theorem map_kind_nameTokens (scope : Bytes) (ls : List Lexeme) :
    (nameTokens scope (ls.map Token.ofLexeme)).map (·.kind) = ls.map (·.kind) := by
  have hbare := congrArg (List.map fun t : Token => t.kind)
    (map_bare_nameTokens scope (ls.map Token.ofLexeme))
  rw [List.map_map, List.map_map, List.map_map] at hbare
  exact hbare

theorem forall_kind_nameTokens {P : Kind → Prop} {ls : List Lexeme} (h : ∀ l ∈ ls, P l.kind)
    (scope : Bytes) : ∀ t ∈ nameTokens scope (ls.map Token.ofLexeme), P t.kind := by
  intro t ht
  have hmem : t.kind ∈ (nameTokens scope (ls.map Token.ofLexeme)).map (·.kind) :=
    List.mem_map_of_mem ht
  rw [map_kind_nameTokens] at hmem
  obtain ⟨l, hl, hk⟩ := List.mem_map.1 hmem
  exact hk ▸ h l hl

theorem filter_nameTokens_eq_nil {ls : List Lexeme} {k : Kind} (h : ∀ l ∈ ls, l.kind ≠ k)
    (scope : Bytes) : (nameTokens scope (ls.map Token.ofLexeme)).filter (·.kind == k) = [] := by
  have hall := forall_kind_nameTokens (P := (· ≠ k)) h scope
  exact List.filter_eq_nil_iff.2 fun t ht => by simpa using hall t ht

/-! ## Where operands stand -/

/-- The kinds of what goes before an operand : labels and an opcode, or anything up to a
separator. -/
inductive OperandNext : List Kind → Prop
  | opcode {labels : List Kind} {k : Kind} (hl : ∀ l ∈ labels, l = .labelDef) (hk : k ≠ .labelDef) :
      OperandNext (labels ++ [k])
  | separator {ks : List Kind} : OperandNext (ks ++ [.separator])

namespace Instruction

variable {front back ts us : List Token}

theorem reading_cons {opcode : Token} (h : opcode.kind ≠ .labelDef) (rest : List Token) :
    reading (opcode :: rest) =
      match shape? opcode with
      | none => .error .form
      | some shape => (ofRuns Operand.parse id shape (operandRuns rest)).map some := by
  have hdrop : (opcode :: rest).dropWhile (·.kind == .labelDef) = opcode :: rest :=
    List.dropWhile_cons_of_neg (by simpa using h)
  cases hshape : shape? opcode with
  | none => simp only [reading, hdrop, hshape]
  | some shape => simp only [reading, hdrop, hshape]

/-- The labels in front of tokens. -/
theorem exists_labels_append (ts : List Token) : ∃ labels rest, ts = labels ++ rest ∧
    (∀ t ∈ labels, t.kind = .labelDef) ∧ ∀ t, rest.head? = some t → t.kind ≠ .labelDef := by
  refine ⟨ts.takeWhile (·.kind == .labelDef), ts.dropWhile (·.kind == .labelDef),
    List.takeWhile_append_dropWhile.symm, fun t ht => ?_, fun t ht => ?_⟩
  · have hlabel := List.mem_takeWhile_imp ht
    simpa using hlabel
  · have hhead := List.head?_dropWhile_not (fun t : Token => t.kind == .labelDef) ts
    rw [ht] at hhead
    simpa using hhead

theorem reading_labels {labels : List Token} (h : ∀ t ∈ labels, t.kind = .labelDef)
    (ts : List Token) : reading (labels ++ ts) = reading ts := by
  rw [reading, reading, List.dropWhile_append_of_pos fun t ht => by simpa using h t ht]

/-- What goes before an operand either is no instruction, or decides the opcode and the operands
before. -/
theorem reading_cases (h : OperandNext (front.map (·.kind))) :
    (∀ ts, reading (front ++ ts) = .error .form) ∨
      ∃ shape runs, ∀ {ts}, ts ≠ [] → reading (front ++ ts) =
        (ofRuns Operand.parse id shape (runs ++ operandRuns ts)).map some := by
  -- behind an opcode the operands so far are runs before the next one
  have hopcode {opcode : Token} (hk : opcode.kind ≠ .labelDef) {rest : List Token}
      {runs : List (List Token)}
      (hruns : ∀ {ts}, ts ≠ [] → operandRuns (rest ++ ts) = runs ++ operandRuns ts) :
      (∀ ts, reading (opcode :: rest ++ ts) = .error .form) ∨
        ∃ shape runs, ∀ {ts}, ts ≠ [] → reading (opcode :: rest ++ ts) =
          (ofRuns Operand.parse id shape (runs ++ operandRuns ts)).map some := by
    cases hshape : shape? opcode with
    | none =>
      refine .inl fun ts => ?_
      rw [List.cons_append, reading_cons hk, hshape]
    | some shape =>
      refine .inr ⟨shape, runs, fun {ts} hts => ?_⟩
      rw [List.cons_append, reading_cons hk, hshape, ← hruns hts]
  generalize hks : front.map (·.kind) = ks at h
  cases h with
  | opcode hl hk =>
    obtain ⟨labels, more, rfl, rfl, hmore⟩ := List.map_eq_append_iff.1 hks
    obtain ⟨op, rfl, rfl⟩ := List.map_eq_singleton_iff.1 hmore
    have hlabels : ∀ t ∈ labels, t.kind = .labelDef := fun t ht => hl _ (List.mem_map_of_mem ht)
    simp only [List.append_assoc, reading_labels hlabels]
    have hnone : ∀ {ts}, ts ≠ [] → operandRuns ([] ++ ts) = [] ++ operandRuns ts := fun _ => rfl
    exact hopcode hk hnone
  | separator =>
    obtain ⟨first, more, rfl, -, hmore⟩ := List.map_eq_append_iff.1 hks
    obtain ⟨sep, rfl, hsep⟩ := List.map_eq_singleton_iff.1 hmore
    obtain ⟨labels, rest, rfl, hlabels, hrest⟩ := exists_labels_append first
    simp only [List.append_assoc, reading_labels hlabels]
    cases rest with
    | nil =>
      refine .inl fun ts => ?_
      have hshape : shape? sep = none := by
        unfold shape?
        rw [hsep]
      rw [List.nil_append, List.singleton_append, reading_cons (by simp [hsep]), hshape]
    | cons op rest =>
      obtain ⟨run, runs, hruns⟩ := exists_runs_before rest hsep
      have hbefore : ∀ {ts}, ts ≠ [] →
          operandRuns (rest ++ [sep] ++ ts) = run :: runs ++ operandRuns ts := by
        intro ts hts
        rw [List.append_assoc, List.singleton_append, hruns hts]
        rfl
      have hread := hopcode (hrest op rfl) hbefore
      simp only [List.cons_append, List.append_assoc] at hread ⊢
      exact hread

theorem reading_congr (hf : OperandNext (front.map (·.kind)))
    (hb : ∀ t, back.head? = some t → t.kind = .separator) (hts : ts ≠ [])
    (hts' : ∀ t ∈ ts, t.kind ≠ .separator) (hus : us ≠ []) (hus' : ∀ t ∈ us, t.kind ≠ .separator)
    (h : ∀ side, Operand.parse ts side = Operand.parse us side) :
    reading (front ++ (ts ++ back)) = reading (front ++ (us ++ back)) := by
  rcases reading_cases hf with hform | ⟨shape, runs, hruns⟩
  · rw [hform, hform]
  · obtain ⟨after, hafter⟩ := exists_runs_after hb
    have hsame : List.Forall₂ (fun r r' => ∀ side, Operand.parse r side = Operand.parse r' side)
        (runs ++ ts :: after) (runs ++ us :: after) :=
      List.rel_append (List.forall₂_same.2 fun _ _ _ => rfl)
        (.cons h (List.forall₂_same.2 fun _ _ _ => rfl))
    rw [hruns (by simp [hts]), hruns (by simp [hus]), hafter hts hts', hafter hus hus',
      ofRuns_congr hsame]

end Instruction

end Asm16
