import Asm16.Proofs.LateErrors
import Asm16.Proofs.Placement

/-!
# What words come from

Every word of a line has a source (`Line.sources`) : the form of the line decides it, or it is the
value of an expression. The words of a line that encodes are those of its sources
(`Line.map_word_sources`), and in an image they stand from the address of the line on
(`Packed.getElem?_eq`). The label uses in the expressions are tokens of the line
(`Line.mem_tokens_of_source`).
-/

namespace Asm16

/-! ## Sources -/

/-- What a word of a line comes from. -/
inductive WordSource where
  /-- The form of the line decides it : it is the first word of an instruction, a character of a
  string, or a word that is left free. -/
  | fixed (w : UInt16)
  /-- It is the value of an expression. -/
  | value (ts : List Token)

namespace WordSource

/-- The word that comes from a source. -/
def word : WordSource → UInt16
  | fixed w => w
  | value ts => UInt16.ofInt ((evaluateTokens ts).toOption.getD 0)

/-- The label uses in its expression. -/
def labelUses : WordSource → List Token
  | fixed _ => []
  | value ts => ts.filter (·.kind == .labelUse)

/-- A word that comes from a lone label use is its address. -/
theorem word_of_lone {t : Token} {addr : Int} (h : t.value = some (.resolved addr)) :
    (value [t]).word = UInt16.ofInt addr := by
  have hvalue : t.value? = some addr := by
    rw [Lexeme.value?, h]
    rfl
  simp [word, evaluateTokens, hvalue, Except.toOption]

end WordSource

/-- What the word of an operand comes from, if it has one. -/
def Operand.sources (o : Operand) : List WordSource := o.expr.toList.map .value

/-- What the words of an instruction come from : its first word, then those of A and of B. -/
def Instruction.sources : Instruction → List WordSource
  | basic op b a => .fixed (basicWord op.code b.code a.code) :: (a.sources ++ b.sources)
  | special op a => .fixed (specialWord op.code a.code) :: a.sources

/-- What the words of a data value come from. -/
def valueSources (run : List Token) : List WordSource :=
  match loneString? run with
  | some contents => (Utf8.chars contents).map fun c => .fixed (UInt16.ofNat c.toNat)
  | none => [.value run]

/-- What the words of a line come from, in order. -/
def Line.sources (l : Line) : List WordSource :=
  match l.kind? with
  | some .data => (l.dataValues.toOption.getD []).flatMap valueSources
  | some .origin | some .align | some .reserve => List.replicate l.size.toNat (.fixed 0)
  | _ => l.code.elim [] Instruction.sources

/-! ## The words that are encoded -/

theorem Operand.map_word_sources {o : Operand} {ws : List UInt16} (h : o.encode = .ok ws) :
    o.sources.map WordSource.word = ws := by
  unfold encode at h
  unfold sources
  cases hexpr : o.expr with
  | none =>
    rw [hexpr] at h
    exact Except.ok.inj h
  | some ts =>
    rw [hexpr] at h
    obtain ⟨v, hv, h⟩ := bind_eq_ok.1 h
    obtain rfl := Except.ok.inj h
    simp [WordSource.word, hv, Except.toOption]

theorem Instruction.map_word_sources {c : Instruction} {ws : List UInt16} (h : c.encode = .ok ws) :
    c.sources.map WordSource.word = ws := by
  cases c with
  | basic op b a =>
    obtain ⟨forA, hA, h⟩ := bind_eq_ok.1 h
    obtain ⟨forB, hB, h⟩ := bind_eq_ok.1 h
    obtain rfl := Except.ok.inj h
    rw [sources, List.map_cons, List.map_append, Operand.map_word_sources hA,
      Operand.map_word_sources hB]
    rfl
  | special op a =>
    obtain ⟨forA, hA, h⟩ := bind_eq_ok.1 h
    obtain rfl := Except.ok.inj h
    rw [sources, List.map_cons, Operand.map_word_sources hA]
    rfl

theorem map_word_valueSources {text : Bytes} {run : List Token} {ws : List UInt16}
    (h : encodeValue text run = .ok ws) : (valueSources run).map WordSource.word = ws := by
  unfold encodeValue at h
  unfold valueSources
  cases hs : loneString? run with
  | some contents =>
    simp only [hs] at h ⊢
    obtain rfl := Except.ok.inj h
    exact List.map_map
  | none =>
    simp only [hs] at h ⊢
    cases hv : evaluateTokens run with
    | ok v =>
      simp only [hv] at h
      obtain rfl := Except.ok.inj h
      simp [WordSource.word, hv, Except.toOption]
    | error cause =>
      simp only [hv] at h
      cases h

theorem map_word_dataSources {text : Bytes} {runs : List (List Token)} {ws : List UInt16}
    (h : encodeValues text runs = .ok ws) :
    (runs.flatMap valueSources).map WordSource.word = ws := by
  induction runs generalizing ws with
  | nil => exact Except.ok.inj h
  | cons run rest ih =>
    obtain ⟨here, hhere, h⟩ := bind_eq_ok.1 h
    obtain ⟨more, hmore, h⟩ := bind_eq_ok.1 h
    obtain rfl := Except.ok.inj h
    rw [List.flatMap_cons, List.map_append, map_word_valueSources hhere, ih hmore]

theorem Line.map_word_code {l : Line} {block : Block}
    (hk : l.kind? = none ∨ l.kind? = some .inclusion ∨ l.kind? = some .define)
    (h : l.encode = .ok block) :
    (l.code.elim [] Instruction.sources).map WordSource.word = block.toWords := by
  rcases hk with hk | hk | hk
  all_goals
    simp only [encode, hk] at h
    cases hc : l.code with
    | none =>
      rw [hc] at h
      obtain rfl := Except.ok.inj h
      rfl
    | some c =>
      simp only [hc] at h
      split at h
      · rename_i ws hws
        obtain rfl := Except.ok.inj h
        exact Instruction.map_word_sources hws
      · cases h

/-- The words of a line are those of their sources. -/
theorem Line.map_word_sources {l : Line} {block : Block} (h : l.encode = .ok block) :
    l.sources.map WordSource.word = l.encoded := by
  rw [encoded_of_encode h]
  unfold sources
  cases hk : l.kind? with
  | none => exact map_word_code (.inl hk) h
  | some k =>
    cases k with
    | data =>
      simp only [encode, hk] at h
      obtain ⟨runs, hruns, h⟩ := bind_eq_ok.1 h
      obtain ⟨ws, hws, h⟩ := bind_eq_ok.1 h
      obtain rfl := Except.ok.inj h
      simp only [hruns]
      exact map_word_dataSources hws
    | origin | align | reserve =>
      simp only [encode, hk] at h
      split at h
      · cases h
      · obtain rfl := Except.ok.inj h
        exact List.map_replicate
    | inclusion => exact map_word_code (.inr (.inl hk)) h
    | define => exact map_word_code (.inr (.inr hk)) h

/-- A word of a line, by its place in the image. -/
theorem Packed.getElem?_eq {lines : List Line} {img : Image} {more : List UInt16}
    (h : Packed 0 lines) (hw : img.words.toList = lines.flatMap Line.encoded ++ more) {l : Line}
    (hl : l ∈ lines) {k : Nat} (hk : k < l.encoded.length) :
    img.words[(l.offset + k).toNat]? = l.encoded[k]? := by
  obtain ⟨pos, hat⟩ := h.exists_at hl
  obtain ⟨rest, hdrop⟩ := h.drop_eq hw hl
  have hplace : (l.offset + k).toNat = l.offset.toNat + k := by
    rw [hat.offset_eq]
    omega
  rw [hplace, ← Array.getElem?_toList, ← List.getElem?_drop, hdrop, List.getElem?_append_left hk]

/-! ## Label uses in expressions -/

theorem Operand.mem_labelUses_of_source {o : Operand} {s : WordSource} (hs : s ∈ o.sources)
    {t : Token} (ht : t ∈ s.labelUses) : t ∈ o.labelUses := by
  obtain ⟨ts, hts, rfl⟩ := List.mem_map.1 hs
  rw [labelUses, Option.mem_toList.1 hts]
  exact ht

theorem Instruction.mem_labelUses_of_source {c : Instruction} {s : WordSource} (hs : s ∈ c.sources)
    {t : Token} (ht : t ∈ s.labelUses) : t ∈ c.labelUses := by
  cases c with
  | basic op b a =>
    rcases List.mem_cons.1 hs with rfl | hs
    · cases ht
    · rcases List.mem_append.1 hs with hs | hs
      · exact List.mem_append_right _ (Operand.mem_labelUses_of_source hs ht)
      · exact List.mem_append_left _ (Operand.mem_labelUses_of_source hs ht)
  | special op a =>
    rcases List.mem_cons.1 hs with rfl | hs
    · cases ht
    · exact Operand.mem_labelUses_of_source hs ht

theorem mem_of_valueSources {run : List Token} {s : WordSource} (hs : s ∈ valueSources run)
    {t : Token} (ht : t ∈ s.labelUses) : t ∈ run := by
  unfold valueSources at hs
  split at hs
  · obtain ⟨c, -, rfl⟩ := List.mem_map.1 hs
    cases ht
  · obtain rfl := List.mem_singleton.1 hs
    exact (List.mem_filter.1 ht).1

/-- The label uses in the expressions of a line are tokens of the line. -/
theorem Line.mem_tokens_of_source {l : Line} {offset : Int}
    (hm : l.measure offset = .ok (l.size, l.code)) {s : WordSource} (hs : s ∈ l.sources)
    {t : Token} (ht : t ∈ s.labelUses) : t ∈ l.tokens := by
  have hcode (hs : s ∈ l.code.elim [] Instruction.sources) : t ∈ l.tokens := by
    cases hc : l.code with
    | none =>
      rw [hc] at hs
      cases hs
    | some c =>
      rw [hc] at hs
      have huse := Instruction.mem_labelUses_of_source hs ht
      exact (List.mem_filter.1
        (Instruction.labelUse_mem_of_parse (measure_code hm hc).1 huse)).1
  unfold sources at hs
  cases hk : l.kind? with
  | none => exact hcode (by rwa [hk] at hs)
  | some k =>
    rw [hk] at hs
    cases k with
    | data =>
      obtain ⟨runs, hruns, -⟩ := measure_data hm hk
      simp only [hruns] at hs
      obtain ⟨run, hrun, hs⟩ := List.mem_flatMap.1 hs
      exact (List.mem_filter.1
        (mem_significant_of_dataValues hruns hrun (mem_of_valueSources hs ht))).1
    -- reserved words are zeros and use no label
    | origin | align | reserve =>
      rw [List.eq_of_mem_replicate hs] at ht
      cases ht
    | inclusion | define => exact hcode hs

end Asm16
