import Asm16.Proofs.Forms
import Asm16.Proofs.Scopes
import Asm16.Proofs.Sizes

/-!
# Label resolution

Every label use of an accepted program has the address of the one line that defines its name,
wherever the two stand (`Passes.exists_definition`). The names are full names, by the scope of the
flattened lines, and compared by `Assembler.labelKey`. `Read` and `Passes` say what reading leaves
and what the passes after it make of that; labels are followed through them by their positions.

A program that uses a name no line defines has an error about the first such use
(`parse_eq_labelMissing`), and one whose flattened lines define a key twice has an error about that
(`parse_eq_duplicateLabel`).
-/

namespace Asm16

/-! ## Definitions and uses by position -/

section Positions

variable {lines : List Line} {i j i' j' : Nat} {l l' : Line} {t t' : Token}

theorem TokenAt.mem_line {kind : Kind} (h : TokenAt lines kind i j l t) : l ∈ lines :=
  List.mem_of_getElem? h.line_eq

theorem TokenAt.mem_tokens {kind : Kind} (h : TokenAt lines kind i j l t) : t ∈ l.tokens :=
  List.mem_of_getElem? h.token_eq

theorem TokenAt.mem_filter {kind : Kind} (h : TokenAt lines kind i j l t) :
    t ∈ l.tokens.filter (·.kind == kind) :=
  List.mem_filter.2 ⟨h.mem_tokens, beq_iff_eq.2 h.kind_eq⟩

theorem exists_tokenAt {kind : Kind} (hl : lines[i]? = some l) (ht : t ∈ l.tokens)
    (hk : t.kind = kind) : ∃ j, TokenAt lines kind i j l t := by
  obtain ⟨j, hj⟩ := List.mem_iff_getElem?.1 ht
  exact ⟨j, hl, hj, hk⟩

theorem mem_definitions {index : Nat} {label : Label} : label ∈ definitions index lines ↔
    ∃ i j l t, TokenAt lines .labelDef i j l t ∧
      label = ⟨t.symbol, t.isLocal, l.site, index + i, 0⟩ := by
  induction lines generalizing index with
  | nil =>
    refine ⟨nofun, ?_⟩
    rintro ⟨i, j, l, t, ht, -⟩
    cases ht.mem_line
  | cons l rest ih =>
    rw [definitions, List.mem_append, ih]
    constructor
    · rintro (h | ⟨i, j, m, t, ⟨hm, ht, hk⟩, rfl⟩)
      · obtain ⟨t, ht, rfl⟩ := List.mem_map.1 h
        obtain ⟨ht, hk⟩ := List.mem_filter.1 ht
        have hl : (l :: rest)[0]? = some l := rfl
        obtain ⟨j, hj⟩ := exists_tokenAt hl ht (by simpa using hk)
        exact ⟨0, j, l, t, hj, rfl⟩
      · exact ⟨i + 1, j, m, t, ⟨hm, ht, hk⟩, by rw [Nat.add_assoc, Nat.add_comm 1]⟩
    · rintro ⟨i, j, m, t, ht, rfl⟩
      cases i with
      | zero =>
        obtain rfl : l = m := by simpa using ht.line_eq
        exact .inl (List.mem_map.2 ⟨t, ht.mem_filter, rfl⟩)
      | succ i =>
        exact .inr ⟨i, j, m, t, ⟨ht.line_eq, ht.token_eq, ht.kind_eq⟩,
          by rw [Nat.add_assoc, Nat.add_comm 1]⟩

theorem TokenAt.mem_uses (h : TokenAt lines .labelUse i j l t) :
    ⟨t.symbol, l.site, .pending⟩ ∈ uses lines :=
  List.mem_flatMap.2 ⟨l, h.mem_line, List.mem_map.2 ⟨t, h.mem_filter, rfl⟩⟩

/-- The keys of the labels that lines define. -/
def definedKeys (key : Bytes → Bytes) (lines : List Line) : List Bytes :=
  lines.flatMap fun l => (l.tokens.filter (·.kind == .labelDef)).map fun t => key t.symbol

theorem map_key_definitions (key : Bytes → Bytes) (index : Nat) (lines : List Line) :
    ((definitions index lines).map fun l => key l.name) = definedKeys key lines := by
  induction lines generalizing index with
  | nil => rfl
  | cons l rest ih =>
    rw [definitions, List.map_append, ih]
    simp [definedKeys, definitionsOf, Function.comp_def]

theorem rel_of_pairwise {α : Type} {R : α → α → Prop} {xs : List α} (h : xs.Pairwise R) {i j : Nat}
    {x y : α} (hx : xs[i]? = some x) (hy : xs[j]? = some y) (hij : i < j) : R x y := by
  obtain ⟨hi, rfl⟩ := List.getElem?_eq_some_iff.1 hx
  obtain ⟨hj, rfl⟩ := List.getElem?_eq_some_iff.1 hy
  exact List.pairwise_iff_getElem.1 h i j hi hj hij

/-- Distinct keys are defined at one place each. -/
theorem TokenAt.position_eq {key : Bytes → Bytes} (hkeys : (definedKeys key lines).Nodup)
    (h : TokenAt lines .labelDef i j l t) (h' : TokenAt lines .labelDef i' j' l' t')
    (hkey : key t.symbol = key t'.symbol) : i = i' ∧ j = j' := by
  obtain ⟨hin, hacross⟩ := List.pairwise_flatMap.1 hkeys
  have hdef {i j : Nat} {l : Line} {t : Token} (h : TokenAt lines .labelDef i j l t) :
      (t.kind == .labelDef) = true := beq_iff_eq.2 h.kind_eq
  have hmem {i j : Nat} {l : Line} {t : Token} (h : TokenAt lines .labelDef i j l t) :
      key t.symbol ∈ (l.tokens.filter (·.kind == .labelDef)).map fun t => key t.symbol :=
    List.mem_map.2 ⟨t, h.mem_filter, rfl⟩
  rcases Nat.lt_trichotomy i i' with hlt | rfl | hlt
  · exact absurd hkey (rel_of_pairwise hacross h.line_eq h'.line_eq hlt _ (hmem h) _ (hmem h'))
  · obtain rfl : l = l' := Option.some.inj (h.line_eq.symm.trans h'.line_eq)
    have hline := List.pairwise_filter.1 (List.pairwise_map.1 (hin l h.mem_line))
    rcases Nat.lt_trichotomy j j' with hlt | rfl | hlt
    · exact absurd hkey (rel_of_pairwise hline h.token_eq h'.token_eq hlt (hdef h) (hdef h'))
    · exact ⟨rfl, rfl⟩
    · exact absurd hkey.symm (rel_of_pairwise hline h'.token_eq h.token_eq hlt (hdef h') (hdef h))
  · exact absurd hkey.symm (rel_of_pairwise hacross h'.line_eq h.line_eq hlt _ (hmem h') _ (hmem h))

/-- The first use that `bad` picks, by its position. -/
theorem tokenAt_of_find?_uses {bad : Use → Bool} {u : Use} (h : (uses lines).find? bad = some u) :
    ∃ i j l t, TokenAt lines .labelUse i j l t ∧ u = ⟨t.symbol, l.site, .pending⟩ ∧
      ∀ {i' j' l' t'}, TokenAt lines .labelUse i' j' l' t' → (i' < i ∨ i' = i ∧ j' < j) →
        bad ⟨t'.symbol, l'.site, .pending⟩ = false := by
  -- the line is the first with such a use, and the token is the first of them in the line
  rw [uses, List.find?_flatMap] at h
  obtain ⟨before, l, after, rfl, hl, hbefore⟩ := List.findSome?_eq_some_iff.1 h
  rw [usesOf, List.find?_map, List.find?_filter] at hl
  obtain ⟨t, ht, rfl⟩ := Option.map_eq_some_iff.1 hl
  obtain ⟨hbad, j, hj, rfl, hfirst⟩ := List.find?_eq_some_iff_getElem.1 ht
  obtain ⟨hkind, -⟩ : l.tokens[j].kind = .labelUse ∧ _ := by simpa using hbad
  refine ⟨before.length, j, l, l.tokens[j], ⟨by simp, by simp [hj], hkind⟩, rfl, ?_⟩
  rintro i' j' l' t' ht' (hlt | ⟨rfl, hlt⟩)
  · have hl' : before[i']? = some l' := by rw [← ht'.line_eq, List.getElem?_append_left hlt]
    have hnone := hbefore l' (List.mem_of_getElem? hl')
    rw [List.find?_eq_none] at hnone
    have hmem : (⟨t'.symbol, l'.site, .pending⟩ : Use) ∈ usesOf l'.site l'.tokens :=
      List.mem_map.2 ⟨t', ht'.mem_filter, rfl⟩
    simpa using hnone _ hmem
  · obtain rfl : l = l' := by simpa using ht'.line_eq
    obtain ⟨hj', rfl⟩ := List.getElem?_eq_some_iff.1 ht'.token_eq
    simpa [ht'.kind_eq] using hfirst j' hlt

end Positions

/-- The label uses in the operands of a line that is laid out are tokens of the line. -/
theorem Laid.labelUse_mem {lines : List Line} {offset : Int} (h : Laid offset lines) {l : Line}
    (hl : l ∈ lines) {c : Instruction} (hc : l.code = some c) {t : Token} (ht : t ∈ c.labelUses) :
    t ∈ l.tokens := by
  have hm := h.measure_eq hl
  have := Instruction.labelUse_mem_of_parse (Line.measure_code hm hc).1 ht
  exact (List.mem_filter.1 this).1

/-! ## The labels that reading leaves -/

namespace Assembler

variable {asm : Assembler} {name text : Bytes} {lines : List Line}

/-- What the label names of a program are compared by. -/
def labelKey (asm : Assembler) : Bytes → Bytes := nameKey asm.caseFold

theorem key_eq_labelKey {t : SymbolTable} (h : t.caseFold = asm.caseFold) :
    t.key = asm.labelKey := by
  funext n
  simp only [labelKey, SymbolTable.key, h]

/-- A program is read : its lines are the flattened ones with full names, its table holds their
labels, no two with one key, and what is not recognised in them is recorded. -/
structure Read (asm : Assembler) (lines : List Line) (program : Assembly) : Prop where
  lines_eq : program.lines = nameLines [] lines
  symbols_eq : program.symbols =
    Ledger.table ⟨asm.caseFold, definitions 0 program.lines, uses program.lines⟩
  nodup : (definedKeys asm.labelKey program.lines).Nodup
  lexErrors_eq : program.lexErrors = program.lines.flatMap Line.lexErrors

theorem Read.symbol_eq {program : Assembly} (h : asm.Read lines program) {kind : Kind} {i j : Nat}
    {l : Line} {t : Token} {n : Bytes} (hk : kind = .labelDef ∨ kind = .labelUse)
    (ht : LabelAt program.lines kind i j l t n) : t.symbol = n := by
  rw [h.lines_eq] at ht
  exact ht.symbol_eq hk

/-- The labels that lines define, with the addresses of the lines `placed`. -/
def locatedDefinitions (lines placed : List Line) : List Label :=
  (definitions 0 lines).map (Label.locate ((placed.map (·.offset)).toArray.getD · 0))

theorem Read.locatedSymbols_eq {program : Assembly} (h : asm.Read lines program)
    (placed : List Line) : program.locatedSymbols placed =
      Ledger.table ⟨asm.caseFold, locatedDefinitions program.lines placed, uses program.lines⟩ := by
  rw [Assembly.locatedSymbols, h.symbols_eq]
  exact Ledger.locate_table _ _

/-- Entering the labels of a whole program succeeds exactly if their keys are pairwise distinct. -/
theorem enter_start (asm : Assembler) (defines : Defines) (lines : List Line) :
    (definedKeys asm.labelKey (nameLines [] lines)).Nodup ∧ (∃ q, (asm.start defines).enter lines =
        .ok (nameLines [] lines, q) ∧ q.symbols = Ledger.table
          ⟨asm.caseFold, definitions 0 (nameLines [] lines), uses (nameLines [] lines)⟩) ∨
      ¬(definedKeys asm.labelKey (nameLines [] lines)).Nodup ∧
        ∃ pair, (asm.start defines).enter lines = .error (clashError pair) := by
  have hnodup : (definedKeys asm.labelKey (nameLines [] lines)).Nodup ↔
      clash? asm.labelKey [] (definitions 0 (nameLines [] lines)) = none := by
    rw [clash?_eq_none_iff (by simp), List.nil_append, map_key_definitions]
  have hstart : clash? (asm.start defines).symbols.key (asm.start defines).symbols.labels
      (definitions (asm.start defines).count (nameLines (asm.start defines).scope lines)) =
        clash? asm.labelKey [] (definitions 0 (nameLines [] lines)) := rfl
  rw [hnodup, Progress.enter_eq, SymbolTable.enter, hstart]
  cases clash? asm.labelKey [] (definitions 0 (nameLines [] lines)) with
  | none => exact .inl ⟨rfl, _, rfl, Ledger.extend_table ⟨asm.caseFold, [], []⟩ _ _⟩
  | some pair => exact .inr ⟨Option.some_ne_none pair, pair, rfl⟩

/-- Reading a program. -/
theorem read_of_readProgram {defines : Defines} {program : Assembly}
    (hd : asm.initialDefines = .ok defines)
    (hr : (asm.readProgram (Path.clean name) text defines).result = .ok program) :
    ∃ lines, asm.flatten name text = .ok lines ∧ asm.Read lines program := by
  obtain ⟨lines, q, hflat, henter, hsymbols, hlex⟩ := enter_of_readProgram hd hr
  rcases enter_start asm defines lines with ⟨hnodup, r, hr, hrs⟩ | ⟨-, pair, he⟩
  · obtain ⟨hlines, rfl⟩ := Prod.mk.inj (Except.ok.inj (henter.symm.trans hr))
    refine ⟨lines, hflat, hlines, by rw [hsymbols, hrs, hlines], by rwa [hlines], ?_⟩
    rw [hlex, Progress.lexErrors_of_enter henter, hlines,
      flatMap_lexErrors_of_bare (map_bare_nameLines [] lines)]
    rfl
  · rw [he] at henter
    cases henter

/-! ## Accepted programs -/

/-- What the passes over a program leave : it was read, its lines were placed, and every label use
was resolved. -/
structure Passes (asm : Assembler) (lines : List Line) (program : Assembly) (placed : List Line)
    (a : Assembly) : Prop where
  read : asm.Read lines program
  placed_eq : placed.map Line.unplaced = program.lines.map Line.unplaced
  resolve_eq : (program.locatedSymbols placed).resolve = (a.symbols, none)
  lines_eq : a.lines = placed.map (Line.resolve a.symbols.offset?)

theorem exists_passes {a : Assembly} (h : asm.Accepts name text a) :
    ∃ lines program placed, asm.flatten name text = .ok lines ∧
      asm.Passes lines program placed a := by
  obtain ⟨defines, program, hd, hr, -, hres⟩ := parse_accepts h
  obtain ⟨lines, hflat, hread⟩ := read_of_readProgram hd hr
  obtain ⟨placed, symbols, hplaced, hresolve, rfl⟩ := Assembly.resolved_eq_ok hres
  exact ⟨lines, program, placed, hflat, hread, (layout_laid hplaced).2, hresolve, rfl⟩

namespace Passes

variable {program a : Assembly} {placed : List Line} (h : asm.Passes lines program placed a)

include h

theorem map_bare : a.lines.map Line.bare = program.lines.map Line.bare := by
  rw [h.lines_eq, map_bare_resolve, map_bare_of_unplaced h.placed_eq]

theorem labels_eq : a.symbols.labels = locatedDefinitions program.lines placed := by
  have := SymbolTable.resolve_labels (program.locatedSymbols placed)
  rw [h.resolve_eq] at this
  rw [this, h.read.locatedSymbols_eq, Ledger.table_labels]

theorem key_eq : a.symbols.key = asm.labelKey := by
  have := SymbolTable.resolve_caseFold (program.locatedSymbols placed)
  rw [h.resolve_eq] at this
  exact key_eq_labelKey (by rw [this, h.read.locatedSymbols_eq, Ledger.table_caseFold])

/-- A line got its address before its label uses were resolved. -/
theorem offset_eq {i : Nat} {l : Line} (hl : a.lines[i]? = some l) :
    (placed.map (·.offset)).toArray.getD i 0 = l.offset := by
  rw [h.lines_eq, List.getElem?_map] at hl
  obtain ⟨l', hl', rfl⟩ := Option.map_eq_some_iff.1 hl
  simp [Array.getD_eq_getD_getElem?, hl']

/-- The labels of the table are the definitions of the lines, with the addresses of these. -/
theorem mem_labels {label : Label} : label ∈ a.symbols.labels ↔
    ∃ i j l t n, LabelAt a.lines .labelDef i j l t n ∧
      label = ⟨n, t.isLocal, l.site, i, l.offset⟩ := by
  rw [h.labels_eq, locatedDefinitions, List.mem_map]
  constructor
  · rintro ⟨label, hlabel, rfl⟩
    obtain ⟨i, j, l, t, ht, rfl⟩ := mem_definitions.1 hlabel
    have hname : LabelAt program.lines .labelDef i j l t (fullName _ t) := ⟨ht, rfl⟩
    obtain ⟨l', t', ht', hl, htt⟩ := hname.of_bare h.map_bare
    refine ⟨i, j, l', t', _, ht', ?_⟩
    rw [Label.locate, h.read.symbol_eq (.inl rfl) hname, Nat.zero_add, h.offset_eq ht'.line_eq,
      ← Token.bare_isLocal, ← htt, ← Line.bare_site, ← hl]
    rfl
  · rintro ⟨i, j, l, t, n, ht, rfl⟩
    obtain ⟨l', t', ht', hl, htt⟩ := ht.of_bare h.map_bare.symm
    refine ⟨_, mem_definitions.2 ⟨i, j, l', t', ht'.toTokenAt, rfl⟩, ?_⟩
    rw [Label.locate, h.read.symbol_eq (.inl rfl) ht', Nat.zero_add, h.offset_eq ht.line_eq,
      ← Token.bare_isLocal, htt, ← Line.bare_site, hl]
    rfl

theorem nodup_keys : (a.symbols.labels.map fun l => asm.labelKey l.name).Nodup := by
  rw [h.labels_eq, locatedDefinitions, List.map_map]
  have := h.read.nodup
  rw [← map_key_definitions asm.labelKey 0] at this
  exact this

/-- Every name that is used has a definition. -/
theorem exists_lookup? {i j : Nat} {l : Line} {t : Token}
    (ht : TokenAt program.lines .labelUse i j l t) :
    ∃ label, a.symbols.lookup? t.symbol = some label := by
  have hnone := SymbolTable.resolve_snd (program.locatedSymbols placed)
  have hlook := SymbolTable.lookup?_resolve (program.locatedSymbols placed) t.symbol
  rw [h.resolve_eq] at hnone hlook
  have hmem : ⟨t.symbol, l.site, .pending⟩ ∈ (program.locatedSymbols placed).uses := by
    rw [h.read.locatedSymbols_eq, Ledger.mem_uses_table]
    exact ht.mem_uses
  have := List.find?_eq_none.1 hnone.symm _ hmem
  rw [hlook]
  exact Option.ne_none_iff_exists'.1 (by simpa using this)

/-- A label use has the address of the definition of its full name. -/
theorem value_eq {i j : Nat} {l : Line} {t : Token} {n : Bytes}
    (ht : LabelAt a.lines .labelUse i j l t n) :
    ∃ label, a.symbols.lookup? n = some label ∧ t.value = some (.resolved label.offset) := by
  obtain ⟨⟨hl, htok, hk⟩, hname⟩ := ht
  -- the token that was read at this place has the full name and no address yet
  rw [h.lines_eq, List.getElem?_map] at hl
  obtain ⟨l₀, hl₀, rfl⟩ := Option.map_eq_some_iff.1 hl
  have hline : (program.lines[i]?).map Line.unplaced = some l₀.unplaced := by
    rw [← List.getElem?_map, ← h.placed_eq, List.getElem?_map, hl₀]
    rfl
  obtain ⟨l₁, hl₁, hsame⟩ := Option.map_eq_some_iff.1 hline
  have htokens : l₁.unplaced.tokens = l₀.unplaced.tokens := by rw [hsame]
  rw [Line.resolve_tokens, List.getElem?_map] at htok
  obtain ⟨t₀, ht₀, rfl⟩ := Option.map_eq_some_iff.1 htok
  have hat : TokenAt program.lines .labelUse i j l₁ t₀ := ⟨hl₁, htokens ▸ ht₀, by simpa using hk⟩
  have hn : t₀.symbol = n := by
    rw [h.read.symbol_eq (.inr rfl) ⟨hat, rfl⟩, hname, ← fullName_bare, ← fullName_bare a.lines,
      h.map_bare, Token.bare_resolve]
  obtain ⟨label, hlabel⟩ := h.exists_lookup? hat
  rw [hn] at hlabel
  refine ⟨label, hlabel, ?_⟩
  rw [Token.resolve, if_pos hat.kind_eq]
  simp only [hn, SymbolTable.offset?, hlabel]
  rfl

/-- No two definitions of an accepted program have one key. -/
theorem position_eq {i j i' j' : Nat} {l l' : Line} {t t' : Token} {n n' : Bytes}
    (ht : LabelAt a.lines .labelDef i j l t n) (ht' : LabelAt a.lines .labelDef i' j' l' t' n')
    (hkey : asm.labelKey n = asm.labelKey n') : i = i' ∧ j = j' := by
  obtain ⟨_, _, hp, -⟩ := ht.of_bare h.map_bare.symm
  obtain ⟨_, _, hp', -⟩ := ht'.of_bare h.map_bare.symm
  refine hp.position_eq h.read.nodup hp'.toTokenAt ?_
  rw [h.read.symbol_eq (.inl rfl) hp, h.read.symbol_eq (.inl rfl) hp', hkey]

/-- A label use has the address of the one line that defines its name. -/
theorem exists_definition {i j : Nat} {l : Line} {t : Token} {n : Bytes}
    (ht : LabelAt a.lines .labelUse i j l t n) :
    ∃ i' j' l' t' n', LabelAt a.lines .labelDef i' j' l' t' n' ∧ asm.labelKey n' = asm.labelKey n ∧
      t.value = some (.resolved l'.offset) ∧
      ∀ {i'' j'' l'' t'' n''}, LabelAt a.lines .labelDef i'' j'' l'' t'' n'' →
        asm.labelKey n'' = asm.labelKey n → i'' = i' ∧ j'' = j' := by
  obtain ⟨label, hlookup, hvalue⟩ := h.value_eq ht
  obtain ⟨hmem, hkey⟩ := SymbolTable.mem_of_lookup? hlookup
  obtain ⟨i', j', l', t', n', ht', rfl⟩ := h.mem_labels.1 hmem
  rw [h.key_eq] at hkey
  exact ⟨i', j', l', t', n', ht', hkey, hvalue, fun ht'' hkey'' =>
    h.position_eq ht'' ht' (hkey''.trans hkey.symm)⟩

end Passes

theorem labelUse_mem_tokens {a : Assembly} (h : asm.Accepts name text a) {l : Line}
    (hl : l ∈ a.lines) {c : Instruction} (hc : l.code = some c) {t : Token}
    (ht : t ∈ c.labelUses) : t ∈ l.tokens :=
  (laid_of_accepts h).labelUse_mem hl hc ht

/-! ## Names that are missing, names that are taken -/

/-- Some line defines a label with the key of `n`. -/
def Defined (asm : Assembler) (lines : List Line) (n : Bytes) : Prop :=
  ∃ i j l t m, LabelAt lines .labelDef i j l t m ∧ asm.labelKey m = asm.labelKey n

/-- Two labels of the lines, at different places, are defined with one key. -/
def DefinedTwice (asm : Assembler) (lines : List Line) : Prop :=
  ∃ i j l t m i' j' l' t' m', LabelAt lines .labelDef i j l t m ∧
    LabelAt lines .labelDef i' j' l' t' m' ∧ asm.labelKey m = asm.labelKey m' ∧ ¬(i = i' ∧ j = j')

theorem Read.lookup?_isSome {program : Assembly} (h : asm.Read lines program) (placed : List Line)
    (n : Bytes) :
    ((program.locatedSymbols placed).lookup? n).isSome ↔ asm.Defined program.lines n := by
  rw [h.locatedSymbols_eq, SymbolTable.lookup?_isSome, key_eq_labelKey rfl]
  constructor
  · rintro ⟨label, hlabel, hk⟩
    obtain ⟨d, hd, rfl⟩ := List.mem_map.1 hlabel
    obtain ⟨i, j, l, t, ht, rfl⟩ := mem_definitions.1 hd
    exact ⟨i, j, l, t, _, ⟨ht, rfl⟩, by rw [← h.symbol_eq (.inl rfl) ⟨ht, rfl⟩, ← hk]; rfl⟩
  · rintro ⟨i, j, l, t, m, ht, hk⟩
    refine ⟨_, List.mem_map.2 ⟨_, mem_definitions.2 ⟨i, j, l, t, ht.toTokenAt, rfl⟩, rfl⟩, ?_⟩
    rw [← hk, ← h.symbol_eq (.inl rfl) ht]
    rfl

/-- The error of a program that uses a name no line defines is about the first such use. -/
theorem parse_eq_labelMissing {defines : Defines} {program : Assembly} {placed : List Line}
    (hd : asm.initialDefines = .ok defines)
    (hr : (asm.readProgram (Path.clean name) text defines).result = .ok program)
    (hlex : program.lexErrors = []) (hp : (layout 0 program.lines).result = .ok placed)
    {i j : Nat} {l : Line} {t : Token} {n : Bytes} (ht : LabelAt program.lines .labelUse i j l t n)
    (hn : ¬asm.Defined program.lines n) :
    ∃ i j l t n, LabelAt program.lines .labelUse i j l t n ∧ ¬asm.Defined program.lines n ∧
      (∀ {i' j' l' t' n'}, LabelAt program.lines .labelUse i' j' l' t' n' →
        (i' < i ∨ i' = i ∧ j' < j) → asm.Defined program.lines n') ∧
      (asm.parse name text).result = .error (.atLine l.site (.labelMissing n)) := by
  obtain ⟨lines, -, hread⟩ := read_of_readProgram hd hr
  have hsnd : (program.locatedSymbols placed).resolve.2 = (uses program.lines).find? fun u =>
      !((program.locatedSymbols placed).lookup? u.name).isSome := by
    rw [hread.locatedSymbols_eq, Ledger.resolve_table_snd]
  have hbad {m : Bytes} : (!((program.locatedSymbols placed).lookup? m).isSome) = true ↔
      ¬asm.Defined program.lines m := by
    rw [← hread.lookup?_isSome placed, Bool.not_eq_true', Bool.not_eq_true]
  cases hfind : (uses program.lines).find? fun u =>
      !((program.locatedSymbols placed).lookup? u.name).isSome with
  | none =>
    rw [← hread.symbol_eq (.inr rfl) ht, ← hbad] at hn
    exact absurd hn (List.find?_eq_none.1 hfind _ ht.mem_uses)
  | some u =>
    have hu := List.find?_some hfind
    obtain ⟨i, j, l, t, ht, rfl, hfirst⟩ := tokenAt_of_find?_uses hfind
    rw [hfind] at hsnd
    have hname : t.symbol = fullName (tokensBefore program.lines i j) t :=
      hread.symbol_eq (.inr rfl) ⟨ht, rfl⟩
    refine ⟨i, j, l, t, t.symbol, ⟨ht, hname⟩, hbad.1 hu, ?_, ?_⟩
    · intro i' j' l' t' n' ht' hlt
      rw [← hread.symbol_eq (.inr rfl) ht', ← hread.lookup?_isSome placed]
      simpa using hfirst ht'.toTokenAt hlt
    · rw [parse_eq_resolved hd hr hlex]
      exact map_eq_error.2 (Assembly.resolved_eq_error hp (Prod.ext rfl hsnd))

/-- A program whose flattened lines define one key twice is not accepted. -/
theorem parse_eq_duplicateLabel (hf : asm.flatten name text = .ok lines)
    (h : asm.DefinedTwice lines) : ∃ site n first,
      (asm.parse name text).result = .error (.atLine site (.duplicateLabel n first)) := by
  obtain ⟨i, j, l, t, m, i', j', l', t', m', ht, ht', hkey, hne⟩ := h
  obtain ⟨defines, hd, -⟩ := bind_eq_ok.1 hf
  rcases enter_start asm defines lines with ⟨hnodup, -⟩ | ⟨-, ⟨new, first⟩, he⟩
  · obtain ⟨_, _, hp, -⟩ := ht.of_bare (map_bare_nameLines [] lines)
    obtain ⟨_, _, hp', -⟩ := ht'.of_bare (map_bare_nameLines [] lines)
    refine absurd (hp.position_eq hnodup hp'.toTokenAt ?_) hne
    rw [hp.symbol_eq (.inl rfl), hp'.symbol_eq (.inl rfl), hkey]
  · exact ⟨new.site, new.name, first.site, parse_eq_error_of_enter hd hf he⟩

/-- The labels of an accepted program have pairwise distinct keys, and every label use has the
address of the one line that defines a name with its key, the copies in operands included. A program
that uses a name no line defines has an error about the first such use, and one whose flattened
lines define a key twice is not accepted. -/
theorem labelUse_value_eq_offset (asm : Assembler) (name text : Bytes) :
    (∀ a, asm.Accepts name text a →
      (∃ lines, asm.flatten name text = .ok lines ∧ a.lines.map Line.bare = lines.map Line.bare) ∧
      (a.symbols.labels.map fun label => asm.labelKey label.name).Nodup ∧
      (∀ label, label ∈ a.symbols.labels ↔ ∃ i j l t n, LabelAt a.lines .labelDef i j l t n ∧
        label = ⟨n, t.isLocal, l.site, i, l.offset⟩) ∧
      (∀ i j l t n, LabelAt a.lines .labelUse i j l t n →
        ∃ i' j' l' t' n', LabelAt a.lines .labelDef i' j' l' t' n' ∧
          asm.labelKey n' = asm.labelKey n ∧ t.value = some (.resolved l'.offset) ∧
          ∀ {i'' j'' l'' t'' n''}, LabelAt a.lines .labelDef i'' j'' l'' t'' n'' →
            asm.labelKey n'' = asm.labelKey n → i'' = i' ∧ j'' = j') ∧
      ∀ l ∈ a.lines, ∀ c, l.code = some c → ∀ t ∈ c.labelUses, t ∈ l.tokens) ∧
    (∀ defines program placed, asm.initialDefines = .ok defines →
      (asm.readProgram (Path.clean name) text defines).result = .ok program →
      program.lexErrors = [] → (layout 0 program.lines).result = .ok placed →
      (∃ i j l t n, LabelAt program.lines .labelUse i j l t n ∧ ¬asm.Defined program.lines n) →
      ∃ i j l t n, LabelAt program.lines .labelUse i j l t n ∧ ¬asm.Defined program.lines n ∧
        (∀ {i' j' l' t' n'}, LabelAt program.lines .labelUse i' j' l' t' n' →
          (i' < i ∨ i' = i ∧ j' < j) → asm.Defined program.lines n') ∧
        (asm.parse name text).result = .error (.atLine l.site (.labelMissing n))) ∧
    ∀ lines, asm.flatten name text = .ok lines → asm.DefinedTwice lines →
      ∃ site n first,
        (asm.parse name text).result = .error (.atLine site (.duplicateLabel n first)) := by
  refine ⟨fun a h => ?_, ?_, fun lines => parse_eq_duplicateLabel⟩
  · obtain ⟨lines, program, placed, hflat, hpass⟩ := exists_passes h
    have hbare : a.lines.map Line.bare = lines.map Line.bare := by
      rw [hpass.map_bare, hpass.read.lines_eq, map_bare_nameLines]
    exact ⟨⟨lines, hflat, hbare⟩, hpass.nodup_keys, fun label => hpass.mem_labels,
      fun i j l t n => hpass.exists_definition,
      fun l hl c hc t ht => labelUse_mem_tokens h hl hc ht⟩
  · rintro defines program placed hd hr hlex hp ⟨i, j, l, t, n, ht, hn⟩
    exact parse_eq_labelMissing hd hr hlex hp ht hn

/-- A local label is used in another document than its definition, a name is used that no line
defines, and a key is defined twice. -/
theorem sample_labelUse_value_eq_offset :
    (∃ a, sampleAssembler.Accepts "main" sampleText a ∧
      ∃ l t, LabelAt a.lines .labelUse 7 4 l t "main.loop" ∧
        ∃ i j l' t' n, LabelAt a.lines .labelDef i j l' t' n ∧
          sampleAssembler.labelKey n = sampleAssembler.labelKey "main.loop" ∧
          t.value = some (.resolved l'.offset)) ∧
    (∃ l : Line, ∃ n, (parse {} "main" "SET A, 1\nJSR end\nSET B, top").result =
      .error (.atLine l.site (.labelMissing n))) ∧
    ∃ site n first, (parse { caseFold := true } "main" "top: DAT 1\n.end:\nTop:").result =
      .error (.atLine site (.duplicateLabel n first)) := by
  refine ⟨?_, ?_, ?_⟩
  · obtain ⟨a, ha, hp⟩ := exists_accepts sampleAssembler "main" sampleText
      (fun a => decide (∃ l t, LabelAt a.lines .labelUse 7 4 l t "main.loop")) (by decide +kernel)
    obtain ⟨l, t, ht⟩ := of_decide_eq_true hp
    obtain ⟨-, -, -, huse, -⟩ := (labelUse_value_eq_offset sampleAssembler "main" sampleText).1 a ha
    obtain ⟨i, j, l', t', n, hdef, hkey, hvalue, -⟩ := huse 7 4 l t _ ht
    exact ⟨a, ha, l, t, ht, i, j, l', t', n, hdef, hkey, hvalue⟩
  · have hd : initialDefines {} = .ok ⟨0, []⟩ := by decide +kernel
    obtain ⟨program, hr, hp⟩ := exists_ok (x := (readProgram {} (Path.clean "main")
      "SET A, 1\nJSR end\nSET B, top" ⟨0, []⟩).result)
      (p := fun program => program.lexErrors.isEmpty &&
        (layout 0 program.lines).result.toOption.any (fun _ => true) &&
        decide (∃ l t, LabelAt program.lines .labelUse 1 2 l t "end") &&
        program.lines.all fun l => l.tokens.all (·.kind != .labelDef)) (by decide +kernel)
    simp only [Bool.and_eq_true, List.isEmpty_iff, decide_eq_true_eq] at hp
    obtain ⟨⟨⟨hlex, hlayout⟩, l, t, ht⟩, hnone⟩ := hp
    obtain ⟨placed, hplaced, -⟩ := exists_ok hlayout
    have hn : ¬Defined {} program.lines "end" := by
      rintro ⟨i, j, l, t, m, hdef, -⟩
      have := List.all_eq_true.1 (List.all_eq_true.1 hnone l hdef.mem_line) t hdef.mem_tokens
      simp [hdef.kind_eq] at this
    obtain ⟨-, -, l', -, n, -, -, -, he⟩ := (labelUse_value_eq_offset {} "main" _).2.1 _ program
      placed hd hr hlex hplaced ⟨1, 2, l, t, _, ht, hn⟩
    exact ⟨l', n, he⟩
  · obtain ⟨lines, hf, hp⟩ := exists_ok (x := flatten { caseFold := true } "main"
      "top: DAT 1\n.end:\nTop:")
      (p := fun lines => decide (∃ l t, LabelAt lines .labelDef 0 0 l t "top") &&
        decide (∃ l t, LabelAt lines .labelDef 2 0 l t "Top")) (by decide +kernel)
    simp only [Bool.and_eq_true, decide_eq_true_eq] at hp
    obtain ⟨⟨l, t, ht⟩, l', t', ht'⟩ := hp
    exact (labelUse_value_eq_offset { caseFold := true } "main" _).2.2 lines hf
      ⟨0, 0, l, t, _, 2, 0, l', t', _, ht, ht', by decide +kernel, by decide⟩

end Assembler

end Asm16
