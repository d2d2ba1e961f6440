import Asm16.Proofs.Inlining
import Mathlib.Data.List.Nodup

/-!
# Folding letter case

Label names are compared by their keys, and an assembler that folds letter case has fewer keys.
Reading a program that is accepted with letter case goes the same way without it, line by line
(`readLine_folded`) and through all included documents (`Reads.folded`), as long as no two of its
labels have one folded name (`SymbolTable.FoldsApart`). Every use has a definition already, and now
it has no other one (`SymbolTable.lookup?_folded`), so it gets the same address. Since names that
have different definitions stay apart, the uses are kept under as many keys as before
(`Ledger.folded_table`). If two labels have one folded name, two names became one, and reading stops
at the second of them.

Nothing is used about folding but that it is a function of names.
-/

namespace Asm16

/-! ## Tables -/

/-- The same labels and uses, with names compared without letter case. -/
def Ledger.folded (l : Ledger) : Ledger := { l with caseFold := true }

namespace SymbolTable

/-- The same labels and uses, entered with names compared without letter case. -/
def folded (t : SymbolTable) : SymbolTable := t.ledger.folded.table

/-- The folded names of the labels are pairwise distinct. -/
def FoldsApart (t : SymbolTable) : Prop := (t.labels.map fun l => foldText l.name).Nodup

variable {t : SymbolTable}

theorem FoldsApart.of_isPrefix {t' : SymbolTable} (h : t'.FoldsApart)
    (hlabels : t.labels <+: t'.labels) : t.FoldsApart :=
  h.sublist (hlabels.sublist.map _)

theorem key_of_not_caseFold (hcase : t.caseFold = false) (name : Bytes) : t.key name = name := by
  rw [key, nameKey, hcase, if_neg Bool.false_ne_true]

/-- A name that has a definition keeps it. -/
theorem lookup?_folded (hcase : t.caseFold = false) (h : t.FoldsApart) {name : Bytes} {l : Label}
    (hl : t.lookup? name = some l) : t.folded.lookup? name = some l := by
  obtain ⟨hmem, hkey⟩ := mem_of_lookup? hl
  have hname : l.name = name := by simpa only [key_of_not_caseFold hcase] using hkey
  have hsome : (t.folded.lookup? name).isSome := lookup?_isSome.2 ⟨l, hmem, by rw [hname]⟩
  obtain ⟨m, hm⟩ := Option.isSome_iff_exists.1 hsome
  obtain ⟨hmem', hkey'⟩ := mem_of_lookup? hm
  have hfold : foldText m.name = foldText l.name := by rw [hname]; exact hkey'
  rw [hm, List.inj_on_of_nodup_map h hmem' hmem hfold]

theorem offset?_folded (hcase : t.caseFold = false) (h : t.FoldsApart) {name : Bytes}
    (hdefined : (t.offset? name).isSome) : t.folded.offset? name = t.offset? name := by
  rw [offset?, Option.isSome_map] at hdefined
  obtain ⟨l, hl⟩ := Option.isSome_iff_exists.1 hdefined
  rw [offset?, offset?, hl, lookup?_folded hcase h hl]

end SymbolTable

namespace Ledger

variable {l : Ledger}

/-- Names that stay apart have as many keys as before, and the same uses under them. -/
theorem useLists_folded (hcase : l.caseFold = false) (h : ∀ u ∈ l.uses, ∀ v ∈ l.uses,
    foldText u.name = foldText v.name → u.name = v.name) :
    l.folded.table.useLists = l.table.useLists.map (Prod.map foldText id) := by
  have hkey (n : Bytes) : l.key n = n := by rw [key, nameKey, hcase, if_neg Bool.false_ne_true]
  have hnames : l.usedKeys = (l.uses.map (·.name)).eraseDups := by simp only [usedKeys, hkey]
  have hkeys : l.folded.usedKeys = l.usedKeys.map foldText := by
    have hfolded : l.folded.usedKeys = ((l.uses.map (·.name)).map foldText).eraseDups := by
      rw [usedKeys, List.map_map]
      rfl
    rw [hfolded, hnames, eraseDups_map]
    intro m hm n hn hmn
    obtain ⟨u, hu, rfl⟩ := List.mem_map.1 hm
    obtain ⟨v, hv, rfl⟩ := List.mem_map.1 hn
    exact h u hu v hv hmn
  show l.folded.usedKeys.map (fun k => (k, l.folded.usesAt k)) =
    (l.usedKeys.map fun k => (k, l.usesAt k)).map (Prod.map foldText id)
  rw [hkeys, List.map_map, List.map_map]
  refine List.map_congr_left fun k hk => Prod.ext rfl (List.filter_congr fun u hu => ?_)
  obtain ⟨v, hv, rfl⟩ := l.mem_usedKeys.1 hk
  rw [hkey, hkey, Bool.eq_iff_iff, beq_iff_eq, beq_iff_eq]
  exact ⟨h u hu v hv, congrArg foldText⟩

theorem folded_table (hcase : l.caseFold = false) (h : ∀ u ∈ l.uses, ∀ v ∈ l.uses,
    foldText u.name = foldText v.name → u.name = v.name) : l.table.folded = l.folded.table := by
  have huses : l.table.ledger.folded.table.useLists = l.folded.table.useLists := by
    rw [useLists_folded hcase h, useLists_folded (l := l.table.ledger) hcase, l.table.table_ledger]
    intro u hu v hv
    exact h u (l.mem_uses_table.1 hu) v (l.mem_uses_table.1 hv)
  exact SymbolTable.eq_of_lists rfl rfl huses

end Ledger

namespace SymbolTable

variable {t : SymbolTable}

/-- Uses that have definitions have them if letter case is folded. -/
theorem resolve_snd_folded (hcase : t.caseFold = false) (h : t.FoldsApart)
    (hdefined : ∀ u ∈ t.uses, (t.offset? u.name).isSome) : t.folded.resolve.2 = none := by
  refine resolve_snd_eq_none.2 fun u hu => ?_
  have hu : u ∈ t.uses := t.ledger.folded.mem_uses_table.1 hu
  rw [offset?_folded hcase h (hdefined u hu)]
  exact hdefined u hu

theorem resolve_folded (hcase : t.caseFold = false) (h : t.FoldsApart) (hr : t.resolve.2 = none) :
    t.folded.resolve = (t.resolve.1.folded, none) := by
  have hdefined := resolve_snd_eq_none.1 hr
  have hledger : t.ledger.resolve.2 = none := by rwa [resolve_eq] at hr
  have hfolded : t.ledger.folded.resolve.2 = none := by
    have hsnd := resolve_snd_folded hcase h hdefined
    rwa [folded, Ledger.resolve_table] at hsnd
  have hbind : t.ledger.folded.mapUses t.ledger.folded.bind =
      (t.ledger.mapUses t.ledger.bind).folded := by
    have huses : t.uses.map t.ledger.folded.bind = t.uses.map t.ledger.bind := by
      refine List.map_congr_left fun u hu => ?_
      have hoffset := offset?_folded hcase h (hdefined u hu)
      rw [folded, Ledger.offset?_table] at hoffset
      rw [Ledger.bind, Ledger.bind, hoffset, offset?_ledger]
    rw [Ledger.mapUses, Ledger.folded, Ledger.mk.injEq]
    exact ⟨rfl, rfl, huses⟩
  -- the uses of the resolved table are those of the table, each with its address
  have hresolved : (t.ledger.mapUses t.ledger.bind).table.ledger =
      t.ledger.mapUses t.ledger.bind := by
    rw [ledger, Ledger.uses_table_mapUses t.ledger t.ledger.name_bind, table_ledger]
    rfl
  rw [folded, Ledger.resolve_table, Ledger.resolve_of_snd_eq_none hfolded, hbind, resolve_eq,
    Ledger.resolve_of_snd_eq_none hledger, folded, hresolved]

theorem offset?_resolve_folded (hcase : t.caseFold = false) (h : t.FoldsApart)
    (hr : t.resolve.2 = none) {u : Use} (hu : u ∈ t.uses) :
    t.resolve.1.folded.offset? u.name = t.resolve.1.offset? u.name := by
  have hfolded : t.folded.resolve.1 = t.resolve.1.folded := by rw [resolve_folded hcase h hr]
  rw [← hfolded, offset?_resolve, offset?_resolve,
    offset?_folded hcase h (resolve_snd_eq_none.1 hr u hu)]

theorem locate_folded (offset : Nat → Int) : t.folded.locate offset = (t.locate offset).folded :=
  Ledger.locate_table _ offset

/-- Names that have definitions stay apart as well as these. -/
theorem FoldsApart.name_eq (h : t.FoldsApart) (hcase : t.caseFold = false)
    (hdefined : ∀ u ∈ t.uses, (t.offset? u.name).isSome) :
    ∀ u ∈ t.uses, ∀ v ∈ t.uses, foldText u.name = foldText v.name → u.name = v.name := by
  have hlabel {u : Use} (hu : u ∈ t.uses) : ∃ l ∈ t.labels, l.name = u.name := by
    have hsome := hdefined u hu
    rw [offset?, Option.isSome_map, lookup?_isSome] at hsome
    simpa only [key_of_not_caseFold hcase] using hsome
  intro u hu v hv hfold
  obtain ⟨l, hl, hlu⟩ := hlabel hu
  obtain ⟨m, hm, hmv⟩ := hlabel hv
  rw [← hlu, ← hmv] at hfold ⊢
  rw [List.inj_on_of_nodup_map h hl hm hfold]

theorem FoldsApart.uses_folded (h : t.FoldsApart) (hcase : t.caseFold = false)
    (hdefined : ∀ u ∈ t.uses, (t.offset? u.name).isSome) : t.folded.uses = t.uses := by
  have huses := Ledger.useLists_folded (l := t.ledger) hcase (h.name_eq hcase hdefined)
  rw [table_ledger] at huses
  rw [uses, folded, huses, List.flatMap_map]
  rfl

theorem exists_use_of_resolve (h : t.resolve.2 = none) {u : Use} (hu : u ∈ t.resolve.1.uses) :
    ∃ v ∈ t.uses, v.name = u.name := by
  rw [uses_resolve h] at hu
  obtain ⟨v, hv, rfl⟩ := List.mem_map.1 hu
  exact ⟨v, hv, (t.ledger.name_bind v).symm⟩

end SymbolTable

/-! ## Reading -/

/-- The same progress, with a table that has the same labels and folds letter case. -/
structure Progress.Folds (p' p : Progress) : Prop where
  defines_eq : p'.defines = p.defines
  scope_eq : p'.scope = p.scope
  count_eq : p'.count = p.count
  lexErrors_eq : p'.lexErrors = p.lexErrors
  labels_eq : p'.symbols.labels = p.symbols.labels
  caseFold_eq : p'.symbols.caseFold = true

/-- A line is read the same way if the labels it leaves can be told apart. -/
theorem readLine_folded {doc : Document} {number : Nat} {raw : Bytes} {p p' q : Progress} {l : Line}
    (hp : p'.Folds p) (h : (readLine doc number raw p).result = .ok (l, q))
    (hq : q.symbols.FoldsApart) :
    ∃ q', (readLine doc number raw p').result = .ok (l, q') ∧ q'.Folds q := by
  obtain ⟨r, ds, happly, -, rfl, rfl⟩ := readLine_eq_ok.1 h
  have hapart : p.symbols.FoldsApart := hq.of_isPrefix (List.prefix_append _ _)
  have hkey : p'.symbols.key = foldText := by
    funext n
    rw [SymbolTable.key, nameKey, hp.caseFold_eq, if_pos rfl]
  have hclash : clash? p'.symbols.key p'.symbols.labels (definitionsOf ⟨doc.name, number, raw⟩
      p'.count (nameTokens p'.scope r.tokens)) = none := by
    rw [hkey, hp.labels_eq, hp.count_eq, hp.scope_eq]
    exact (clash?_eq_none_iff hapart).2 hq
  have hline := readLine_eq_ok.2 ⟨r, ds, hp.defines_eq ▸ happly, hclash, rfl, rfl⟩
  rw [hp.scope_eq] at hline
  refine ⟨_, hline, rfl, rfl, ?_, ?_, ?_, hp.caseFold_eq⟩
  · exact congrArg (· + 1) hp.count_eq
  · exact congrArg (· ++ _) hp.lexErrors_eq
  · rw [SymbolTable.extend_labels, SymbolTable.extend_labels, hp.labels_eq, hp.count_eq]

/-- Labels that are known stay known. -/
theorem keptByLines_labels (known : List Label) :
    KeptByLines fun p => known <+: p.symbols.labels := by
  intro doc number raw p line q hline hp
  obtain ⟨r, ds, -, -, -, rfl⟩ := readLine_eq_ok.1 hline
  exact hp.trans (List.prefix_append _ _)

section Documents

variable {source : Option Source} {s after : Place}

theorem Reads.labels_isPrefix {extent : Extent} (h : Reads source s (.ok extent)) :
    s.progress.symbols.labels <+: extent.progress.symbols.labels :=
  h.kept (keptByLines_labels _) (List.prefix_refl _) rfl

theorem Place.Takes.folded {line : Line} (h : s.Takes line after)
    (hafter : after.progress.symbols.FoldsApart) {p' : Progress} (hp : p'.Folds s.progress) :
    ∃ q' : Progress, q'.Folds after.progress ∧
      Takes { s with progress := p' } line { after with progress := q' } := by
  obtain ⟨raw, rest, q, hraws, hline, rfl⟩ := h
  obtain ⟨q', hline', hq⟩ := readLine_folded hp hline hafter
  exact ⟨q', hq, raw, rest, q', hraws, hline', rfl⟩

/-- A document is read the same way, with the documents it includes, if the labels known at its end
can be told apart : there are no fewer of them there than anywhere before. -/
theorem Reads.folded {r : Except Error Extent} (hr : Reads source s r) {extent : Extent}
    (he : r = .ok extent) (hkeys : extent.progress.symbols.FoldsApart) {p' : Progress}
    (hp : p'.Folds s.progress) : ∃ q' : Progress, q'.Folds extent.progress ∧
      Reads source { s with progress := p' } (.ok { extent with progress := q' }) := by
  induction hr generalizing extent p' with
  | done hs hcut =>
    obtain rfl := Except.ok.inj he
    exact ⟨p', hp, .done hs hcut⟩
  | tooLong | refused | missing | cycle | inner => cases he
  | plain ht hi hr ih =>
    obtain ⟨more, rfl, rfl⟩ := map_eq_ok.1 he
    obtain ⟨p₁, hp₁, ht'⟩ := ht.folded (hkeys.of_isPrefix hr.labels_isPrefix) hp
    obtain ⟨q', hq, hr'⟩ := ih rfl hkeys hp₁
    exact ⟨q', hq, .plain ht' hi hr'⟩
  | within ht hi hc hin hr ihe ihr =>
    obtain ⟨more, rfl, rfl⟩ := map_eq_ok.1 he
    have hinner := hkeys.of_isPrefix hr.labels_isPrefix
    obtain ⟨p₁, hp₁, ht'⟩ := ht.folded (hinner.of_isPrefix hin.labels_isPrefix) hp
    obtain ⟨p₂, hp₂, hin'⟩ := ihe rfl hinner hp₁
    obtain ⟨q', hq, hr'⟩ := ihr rfl hkeys hp₂
    exact ⟨q', hq, .within ht' hi hc hin' hr'⟩

end Documents

/-! ## Resolution -/

section Resolution

variable {find find' : Bytes → Option Int}

theorem Token.resolve_congr {t : Token} (h : t.kind = .labelUse → find t.symbol = find' t.symbol) :
    t.resolve find = t.resolve find' := by
  by_cases hk : t.kind = .labelUse
  · rw [resolve, resolve, h hk]
  · rw [resolve_of_ne find hk, resolve_of_ne find' hk]

theorem Operand.resolve_congr {o : Operand}
    (h : ∀ t ∈ o.labelUses, find t.symbol = find' t.symbol) : o.resolve find = o.resolve find' := by
  unfold resolve
  cases hexpr : o.expr with
  | none => rfl
  | some ts =>
    have hts : ts.map (Token.resolve find) = ts.map (Token.resolve find') := by
      refine List.map_congr_left fun t ht => Token.resolve_congr fun hk => h t ?_
      rw [labelUses, hexpr]
      exact List.mem_filter.2 ⟨ht, by simpa using hk⟩
    rw [Option.map_some, Option.map_some, hts]

theorem Instruction.kind_of_mem_labelUses {c : Instruction} {t : Token} (h : t ∈ c.labelUses) :
    t.kind = .labelUse := by
  cases c with
  | basic op b a =>
    rcases List.mem_append.1 h with h | h <;> simpa using (List.mem_filter.1 h).2
  | special op a => simpa using (List.mem_filter.1 h).2

theorem Instruction.resolve_congr {c : Instruction}
    (h : ∀ t ∈ c.labelUses, find t.symbol = find' t.symbol) : c.resolve find = c.resolve find' := by
  cases c with
  | basic op b a =>
    obtain ⟨hb, ha⟩ := List.forall_mem_append.1 h
    rw [resolve, resolve, Operand.resolve_congr hb, Operand.resolve_congr ha]
  | special op a => rw [resolve, resolve, Operand.resolve_congr h]

/-- Only what is found for the label uses among the tokens matters. -/
theorem Laid.resolve_congr {lines : List Line} {offset : Int} (h : Laid offset lines)
    (hfind : ∀ l ∈ lines, ∀ t ∈ l.tokens, t.kind = .labelUse → find t.symbol = find' t.symbol) :
    lines.map (Line.resolve find) = lines.map (Line.resolve find') := by
  refine List.map_congr_left fun l hl => ?_
  have htokens : l.tokens.map (Token.resolve find) = l.tokens.map (Token.resolve find') :=
    List.map_congr_left fun t ht => Token.resolve_congr (hfind l hl t ht)
  have hcode : l.code.map (·.resolve find) = l.code.map (·.resolve find') := by
    cases hc : l.code with
    | none => rfl
    | some c =>
      have huses : ∀ t ∈ c.labelUses, find t.symbol = find' t.symbol := by
        intro t ht
        exact hfind l hl t (h.labelUse_mem hl hc ht) (Instruction.kind_of_mem_labelUses ht)
      rw [Option.map_some, Option.map_some, Instruction.resolve_congr huses]
  rw [Line.resolve, Line.resolve, htokens, hcode]

/-- A label use of a line that was laid out is a use of the lines that were read. -/
theorem exists_use {lines placed : List Line}
    (hsame : placed.map Line.unplaced = lines.map Line.unplaced) {l : Line} (hl : l ∈ placed)
    {t : Token} (ht : t ∈ l.tokens) (hk : t.kind = .labelUse) :
    ∃ u ∈ uses lines, u.name = t.symbol := by
  obtain ⟨m, hm, hml⟩ := List.mem_map.1 (hsame ▸ List.mem_map_of_mem hl)
  have htokens : m.unplaced.tokens = l.unplaced.tokens := by rw [hml]
  obtain ⟨i, hi⟩ := List.mem_iff_getElem?.1 hm
  obtain ⟨j, hat⟩ := exists_tokenAt hi (htokens ▸ ht) hk
  exact ⟨_, hat.mem_uses, rfl⟩

end Resolution

namespace Assembly

/-- The same program, with a table that folds letter case. -/
def folded (a : Assembly) : Assembly := { a with symbols := a.symbols.folded }

theorem foldsApart_locatedSymbols {program : Assembly} (h : program.symbols.FoldsApart)
    (placed : List Line) : (program.locatedSymbols placed).FoldsApart := by
  rw [SymbolTable.FoldsApart, locatedSymbols, SymbolTable.locate, List.map_map]
  exact h

/-- A program that can be resolved gets the same addresses if its labels can be told apart. -/
theorem resolved_folded {program a : Assembly} (hcase : program.symbols.caseFold = false)
    (huses : ∀ u ∈ uses program.lines, u ∈ program.symbols.uses) (h : program.symbols.FoldsApart)
    (hres : program.resolved.result = .ok a) : program.folded.resolved.result = .ok a.folded := by
  obtain ⟨placed, symbols, hplaced, hresolve, rfl⟩ := resolved_eq_ok hres
  obtain ⟨hlaid, hsame⟩ := layout_laid hplaced
  have hlocated := foldsApart_locatedSymbols h placed
  have hcase' : (program.locatedSymbols placed).caseFold = false := hcase
  have hnone : (program.locatedSymbols placed).resolve.2 = none := by rw [hresolve]
  have hfolded : (program.folded.locatedSymbols placed).resolve = (symbols.folded, none) := by
    have := SymbolTable.resolve_folded hcase' hlocated hnone
    rw [hresolve] at this
    rw [locatedSymbols, folded, SymbolTable.locate_folded]
    exact this
  have hlines : placed.map (Line.resolve symbols.folded.offset?) =
      placed.map (Line.resolve symbols.offset?) := by
    refine hlaid.resolve_congr fun l hl t ht hk => ?_
    obtain ⟨u, hu, hname⟩ := exists_use hsame hl ht hk
    have := SymbolTable.offset?_resolve_folded hcase' hlocated hnone (huses u hu)
    rwa [hname, hresolve] at this
  have hfinal : program.folded.resolved.result = .ok _ := resolved_of_resolve hplaced hfolded
  rw [hfinal, hlines]
  rfl

end Assembly

/-! ## Programs -/

namespace Assembler

variable {asm : Assembler} {name text : Bytes} {a : Assembly}

/-- The same assembler, folding letter case. -/
def folded (asm : Assembler) : Assembler := { asm with caseFold := true }

section Passes

variable {lines placed : List Line} {program : Assembly}

theorem Passes.exists_label (h : asm.Passes lines program placed a) {d : Label}
    (hd : d ∈ definitions 0 program.lines) :
    ∃ label ∈ a.symbols.labels, label.name = d.name ∧ label.site = d.site := by
  rw [h.labels_eq]
  exact ⟨_, List.mem_map_of_mem hd, rfl, rfl⟩

theorem Passes.foldsApart_iff (h : asm.Passes lines program placed a) :
    a.symbols.FoldsApart ↔ program.symbols.FoldsApart := by
  rw [SymbolTable.FoldsApart, h.labels_eq, locatedDefinitions, List.map_map,
    SymbolTable.FoldsApart, h.read.symbols_eq]
  rfl

theorem Passes.defined (h : asm.Passes lines program placed a) :
    ∀ u ∈ (program.locatedSymbols placed).uses,
      ((program.locatedSymbols placed).offset? u.name).isSome :=
  SymbolTable.resolve_snd_eq_none.1 (by rw [h.resolve_eq])

theorem Passes.uses_folded (h : asm.Passes lines program placed a) (hcase : asm.caseFold = false)
    (hkeys : a.symbols.FoldsApart) : a.symbols.folded.uses = a.symbols.uses := by
  have hsymbols : (program.locatedSymbols placed).resolve.1 = a.symbols := by rw [h.resolve_eq]
  have hfold : a.symbols.caseFold = false := by
    rw [← hsymbols, SymbolTable.resolve_caseFold, h.read.locatedSymbols_eq]
    exact hcase
  refine hkeys.uses_folded hfold fun u hu => ?_
  rw [← hsymbols] at hu ⊢
  obtain ⟨v, hv, hname⟩ := SymbolTable.exists_use_of_resolve (by rw [h.resolve_eq]) hu
  rw [SymbolTable.offset?_resolve, ← hname]
  exact h.defined v hv

/-- Reading leaves the same program, with a table that folds letter case. -/
theorem Passes.readProgram_folded (h : asm.Passes lines program placed a)
    (hcase : asm.caseFold = false) (hkeys : program.symbols.FoldsApart) {defines : Defines}
    (hd : asm.initialDefines = .ok defines)
    (hr : (asm.readProgram (Path.clean name) text defines).result = .ok program) :
    (asm.folded.readProgram (Path.clean name) text defines).result = .ok program.folded := by
  have happart := (Assembly.foldsApart_locatedSymbols hkeys placed).name_eq
    (by rw [h.read.locatedSymbols_eq]; exact hcase) h.defined
  have hsymbols : program.symbols.folded =
      Ledger.table ⟨true, definitions 0 program.lines, uses program.lines⟩ := by
    rw [h.read.symbols_eq]
    refine Ledger.folded_table hcase fun u hu v hv => ?_
    rw [h.read.locatedSymbols_eq] at happart
    exact happart u (Ledger.mem_uses_table _ |>.2 hu) v (Ledger.mem_uses_table _ |>.2 hv)
  obtain ⟨extent, hreads, hextent⟩ := readProgram_eq_ok.1 hr
  have hstart : (asm.folded.start defines).Folds (asm.start defines) :=
    ⟨rfl, rfl, rfl, rfl, rfl, rfl⟩
  have hlabels : extent.progress.symbols.FoldsApart := by rwa [← hextent] at hkeys
  obtain ⟨q, hq, hreads'⟩ := hreads.folded rfl hlabels hstart
  have hr' : (asm.folded.readProgram (Path.clean name) text defines).result =
      .ok (Assembly.ofExtent (Path.clean name) text { extent with progress := q }) :=
    readProgram_eq_ok.2 ⟨_, hreads', rfl⟩
  have hd' : asm.folded.initialDefines = .ok defines := hd
  obtain ⟨lines', -, hread'⟩ := read_of_readProgram hd' hr'
  have hsame : Assembly.ofExtent (Path.clean name) text { extent with progress := q } =
      program.folded := by
    have hsymbols' := hread'.symbols_eq
    rw [Assembly.folded, hsymbols, ← hextent]
    simp only [Assembly.ofExtent, hq.defines_eq, hq.lexErrors_eq] at hsymbols' ⊢
    rw [hsymbols']
    rfl
  rw [hr', hsame]

/-- Labels with one folded name have different names, and stop the reading. -/
theorem Passes.exists_clash (h : asm.Passes lines program placed a) (hcase : asm.caseFold = false)
    (hkeys : ¬a.symbols.FoldsApart) (defines : Defines) :
    ∃ new ∈ a.symbols.labels, ∃ first ∈ a.symbols.labels, first.name ≠ new.name ∧
      foldText first.name = foldText new.name ∧ (asm.folded.start defines).enter lines =
        .error (.atLine new.site (.duplicateLabel new.name first.site)) := by
  rw [h.foldsApart_iff, h.read.symbols_eq] at hkeys
  have hclash : clash? foldText [] (definitions 0 program.lines) ≠ none := by
    rwa [Ne, clash?_eq_none_iff (by simp)]
  obtain ⟨⟨new, first⟩, hpair⟩ := Option.ne_none_iff_exists'.1 hclash
  obtain ⟨before, after, hdefs, hfirst, hfold⟩ := exists_of_clash? hpair
  -- with letter case all names are different, these two among them
  have hnames : (before ++ new :: after).map (·.name) |>.Nodup := by
    have := h.read.nodup
    rw [← map_key_definitions asm.labelKey 0, hdefs] at this
    simpa [labelKey, SymbolTable.key, nameKey, hcase] using this
  have hne : first.name ≠ new.name := by
    rw [List.map_append, List.nodup_append] at hnames
    exact hnames.2.2 _ (List.mem_map_of_mem hfirst) _ List.mem_cons_self
  have henter : (asm.folded.start defines).enter lines = .error (clashError (new, first)) := by
    have hstart : clash? (asm.folded.start defines).symbols.key
        (asm.folded.start defines).symbols.labels (definitions (asm.folded.start defines).count
          (nameLines (asm.folded.start defines).scope lines)) = some (new, first) := by
      rw [← hpair, h.read.lines_eq]
      rfl
    rw [Progress.enter_eq, SymbolTable.enter, hstart]
    rfl
  obtain ⟨new', hnew', hname, hsite⟩ := h.exists_label (d := new) (by rw [hdefs]; simp)
  obtain ⟨first', hfirst', hname', hsite'⟩ :=
    h.exists_label (d := first) (by rw [hdefs]; exact List.mem_append_left _ hfirst)
  refine ⟨new', hnew', first', hfirst', ?_⟩
  rw [hname, hname', hsite, hsite']
  exact ⟨hne, hfold, henter⟩

end Passes

/-- Folding letter case only ever merges names. A program that is accepted with letter case is
accepted without it, with the same documents, lines, addresses, labels and uses, and is written into
every image the same way, if no two labels have one folded name. Otherwise two different names
became one, and the error of the program is that the second label is defined already. -/
theorem parse_folded (hcase : asm.caseFold = false) (h : asm.Accepts name text a) :
    (a.symbols.FoldsApart ∧ asm.folded.Accepts name text a.folded ∧
        a.folded.symbols.labels = a.symbols.labels ∧ a.folded.symbols.uses = a.symbols.uses ∧
        ∀ img, a.folded.assemble img = a.assemble img) ∨
      ∃ new ∈ a.symbols.labels, ∃ first ∈ a.symbols.labels, first.name ≠ new.name ∧
        foldText first.name = foldText new.name ∧ (asm.folded.parse name text).result =
          .error (.atLine new.site (.duplicateLabel new.name first.site)) := by
  obtain ⟨defines, program, hd, hr, hlex, hres⟩ := parse_accepts h
  obtain ⟨lines, hflat, hread⟩ := read_of_readProgram hd hr
  obtain ⟨placed, symbols, hplaced, hresolve, ha⟩ := Assembly.resolved_eq_ok hres
  have hpasses : asm.Passes lines program placed a := by
    subst ha
    exact ⟨hread, (layout_laid hplaced).2, hresolve, rfl⟩
  have hd' : asm.folded.initialDefines = .ok defines := hd
  have hflat' : asm.folded.flatten name text = .ok lines := hflat
  by_cases hkeys : a.symbols.FoldsApart
  · have hprogram := hpasses.foldsApart_iff.1 hkeys
    have hread' := hpasses.readProgram_folded hcase hprogram hd hr
    have huses : ∀ u ∈ uses program.lines, u ∈ program.symbols.uses := by
      intro u hu
      rwa [hread.symbols_eq, Ledger.mem_uses_table]
    have hresolved := Assembly.resolved_folded (by rw [hread.symbols_eq]; exact hcase) huses
      hprogram hres
    exact .inl ⟨hkeys, accepts_of_resolved hd' hread' hlex hresolved, rfl,
      hpasses.uses_folded hcase hkeys, fun img => rfl⟩
  · obtain ⟨new, hnew, first, hfirst, hne, hfold, henter⟩ :=
      hpasses.exists_clash hcase hkeys defines
    exact .inr ⟨new, hnew, first, hfirst, hne, hfold, parse_eq_error_of_enter hd' hflat' henter⟩

/-- Names that differ in letter case : two local labels, and two global ones that are used. -/
def sampleCases : Bytes := "Loop: SET A, loop\n.x:\nloop: SET PC, Loop\n.X: SET PC, .X"

/-- Both outcomes : a program whose names stay apart, and one where two labels become one. -/
theorem sample_parse_folded :
    (∃ a, sampleAssembler.Accepts "main" sampleText a ∧ a.symbols.labels.length = 4 ∧
      sampleAssembler.folded.Accepts "main" sampleText a.folded) ∧
    ∃ a, ({} : Assembler).Accepts "main" sampleCases a ∧ a.symbols.labels.length = 4 ∧
      ∃ new ∈ a.symbols.labels, ∃ first ∈ a.symbols.labels, first.name ≠ new.name ∧
        (({} : Assembler).folded.parse "main" sampleCases).result =
          .error (.atLine new.site (.duplicateLabel new.name first.site)) := by
  constructor
  · obtain ⟨a, ha, hp⟩ := exists_accepts sampleAssembler "main" sampleText
      (fun a => decide (a.symbols.labels.length = 4) &&
        decide (a.symbols.labels.map fun l => foldText l.name).Nodup) (by decide +kernel)
    simp only [Bool.and_eq_true, decide_eq_true_eq] at hp
    rcases parse_folded rfl ha with ⟨-, haccepts, -⟩ | ⟨new, hnew, first, hfirst, hne, hfold, -⟩
    · exact ⟨a, ha, hp.1, haccepts⟩
    · exact absurd (congrArg Label.name (List.inj_on_of_nodup_map hp.2 hfirst hnew hfold)) hne
  · obtain ⟨a, ha, hp⟩ := exists_accepts {} "main" sampleCases
      (fun a => decide (a.symbols.labels.length = 4) &&
        decide ¬(a.symbols.labels.map fun l => foldText l.name).Nodup) (by decide +kernel)
    simp only [Bool.and_eq_true, decide_eq_true_eq] at hp
    rcases parse_folded rfl ha with ⟨hkeys, -⟩ | ⟨new, hnew, first, hfirst, hne, -, herror⟩
    · exact absurd hkeys hp.2
    · exact ⟨a, ha, hp.1, new, hnew, first, hfirst, hne, herror⟩

end Assembler

end Asm16
