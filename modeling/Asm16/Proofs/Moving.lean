import Asm16.Proofs.Ascending
import Asm16.Proofs.CaseFolding
import Asm16.Proofs.LineInFront
import Asm16.Proofs.WordSources
import Mathlib.Algebra.Order.BigOperators.Group.List

/-!
# Moving a program

A program without `origin` and `align` lines has no address of its own. Behind a line `.org n` it is
the same program `n` words on (`Assembler.accepts_moved`) : its lines keep their sizes, and their
addresses, the addresses of labels and those of label uses grow by `n`.

The proof goes through the passes. Reading is that of `LineInFront`. A line that `Floats` has the
same size at every address, so the layout is shifted as a whole (`layout_shifted`). Labels have
shifted addresses (`SymbolTable.Moved`), and resolving the shifted lines with them is moving the
resolved lines (`Laid.map_moved_resolve`). A word changes with the label uses in its source only.
-/

namespace Asm16

open Numeral

/-! ## Layout -/

/-- A line `n` words on, behind another line in front of the program. -/
def Line.shifted (n : Int) (l : Line) : Line := { l.lowered with offset := l.offset + n }

/-- A line that goes to no address in particular. -/
def Line.Floats (l : Line) : Prop := l.kind? ≠ some .origin ∧ l.kind? ≠ some .align

namespace Line.Floats

variable {l : Line} (h : l.Floats)

include h

/-- It is measured alike everywhere. -/
theorem measure_eq {offset : Int} {r : Int × Option Instruction} (hm : l.measure offset = .ok r)
    (offset' : Int) : l.measure offset' = .ok r := by
  unfold measure at hm ⊢
  cases hd : l.directive with
  | none => rwa [hd] at hm
  | some d =>
    rw [hd] at hm
    cases hk : d.kind with
    | origin => exact absurd (by rw [kind?, hd, Option.map_some, hk]) h.1
    | align => exact absurd (by rw [kind?, hd, Option.map_some, hk]) h.2
    | reserve =>
      simp only [hk] at hm ⊢
      obtain ⟨count, hcount, hm⟩ := bind_eq_ok.1 hm
      split at hm
      · cases hm
      · rename_i hneg
        rw [hcount, ok_bind, if_neg hneg, hm]
    | inclusion | define | data => simpa only [hk] using hm

theorem size_nonneg {offset : Int} (hm : l.measure offset = .ok (l.size, l.code)) : 0 ≤ l.size :=
  Line.size_nonneg (h.measure_eq hm 0) (Int.le_refl 0)

end Line.Floats

theorem Laid.sum_size_nonneg {lines : List Line} {offset : Int} (h : Laid offset lines)
    (hf : ∀ l ∈ lines, l.Floats) : 0 ≤ (lines.map (·.size)).sum := by
  refine List.sum_nonneg fun size hsize => ?_
  obtain ⟨l, hl, rfl⟩ := List.mem_map.1 hsize
  exact (hf l hl).size_nonneg (h.measure_eq hl)

/-- Lines that float are laid out alike from every address on, as long as none wraps around. -/
theorem layout_shifted {lines placed : List Line} {offset n : Int}
    (h : (layout offset lines).result = .ok placed) (hf : ∀ l ∈ placed, l.Floats)
    (h0 : 0 ≤ offset) (hn : 0 ≤ n) (hsum : offset + n + (placed.map (·.size)).sum < addressLimit) :
    (layout (offset + n) (lines.map Line.lowered)).result = .ok (placed.map (Line.shifted n)) := by
  induction lines generalizing placed offset with
  | nil =>
    obtain rfl : [] = placed := by simpa [layout] using h
    rfl
  | cons l rest ih =>
    obtain ⟨size, code, more, hm, hmore, rfl⟩ := layout_cons_eq_ok.1 h
    obtain ⟨hl, hrest⟩ := List.forall_mem_cons.1 hf
    have hsize : 0 ≤ size := hl.size_nonneg hm
    have hmore0 := (layout_laid hmore).1.sum_size_nonneg hrest
    replace hsum : offset + n + (size + (more.map (·.size)).sum) < addressLimit := by
      rwa [List.map_cons, List.sum_cons] at hsum
    -- the line ends no later than all of them do, so neither end wraps around
    have hstop : wrap (offset + size) = offset + size := wrap_eq_self (by omega) (by omega)
    have hstop' : wrap (offset + n + size) = offset + size + n := by
      rw [wrap_eq_self (by omega) (by omega), Int.add_right_comm]
    rw [hstop] at hmore
    have hrest' := ih hmore hrest (by omega) (by omega)
    have hm' : l.lowered.measure (offset + n) = .ok (size, code) := hl.measure_eq hm _
    exact layout_cons_eq_ok.2 ⟨size, code, _, hm', by rwa [hstop'], rfl⟩

/-! ## Label uses -/

/-- An address `n` words on. -/
def Cell.moved (n : Int) : Cell → Cell
  | pending => pending
  | resolved addr => resolved (addr + n)

/-- A token, with its address `n` words on if it is a label use. -/
def Token.moved (n : Int) (t : Token) : Token :=
  if t.kind = .labelUse then { t with value := t.value.map (Cell.moved n) } else t

/-- An operand, with the label uses of its expression `n` words on. -/
def Operand.moved (n : Int) (o : Operand) : Operand :=
  { o with expr := o.expr.map (·.map (Token.moved n)) }

/-- An instruction, with the label uses of its operands `n` words on. -/
def Instruction.moved (n : Int) : Instruction → Instruction
  | basic op b a => basic op (b.moved n) (a.moved n)
  | special op a => special op (a.moved n)

/-- A line `n` words on, behind another line in front of the program, with its label uses `n` words
on. -/
def Line.moved (n : Int) (l : Line) : Line :=
  { l.shifted n with tokens := l.tokens.map (Token.moved n), code := l.code.map (·.moved n) }

@[simp] theorem Token.moved_kind (n : Int) (t : Token) : (t.moved n).kind = t.kind := by
  unfold moved
  split <;> rfl

@[simp] theorem Token.moved_contents (n : Int) (t : Token) : (t.moved n).contents = t.contents := by
  unfold moved
  split <;> rfl

theorem Token.moved_of_ne (n : Int) {t : Token} (h : t.kind ≠ .labelUse) : t.moved n = t :=
  if_neg h

section Resolution

variable (addr : Bytes → Int) (n : Int)

theorem Token.moved_resolve (t : Token) : (t.resolve fun s => some (addr s)).moved n =
    t.resolve fun s => some (addr s + n) := by
  by_cases hk : t.kind = .labelUse
  · simp [resolve, moved, hk, Cell.moved]
  · simp [resolve, moved, hk]

theorem map_moved_resolve (ts : List Token) :
    (ts.map (Token.resolve fun s => some (addr s))).map (Token.moved n) =
      ts.map (Token.resolve fun s => some (addr s + n)) := by
  simp [Function.comp_def, Token.moved_resolve]

theorem Operand.moved_resolve (o : Operand) : (o.resolve fun s => some (addr s)).moved n =
    o.resolve fun s => some (addr s + n) := by
  simp only [resolve, moved, Option.map_map, Function.comp_def, map_moved_resolve]

theorem Instruction.moved_resolve (c : Instruction) : (c.resolve fun s => some (addr s)).moved n =
    c.resolve fun s => some (addr s + n) := by
  cases c <;> simp only [resolve, moved, Operand.moved_resolve]

theorem Line.moved_resolve (l : Line) : (l.resolve fun s => some (addr s)).moved n =
    (l.shifted n).resolve fun s => some (addr s + n) := by
  simp only [moved, resolve, shifted, lowered, map_moved_resolve, Option.map_map,
    Function.comp_def, Instruction.moved_resolve]

end Resolution

/-- Lines that are moved before their label uses are resolved are the same as lines that are moved
after it, if all uses have addresses. -/
theorem Laid.map_moved_resolve {lines : List Line} {offset n : Int} (h : Laid offset lines)
    {find find' : Bytes → Option Int} (hfind : ∀ name, find' name = (find name).map (· + n))
    (hdefined : ∀ l ∈ lines, ∀ t ∈ l.tokens, t.kind = .labelUse → (find t.symbol).isSome) :
    (lines.map (Line.shifted n)).map (Line.resolve find') =
      (lines.map (Line.resolve find)).map (Line.moved n) := by
  -- where every use has an address, a total function finds the same
  let addr := fun s => (find s).getD 0
  have hsome {s : Bytes} (hs : (find s).isSome) : find s = some (addr s) := by
    obtain ⟨x, hx⟩ := Option.isSome_iff_exists.1 hs
    simp [addr, hx]
  have hbefore : lines.map (Line.resolve find) =
      lines.map (Line.resolve fun s => some (addr s)) :=
    h.resolve_congr fun l hl t ht hk => hsome (hdefined l hl t ht hk)
  have hafter : lines.map (Line.resolve find') =
      lines.map (Line.resolve fun s => some (addr s + n)) := by
    refine h.resolve_congr fun l hl t ht hk => ?_
    rw [hfind, hsome (hdefined l hl t ht hk), Option.map_some]
  have hcomm (find : Bytes → Option Int) : (lines.map (Line.shifted n)).map (Line.resolve find) =
      (lines.map (Line.resolve find)).map (Line.shifted n) := by
    rw [List.map_map, List.map_map]
    rfl
  rw [hcomm, hafter, ← hcomm, hbefore, List.map_map, List.map_map]
  exact List.map_congr_left fun l _ => (Line.moved_resolve addr n l).symm

/-! ## Tables -/

namespace SymbolTable

variable {t t₀ : SymbolTable} {n : Int}

/-- Uses that are resolved have the addresses of their names. -/
theorem map_uses_resolve (h : t.resolve.2 = none) :
    t.resolve.1.uses.map (fun u => (u.name, u.value)) =
      t.uses.map fun u => (u.name, .resolved ((t.offset? u.name).getD 0)) := by
  rw [uses_resolve h, List.map_map]
  refine List.map_congr_left fun u hu => ?_
  obtain ⟨addr, haddr⟩ := Option.isSome_iff_exists.1 (resolve_snd_eq_none.1 h u hu)
  simp [Ledger.bind, offset?_ledger, haddr, Use.resolve]

theorem exists_address_of_mem (h : t.resolve.2 = none) {u : Use} (hu : u ∈ t.resolve.1.uses) :
    ∃ addr, u.value = .resolved addr := by
  have hpair : (u.name, u.value) ∈ t.resolve.1.uses.map fun u => (u.name, u.value) :=
    List.mem_map_of_mem hu
  rw [map_uses_resolve h] at hpair
  obtain ⟨v, -, hv⟩ := List.mem_map.1 hpair
  exact ⟨_, (Prod.mk.inj hv).2.symm⟩

/-- The labels of a table are `n` words on in another one, which has the same uses. -/
structure Moved (n : Int) (t t₀ : SymbolTable) : Prop where
  caseFold_eq : t₀.caseFold = t.caseFold
  labels_eq : t₀.labels.map Label.view = t.labels.map fun l => (l.name, l.isLocal, l.offset + n)
  names_eq : t₀.uses.map (·.name) = t.uses.map (·.name)

namespace Moved

variable (h : t.Moved n t₀)

include h

theorem offset?_eq (name : Bytes) : t₀.offset? name = (t.offset? name).map (· + n) := by
  have hkey : t₀.key = t.key := by
    funext s
    simp only [key, h.caseFold_eq]
  rw [SymbolTable.offset?_eq, h.labels_eq, hkey, List.find?_map, Option.map_map, offset?,
    lookup?_eq_find?, Option.map_map]
  rfl

theorem resolve_snd (hr : t.resolve.2 = none) : t₀.resolve.2 = none := by
  refine resolve_snd_eq_none.2 fun u hu => ?_
  obtain ⟨v, hv, hname⟩ := List.mem_map.1 (h.names_eq ▸ List.mem_map_of_mem hu)
  rw [h.offset?_eq, Option.isSome_map, ← hname]
  exact resolve_snd_eq_none.1 hr v hv

theorem uses_eq (hr : t.resolve.2 = none) :
    t₀.resolve.1.uses.map (fun u => (u.name, u.value)) =
      t.resolve.1.uses.map fun u => (u.name, u.value.moved n) := by
  have hvalues (t : SymbolTable) : (t.uses.map fun u =>
      (u.name, Cell.resolved ((t.offset? u.name).getD 0))) = (t.uses.map (·.name)).map fun s =>
        (s, .resolved ((t.offset? s).getD 0)) := by
    rw [List.map_map]
    rfl
  have hmoved : (t.resolve.1.uses.map fun u => (u.name, u.value.moved n)) =
      (t.resolve.1.uses.map fun u => (u.name, u.value)).map fun v => (v.1, v.2.moved n) := by
    rw [List.map_map]
    rfl
  rw [map_uses_resolve (h.resolve_snd hr), hmoved, map_uses_resolve hr, hvalues, h.names_eq,
    List.map_map, List.map_map]
  refine List.map_congr_left fun u hu => ?_
  obtain ⟨addr, haddr⟩ := Option.isSome_iff_exists.1 (resolve_snd_eq_none.1 hr u hu)
  simp [h.offset?_eq, haddr, Cell.moved]

end Moved

end SymbolTable

theorem labelViews_shifted (lines : List Line) (n : Int) :
    labelViews (lines.map (Line.shifted n)) =
      (labelViews lines).map fun v => (v.1, v.2.1, v.2.2 + n) := by
  simp [labelViews, List.flatMap_map, List.map_flatMap, Line.shifted, Line.lowered,
    Function.comp_def]

theorem map_name_uses (lines : List Line) : (uses lines).map (·.name) =
    lines.flatMap fun l => (l.tokens.filter (·.kind == .labelUse)).map (·.symbol) := by
  simp [uses, usesOf, List.map_flatMap, Function.comp_def]

theorem filter_originText {n : Nat} {k : Kind} (hk : k = .labelDef ∨ k = .labelUse) :
    (lex .initial (originText n)).filter (·.kind == k) = [] := by
  refine List.filter_eq_nil_iff.2 fun t ht => ?_
  rcases Lexer.kind_of_mem_originText ht with h | h | h | h <;>
    rcases hk with rfl | rfl <;> simp [h]

/-! ## Words -/

theorem ofInt_natCast_word (n : Nat) : UInt16.ofInt n = UInt16.ofNat n := by
  refine UInt16.toNat_inj.1 ?_
  rw [UInt16.ofInt, UInt16.toNat_ofNat', UInt16.toNat_ofNat']
  omega

namespace WordSource

/-- A source, with the label uses of its expression `n` words on. -/
def moved (n : Int) : WordSource → WordSource
  | fixed w => fixed w
  | value ts => value (ts.map (Token.moved n))

/-- A word stays the same if there are no labels in its expression. -/
theorem moved_of_labelUses {s : WordSource} (h : s.labelUses = []) (n : Int) : s.moved n = s := by
  cases s with
  | fixed w => rfl
  | value ts =>
    have hts : ts.map (Token.moved n) = ts := by
      refine (List.map_congr_left fun t ht => ?_).trans (List.map_id ts)
      exact Token.moved_of_ne n (by simpa using List.filter_eq_nil_iff.1 h t ht)
    rw [moved, hts]

/-- A word that comes from a lone label use moves with it. -/
theorem word_moved_of_lone {t : Token} (hk : t.kind = .labelUse) {addr : Int}
    (h : t.value = some (.resolved addr)) (n : Nat) :
    ((value [t]).moved n).word = (value [t]).word + UInt16.ofNat n := by
  have hmoved : (t.moved n).value = some (.resolved (addr + n)) := by
    rw [Token.moved, if_pos hk, h]
    rfl
  rw [moved, List.map_singleton, word_of_lone hmoved, word_of_lone h, UInt16.ofInt_add,
    ofInt_natCast_word]

end WordSource

theorem Operand.sources_moved (n : Int) (o : Operand) :
    (o.moved n).sources = o.sources.map (WordSource.moved n) := by
  unfold sources moved
  cases o.expr <;> rfl

theorem Instruction.sources_moved (n : Int) (c : Instruction) :
    (c.moved n).sources = c.sources.map (WordSource.moved n) := by
  cases c with
  | basic op b a =>
    simp only [moved, sources, Operand.sources_moved, List.map_cons, List.map_append]
    rfl
  | special op a =>
    simp only [moved, sources, Operand.sources_moved, List.map_cons]
    rfl

theorem valueSources_moved (n : Int) (run : List Token) :
    valueSources (run.map (Token.moved n)) = (valueSources run).map (WordSource.moved n) := by
  unfold valueSources
  rw [loneString?_map (Token.moved_kind n) (Token.moved_contents n)]
  cases loneString? run with
  | some contents => simp [WordSource.moved, Function.comp_def]
  | none => rfl

/-- Moving a line moves the sources of its words. -/
theorem Line.sources_moved (n : Int) (l : Line) :
    (l.moved n).sources = l.sources.map (WordSource.moved n) := by
  have hkind : (l.moved n).kind? = l.kind? := rfl
  have hsize : (l.moved n).size = l.size := rfl
  have hcode : (l.moved n).code.elim [] Instruction.sources =
      (l.code.elim [] Instruction.sources).map (WordSource.moved n) := by
    show (l.code.map (·.moved n)).elim [] Instruction.sources = _
    cases l.code with
    | none => rfl
    | some c => exact c.sources_moved n
  have hdata : (l.moved n).dataValues.toOption.getD [] =
      (l.dataValues.toOption.getD []).map (List.map (Token.moved n)) := by
    have hvalues : (l.moved n).dataValues =
        l.dataValues.map (List.map (List.map (Token.moved n))) :=
      dataValues_map (Token.moved_kind n) rfl rfl
    rw [hvalues]
    cases l.dataValues <;> rfl
  unfold sources
  rw [hkind, hsize, hcode, hdata]
  cases l.kind? with
  | none => rfl
  | some k =>
    cases k with
    | data => simp [List.flatMap_map, List.map_flatMap, valueSources_moved]
    | origin | align | reserve => simp [WordSource.moved]
    | inclusion | define => rfl

/-! ## Programs -/

/-- A line that goes forward, once it is laid out. -/
def placedOrigin (doc : Document) (n : Nat) : Line := { originLine doc n with size := n }

theorem resolve_placedOrigin (find : Bytes → Option Int) (doc : Document) (n : Nat) :
    (placedOrigin doc n).resolve find = placedOrigin doc n := by
  have htokens : (lex .initial (originText n)).map (Token.resolve find) =
      lex .initial (originText n) := by
    refine (List.map_congr_left fun t ht => ?_).trans (List.map_id _)
    refine Token.resolve_of_ne find ?_
    rcases Lexer.kind_of_mem_originText ht with h | h | h | h <;> simp [h]
  simp only [Line.resolve, placedOrigin, originLine, htokens, Option.map_none]

theorem labelViews_placedOrigin (doc : Document) (n : Nat) (lines : List Line) :
    labelViews (placedOrigin doc n :: lines) = labelViews lines := by
  have hnone : (placedOrigin doc n).tokens.filter (·.kind == .labelDef) = [] :=
    filter_originText (.inl rfl)
  rw [labelViews, List.flatMap_cons, hnone]
  rfl

theorem map_name_uses_originLine (doc : Document) (n : Nat) (lines : List Line) :
    (uses (originLine doc n :: lines.map Line.lowered)).map (·.name) =
      (uses lines).map (·.name) := by
  have hnone : (originLine doc n).tokens.filter (·.kind == .labelUse) = [] :=
    filter_originText (.inr rfl)
  rw [map_name_uses, map_name_uses, List.flatMap_cons, List.flatMap_map, hnone]
  rfl

theorem layout_originLine {lines placed : List Line} (doc : Document) {n : Nat}
    (hlimit : n < intLimit) (h : (layout 0 lines).result = .ok placed)
    (hf : ∀ l ∈ placed, l.Floats)
    (hn : (n : Int) + (placed.map (·.size)).sum < addressLimit) :
    (layout 0 (originLine doc n :: lines.map Line.lowered)).result =
      .ok (placedOrigin doc n :: placed.map (Line.shifted n)) := by
  have hpos := (layout_laid h).1.sum_size_nonneg hf
  have hrest := layout_shifted h hf (Int.le_refl 0) (Int.natCast_nonneg n)
    (by rwa [Int.zero_add])
  have hwrap : wrap (0 + (n : Int)) = 0 + n := wrap_eq_self (by omega) (by omega)
  rw [← hwrap] at hrest
  exact layout_cons_eq_ok.2 ⟨n, none, _, measure_originLine doc hlimit, hrest, rfl⟩

section Passes

variable {asm : Assembler} {flat flat₀ placed : List Line} {program program₀ a : Assembly}
  {doc : Document} {n : Nat} (hread : asm.Read flat program) (hread₀ : asm.Read flat₀ program₀)
  (hlines : program₀.lines = originLine doc n :: program.lines.map Line.lowered)

include hread hread₀ hlines

theorem moved_locatedSymbols (hplaced : (layout 0 program.lines).result = .ok placed)
    (hplaced₀ : (layout 0 program₀.lines).result =
      .ok (placedOrigin doc n :: placed.map (Line.shifted n))) :
    (program.locatedSymbols placed).Moved n
      (program₀.locatedSymbols (placedOrigin doc n :: placed.map (Line.shifted n))) := by
  have hviews := hread.map_view_labels (layout_laid hplaced).2
  have hviews₀ := hread₀.map_view_labels (layout_laid hplaced₀).2
  refine ⟨?_, ?_, ?_⟩
  · rw [hread.locatedSymbols_eq, hread₀.locatedSymbols_eq, Ledger.table_caseFold,
      Ledger.table_caseFold]
  · rw [hviews₀, labelViews_placedOrigin, labelViews_shifted, ← hviews, List.map_map]
    rfl
  · rw [hread.locatedSymbols_eq, hread₀.locatedSymbols_eq]
    refine Ledger.names_uses_table rfl ?_
    rw [hlines, map_name_uses_originLine]

/-- The passes after reading, behind a line that goes forward. -/
theorem exists_resolved_moved (hlimit : n < intLimit) (hres : program.resolved.result = .ok a)
    (hf : ∀ l ∈ a.lines, l.Floats) (hn : (n : Int) + (a.lines.map (·.size)).sum < addressLimit) :
    ∃ b, program₀.resolved.result = .ok b ∧
      b.lines = placedOrigin doc n :: a.lines.map (Line.moved n) ∧
      b.symbols.labels.map Label.view =
        a.symbols.labels.map (fun l => (l.name, l.isLocal, l.offset + (n : Int))) ∧
      b.symbols.uses.map (fun u => (u.name, u.value)) =
        a.symbols.uses.map fun u => (u.name, u.value.moved n) := by
  obtain ⟨placed, symbols, hplaced, hresolve, rfl⟩ := Assembly.resolved_eq_ok hres
  obtain ⟨hlaid, hsame⟩ := layout_laid hplaced
  have hfloats : ∀ l ∈ placed, l.Floats := by
    intro l hl
    have hresolved := hf _ (List.mem_map_of_mem hl)
    exact hresolved
  have hsum : (n : Int) + (placed.map (·.size)).sum < addressLimit := by
    rwa [List.map_map] at hn
  have hplaced₀ : (layout 0 program₀.lines).result =
      .ok (placedOrigin doc n :: placed.map (Line.shifted n)) := by
    rw [hlines]
    exact layout_originLine doc hlimit hplaced hfloats hsum
  have hmoved := moved_locatedSymbols hread hread₀ hlines hplaced hplaced₀
  have hnone : (program.locatedSymbols placed).resolve.2 = none := by rw [hresolve]
  have hsymbols : (program.locatedSymbols placed).resolve.1 = symbols := by rw [hresolve]
  -- resolution succeeded, so each label a line uses has an address to move
  have hdefined : ∀ l ∈ placed, ∀ t ∈ l.tokens, t.kind = .labelUse →
      ((program.locatedSymbols placed).offset? t.symbol).isSome := by
    intro l hl t ht hk
    obtain ⟨u, hu, hname⟩ := exists_use hsame hl ht hk
    rw [← hname]
    refine SymbolTable.resolve_snd_eq_none.1 hnone u ?_
    rwa [hread.locatedSymbols_eq, Ledger.mem_uses_table]
  refine ⟨_, Assembly.resolved_of_resolve hplaced₀ (Prod.ext rfl (hmoved.resolve_snd hnone)),
    ?_, ?_, ?_⟩
  · show List.map _ (_ :: _) = _ :: List.map _ (placed.map _)
    rw [List.map_cons, resolve_placedOrigin, SymbolTable.offset?_resolve, ← hsymbols,
      SymbolTable.offset?_resolve]
    exact congrArg _ (hlaid.map_moved_resolve hmoved.offset?_eq hdefined)
  · show (SymbolTable.labels _).map _ = symbols.labels.map _
    rw [SymbolTable.resolve_labels, hmoved.labels_eq, ← hsymbols, SymbolTable.resolve_labels]
  · rw [← hsymbols]
    exact hmoved.uses_eq hnone

/-- Behind a line that goes forward, everything is recognised that was recognised before. -/
theorem lexErrors_behind (hlex : program.lexErrors = []) : program₀.lexErrors = [] := by
  rw [hread.lexErrors_eq, List.flatMap_eq_nil_iff] at hlex
  rw [hread₀.lexErrors_eq, hlines, List.flatMap_cons, lexErrors_originLine, List.nil_append,
    List.flatMap_map, List.flatMap_eq_nil_iff]
  exact fun l hl => List.map_eq_nil_iff.2 (List.map_eq_nil_iff.1 (hlex l hl))

end Passes

/-- A program, and the same program `n` words on behind a line that goes there. -/
structure Assembly.Moved (n : Nat) (a b : Assembly) : Prop where
  /-- The lines are the same, with their addresses and those of their label uses `n` words on. -/
  lines_eq : ∃ first : Line, first.raw = originText n ∧ first.offset = 0 ∧ first.size = n ∧
    b.lines = first :: a.lines.map (Line.moved n)
  labels_eq : b.symbols.labels.map Label.view =
    a.symbols.labels.map fun l => (l.name, l.isLocal, l.offset + (n : Int))
  uses_eq : b.symbols.uses.map (fun u => (u.name, u.value)) =
    a.symbols.uses.map fun u => (u.name, u.value.moved n)
  /-- No label use was without an address. -/
  use_resolved : ∀ u ∈ a.symbols.uses, ∃ addr, u.value = .resolved addr
  token_resolved : ∀ l ∈ a.lines, ∀ t ∈ l.tokens, t.kind = .labelUse →
    ∃ addr, t.value = some (.resolved addr)
  /-- A word stays the same if no label stands in its expression, and is `n` more if it comes from
  a lone label. -/
  words : ∀ {img out img' out' : Image}, a.assemble img = (out, none) →
    b.assemble img' = (out', none) → ∀ l ∈ a.lines, (l.sources.length : Int) = l.size ∧
      ∀ (k : Nat) (s : WordSource), l.sources[k]? = some s →
        out.words[(l.offset + k).toNat]? = some s.word ∧
        ∃ w, out'.words[(l.offset + n + k).toNat]? = some w ∧
          (s.labelUses = [] → w = s.word) ∧
          ∀ t, s = .value [t] → t.kind = .labelUse → w = s.word + UInt16.ofNat n

namespace Assembler

variable {asm : Assembler} {name text : Bytes} {a b : Assembly} {n : Nat}

/-- The words of a line, before and after it is moved. -/
theorem getElem?_words_moved {name' text' : Bytes} {first l : Line} {img out img' out' : Image}
    (ha : asm.Accepts name text a) (hb : asm.Accepts name' text' b)
    (hlines : b.lines = first :: a.lines.map (Line.moved n)) (h : a.assemble img = (out, none))
    (h' : b.assemble img' = (out', none)) (hl : l ∈ a.lines) :
    (l.sources.length : Int) = l.size ∧ ∀ (k : Nat) (s : WordSource), l.sources[k]? = some s →
      out.words[(l.offset + k).toNat]? = some s.word ∧
      out'.words[(l.offset + n + k).toNat]? = some (s.moved n).word := by
  obtain ⟨hpacked, -, hout⟩ := Assembly.packed_of_assemble ha h
  obtain ⟨hpacked', -, hout'⟩ := Assembly.packed_of_assemble hb h'
  have hmem : l.moved n ∈ b.lines := by
    rw [hlines]
    exact List.mem_cons_of_mem first (List.mem_map_of_mem hl)
  obtain ⟨pos, hat⟩ := hpacked.exists_at hl
  obtain ⟨pos', hat'⟩ := hpacked'.exists_at hmem
  obtain ⟨block, hblock⟩ := hat.encodes
  obtain ⟨block', hblock'⟩ := hat'.encodes
  have hwords := Line.map_word_sources hblock
  have hwords' := Line.map_word_sources hblock'
  rw [Line.sources_moved] at hwords'
  refine ⟨by rw [hat.size_eq, ← hwords, List.length_map], fun k s hs => ?_⟩
  obtain ⟨hk, -⟩ := List.getElem?_eq_some_iff.1 hs
  constructor
  · rw [hpacked.getElem?_eq hout hl (by rwa [← hwords, List.length_map]), ← hwords,
      List.getElem?_map, hs, Option.map_some]
  · have hplace : l.offset + n + k = (l.moved n).offset + k := rfl
    rw [hplace, hpacked'.getElem?_eq hout' hmem (by simpa [← hwords'] using hk), ← hwords',
      List.getElem?_map, List.getElem?_map, hs]
    rfl

/-- Moving a program moves its addresses and nothing else. A program without lines that go to an
address in particular is accepted behind a line `.org n` if its addresses do not wrap around there.
Its lines keep their sizes, and they, its labels and its label uses are `n` words on. A word of it
stays the same if there is no label in its expression, and is `n` more if it comes from a lone
label. -/
theorem accepts_moved (hp : asm.predefines = []) (ha : asm.Accepts name text a)
    (hf : ∀ l ∈ a.lines, l.kind? ≠ some .origin ∧ l.kind? ≠ some .align)
    (hn : (n : Int) + (a.lines.map (·.size)).sum < 2 ^ 63) :
    ∃ b, asm.Accepts name (originText n ++ byte '\n' :: text) b ∧ a.Moved n b := by
  obtain ⟨defines, program, hd, hprogram, hlex, hres⟩ := parse_accepts ha
  obtain rfl : ⟨asm.defineLimit, []⟩ = defines := by
    simpa [initialDefines, hp, addDefines] using hd
  obtain ⟨lines, -, hread⟩ := read_of_readProgram hd hprogram
  obtain ⟨extent, hreads, rfl⟩ := readProgram_eq_ok.1 hprogram
  have hlimit : n < intLimit := by
    have := (laid_of_accepts ha).sum_size_nonneg hf
    unfold intLimit
    omega
  obtain ⟨extent₀, hreads₀, hlines₀⟩ := exists_reads_behind rfl hlimit hreads
  have hprogram₀ := readProgram_eq_ok.2 ⟨extent₀, hreads₀, rfl⟩
  obtain ⟨lines₀, -, hread₀⟩ := read_of_readProgram hd hprogram₀
  obtain ⟨b, hb, hlines, hlabels, huses⟩ :=
    exists_resolved_moved hread hread₀ hlines₀ hlimit hres hf hn
  have hlex₀ : (Assembly.ofExtent (Path.clean name) (originText n ++ byte '\n' :: text)
      extent₀).lexErrors = [] :=
    lexErrors_behind hread hread₀ hlines₀ hlex
  have hbaccepts : asm.Accepts name (originText n ++ byte '\n' :: text) b :=
    accepts_of_resolved hd hprogram₀ hlex₀ hb
  refine ⟨b, hbaccepts, ⟨_, rfl, rfl, rfl, hlines⟩, hlabels, huses, ?_, fun l hl t ht hk =>
    exists_address ha hl ht hk, ?_⟩
  · obtain ⟨placed, symbols, -, hresolve, rfl⟩ := Assembly.resolved_eq_ok hres
    have hsymbols : ((Assembly.ofExtent (Path.clean name) text extent).locatedSymbols
        placed).resolve.1 = symbols := by rw [hresolve]
    intro u hu
    exact SymbolTable.exists_address_of_mem (by rw [hresolve]) (hsymbols ▸ hu)
  · intro img out img' out' h h' l hl
    obtain ⟨hlength, hwords⟩ := getElem?_words_moved ha hbaccepts hlines h h' hl
    refine ⟨hlength, fun k s hs => ?_⟩
    obtain ⟨hw, hw'⟩ := hwords k s hs
    refine ⟨hw, _, hw', fun hnone => by rw [WordSource.moved_of_labelUses hnone], ?_⟩
    rintro t rfl hk
    have huse : t ∈ (WordSource.value [t]).labelUses := by simp [WordSource.labelUses, hk]
    have ht := Line.mem_tokens_of_source ((laid_of_accepts ha).measure_eq hl)
      (List.mem_of_getElem? hs) huse
    obtain ⟨addr, haddr⟩ := exists_address ha hl ht hk
    exact WordSource.word_moved_of_lone hk haddr n

/-- Labels and uses of them in both documents, strings, values and words that are left free. -/
def sampleFloating : Bytes :=
  "#define N 3\n:main SET A, N\n JSR end\n.include lib\n SET [.loop], B ; note\n\n" ++
    "top: DAT \"hi\\n\", (N+1), main\n.reserve 2\nend:"

/-- The sample and the moved one fit an image of 64 words. -/
theorem sample_accepts_moved : ∃ a b, sampleAssembler.Accepts "m" sampleFloating a ∧
    (∀ l ∈ a.lines, l.kind? ≠ some .origin ∧ l.kind? ≠ some .align) ∧
    (a.lines.map (·.size)).sum = 19 ∧
    sampleAssembler.Accepts "m" (originText 16 ++ byte '\n' :: sampleFloating) b ∧ a.Moved 16 b ∧
    (a.assemble (Image.zeros 64)).2 = none ∧ (b.assemble (Image.zeros 64)).2 = none := by
  obtain ⟨a, ha, hp⟩ := sampleAssembler.exists_accepts "m" sampleFloating
    (fun a => (a.lines.all fun l => decide (l.kind? ≠ some .origin ∧ l.kind? ≠ some .align)) &&
      (decide ((a.lines.map (·.size)).sum = 19) &&
        decide ((a.assemble (Image.zeros 64)).2 = none))) (by decide +kernel)
  simp only [Bool.and_eq_true, decide_eq_true_eq, List.all_eq_true] at hp
  obtain ⟨hf, hsum, hfits⟩ := hp
  obtain ⟨b, hb, hmoved⟩ := accepts_moved rfl ha hf (n := 16) (by rw [hsum]; decide)
  obtain ⟨b', hb', hp'⟩ := sampleAssembler.exists_accepts "m"
    (originText 16 ++ byte '\n' :: sampleFloating)
    (fun b => decide ((b.assemble (Image.zeros 64)).2 = none)) (by decide +kernel)
  obtain rfl : b' = b := (Prod.mk.inj (Except.ok.inj (hb'.symm.trans hb))).1
  exact ⟨a, b', ha, hf, hsum, hb, hmoved, hfits, of_decide_eq_true hp'⟩

end Assembler

end Asm16
