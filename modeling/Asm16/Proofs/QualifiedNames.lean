import Asm16.Proofs.ImageFiles
import Asm16.Proofs.LabelDefinitions
import Asm16.Proofs.Lexemes
import Asm16.Proofs.Sweeps
import Asm16.Proofs.Unrecognised

/-!
# Full names of labels

The full name of a local label is the global label in force followed by its own name, put together
without anything between them. That this mixes no names up rests on what the lexer takes for a
name : whether a label is defined or used, its name is a word without a dot, behind one dot if it is
local (`Lexer.Found.named`). So the first dot of a full name is where the scope ends
(`qualify_eq_iff`), and there is one exactly if the label is local (`dot_mem_qualify_iff`).

Reading keeps the scope empty or the name of a global label, at every line and within it
(`Assembler.Knows.regular`). The command looks for a dot in the full name to leave local labels out,
which is then the same as to ask for the labels that are not local.
-/

namespace Asm16

/-! ## Names of tokens -/

/-- The kinds of tokens that name a label. -/
def Kind.isLabel : Kind → Bool
  | labelDef | labelUse => true
  | _ => false

/-- The name of a label is a word, behind a dot if the label is local. -/
def Lexeme.Named (l : Lexeme) : Prop :=
  l.kind.isLabel = true → ∃ word, isDefineKey word = true ∧ l.name = labelName l.isLocal word

namespace Lexer

theorem named_of_not_isLabel {l : Lexeme} (h : l.kind.isLabel = false) : l.Named := by
  intro hk
  rw [h] at hk
  cases hk

theorem named_of_identifier? {l : Lexeme} {s name after : Bytes}
    (h : identifier? s = some (name, after)) (hname : l.name = name)
    (hlocal : l.isLocal = decide (name.head? = some (byte '.'))) : l.Named := by
  intro _
  obtain ⟨isLocal, word, hw, rfl, -, -⟩ := identifier?_eq_some_iff.1 h
  rw [head?_labelName hw] at hlocal
  exact ⟨word, hw, by rw [hname, hlocal]⟩

theorem named_labelDef {text s name after : Bytes} (hm : Marked name text)
    (h : identifier? s = some (name, after)) : (labelDef text).Named :=
  named_of_identifier? h (labelDef_spec hm h).1 (labelDef_spec hm h).2

theorem named_wordLexeme {s name after : Bytes} (h : identifier? s = some (name, after)) :
    (wordLexeme name).Named := by
  unfold wordLexeme
  simp only
  split
  · exact named_of_not_isLabel rfl
  split
  · exact named_of_not_isLabel rfl
  split
  · exact named_of_not_isLabel rfl
  · refine named_of_identifier? h (Marked.name_eq .alone (colon_not_mem_of_identifier? h) ?_
      (.inr rfl)) rfl
    exact ne_nil_of_identifier? h

/-- Every label that is read, in a definition or in a use, is named so. -/
theorem Found.named {l : Lexeme} (h : Found l) : l.Named := by
  cases h with
  | @bare k _ hk =>
    have hlabel : k.isLabel = false := by
      revert hk
      cases k <;> decide
    exact named_of_not_isLabel hlabel
  | definition h ht =>
    rcases ht with rfl | rfl
    · exact named_labelDef .front h
    · exact named_labelDef .back h
  | word h => exact named_wordLexeme h
  | literal | string => exact named_of_not_isLabel rfl

end Lexer

/-- A token that was read from a line, and names a label. -/
structure Token.IsLabel (t : Token) : Prop where
  exists_lex : ∃ mode s, t ∈ lex mode s
  kind_eq : t.kind = .labelDef ∨ t.kind = .labelUse

theorem Token.IsLabel.exists_name {t : Token} (h : t.IsLabel) :
    ∃ word, isDefineKey word = true ∧ t.name = labelName t.isLocal word := by
  obtain ⟨mode, s, ht⟩ := h.exists_lex
  refine (Lexer.found_of_run {} s _ (Lexer.mem_place ht)).named ?_
  rcases h.kind_eq with hk | hk <;> rw [hk] <;> rfl

/-! ## Full names -/

/-- A scope that reading can be in : none, or a global label that a line defines. -/
def IsScope (scope : Bytes) : Prop :=
  scope = [] ∨ ∃ t : Token, t.IsLabel ∧ t.kind = .labelDef ∧ t.isLocal = false ∧ t.name = scope

section Full

variable {scope scope' : Bytes} {t t' : Token}

theorem IsScope.dot_not_mem (h : IsScope scope) : byte '.' ∉ scope := by
  obtain rfl | ⟨t, ht, -, hlocal, rfl⟩ := h
  · simp
  · obtain ⟨word, hw, hname⟩ := ht.exists_name
    rw [hname, hlocal]
    exact not_mem_of_isDefineKey hw rfl

theorem qualify_global (h : t.isLocal = false) : (qualify scope t.toLexeme).1 = t.name := by
  rw [qualify, if_neg (by simp [h])]

theorem qualify_local (h : t.isLocal = true) :
    (qualify scope t.toLexeme).1 = scope ++ t.name := by
  rw [qualify, if_pos h]

/-- There is a dot in the full name of a label exactly if the label is local. -/
theorem dot_mem_qualify_iff (scope : Bytes) (ht : t.IsLabel) :
    byte '.' ∈ (qualify scope t.toLexeme).1 ↔ t.isLocal = true := by
  obtain ⟨word, hw, hname⟩ := ht.exists_name
  cases hlocal : t.isLocal with
  | true =>
    rw [qualify_local hlocal, hname, hlocal]
    exact iff_of_true (List.mem_append_right _ List.mem_cons_self) rfl
  | false =>
    rw [qualify_global hlocal, hname, hlocal]
    exact iff_of_false (not_mem_of_isDefineKey hw rfl) Bool.false_ne_true

/-- The scope of a local label is what comes before the first dot of its full name. -/
theorem takeWhile_qualify (hs : IsScope scope) (ht : t.IsLabel) (h : t.isLocal = true) :
    (qualify scope t.toLexeme).1.takeWhile (· ≠ byte '.') = scope := by
  obtain ⟨word, -, hname⟩ := ht.exists_name
  rw [qualify_local h, hname, h]
  refine takeWhile_append_of_head? (fun c hc => ?_) (fun c hc => ?_)
  · have hne : c ≠ byte '.' := by
      rintro rfl
      exact hs.dot_not_mem hc
    simpa using hne
  · obtain rfl := Option.some.inj hc
    rfl

/-- Full names are equal only for global labels of one name, and for local labels of one name in one
scope. -/
theorem qualify_eq_iff (hs : IsScope scope) (hs' : IsScope scope') (ht : t.IsLabel)
    (ht' : t'.IsLabel) : (qualify scope t.toLexeme).1 = (qualify scope' t'.toLexeme).1 ↔
      (t.isLocal = false ∧ t'.isLocal = false ∧ t.name = t'.name) ∨
      (t.isLocal = true ∧ t'.isLocal = true ∧ t.name = t'.name ∧ scope = scope') := by
  constructor
  · intro heq
    have hsame : t.isLocal = t'.isLocal := by
      rw [Bool.eq_iff_iff, ← dot_mem_qualify_iff scope ht, heq, dot_mem_qualify_iff scope' ht']
    cases hlocal : t.isLocal with
    | false =>
      have hlocal' : t'.isLocal = false := hsame ▸ hlocal
      rw [qualify_global hlocal, qualify_global hlocal'] at heq
      exact .inl ⟨rfl, hlocal', heq⟩
    | true =>
      have hlocal' : t'.isLocal = true := hsame ▸ hlocal
      obtain rfl : scope = scope' := by
        rw [← takeWhile_qualify hs ht hlocal, heq, takeWhile_qualify hs' ht' hlocal']
      rw [qualify_local hlocal, qualify_local hlocal'] at heq
      exact .inr ⟨rfl, hlocal', List.append_cancel_left heq, rfl⟩
  · rintro (⟨hlocal, hlocal', hname⟩ | ⟨hlocal, hlocal', hname, rfl⟩)
    · rw [qualify_global hlocal, qualify_global hlocal', hname]
    · rw [qualify_local hlocal, qualify_local hlocal', hname]

end Full

/-! ## Labels while a program is read -/

/-- In the full name of a label there is a dot exactly if the label is local. -/
def Label.Dotted (l : Label) : Prop := byte '.' ∈ l.name ↔ l.isLocal = true

section Reading

variable {scope : Bytes} {ts : List Token}

theorem isScope_scopeAfter (hs : IsScope scope) (hts : ∀ t ∈ ts, ∃ mode s, t ∈ lex mode s) :
    IsScope (scopeAfter scope ts) := by
  rw [scopeAfter_eq]
  cases hlast : (ts.filter Token.opensScope).getLast? with
  | none => exact hs
  | some t =>
    obtain ⟨ht, hopens⟩ := List.mem_filter.1 (List.mem_of_getLast? hlast)
    obtain ⟨hk, hlocal⟩ := Bool.and_eq_true_iff.1 hopens
    have hkind : t.kind = .labelDef := beq_iff_eq.1 hk
    exact .inr ⟨t, ⟨hts t ht, .inl hkind⟩, hkind, by simpa using hlocal, rfl⟩

theorem dotted_of_mem_definitionsOf (hts : ∀ t ∈ ts, ∃ mode s, t ∈ lex mode s) {site : Site}
    {index : Nat} {l : Label} (hl : l ∈ definitionsOf site index (nameTokens scope ts)) :
    l.Dotted := by
  obtain ⟨t, ht, rfl⟩ := List.mem_map.1 hl
  obtain ⟨ht, hk⟩ := List.mem_filter.1 ht
  obtain ⟨scope', u, hu, rfl⟩ := exists_mem_of_mem_nameTokens ht
  rw [Token.named_kind] at hk
  have hkind : u.kind = .labelDef ∨ u.kind = .labelUse := .inl (beq_iff_eq.1 hk)
  have hsymbol : (u.named scope').symbol = (qualify scope' u.toLexeme).1 := by
    rw [Token.named, if_pos hkind]
  have hlocal : (u.named scope').isLocal = u.isLocal := by
    rw [Token.named, if_pos hkind]
  rw [Label.Dotted, hsymbol, hlocal]
  exact dot_mem_qualify_iff scope' ⟨hts u hu, hkind⟩

/-- Tables and scopes that reading comes by : labels are dotted if they are local, and the scope is
a global label. -/
structure SymbolTable.Regular (table : SymbolTable) (scope : Bytes) : Prop where
  isScope : IsScope scope
  dotted : ∀ l ∈ table.labels, l.Dotted

theorem SymbolTable.Regular.enterLabels {symbols table : SymbolTable} {scope' : Bytes}
    (h : symbols.Regular scope) (hts : ∀ t ∈ ts, ∃ mode s, t ∈ lex mode s) {site : Site}
    {index : Nat} {named : List Token}
    (henter : enterLabels site index symbols scope ts = .ok (named, table, scope')) :
    table.Regular scope' := by
  obtain ⟨-, hresult⟩ := enterLabels_eq_ok.1 henter
  cases hresult
  exact ⟨isScope_scopeAfter h.isScope hts,
    List.forall_mem_append.2 ⟨h.dotted, fun l hl => dotted_of_mem_definitionsOf hts hl⟩⟩

end Reading

theorem exists_lex_of_applyDefines {site : Site} {ds ds' : Defines} {r : Reading}
    (h : (applyDefines site ds).result = .ok (r, ds')) :
    ∀ t ∈ r.tokens, ∃ mode s, t ∈ lex mode s := by
  obtain ⟨mode, hr⟩ := exists_ofText_of_applyDefines h
  intro t ht
  rw [hr] at ht
  exact ⟨mode, _, ht⟩

theorem keptByLines_regular : KeptByLines fun p => p.symbols.Regular p.scope := by
  intro doc number raw p line q hline hp
  obtain ⟨r, ds, happly, hclash, -, rfl⟩ := readLine_eq_ok.1 hline
  exact hp.enterLabels (exists_lex_of_applyDefines happly) (enterLabels_eq_ok.2 ⟨hclash, rfl⟩)

namespace Assembler

variable {asm : Assembler} {name text : Bytes}

/-- At some moment while a program is read, be it in the middle of a line, the labels known are
those of `table`, and the scope is `scope`. -/
def Knows (asm : Assembler) (name text : Bytes) (table : SymbolTable) (scope : Bytes) : Prop :=
  ∃ s, asm.ComesBy name text s ∧
    ((table = s.progress.symbols ∧ scope = s.progress.scope) ∨
    ∃ raw rest r ds front back named, s.raws = raw :: rest ∧
      (applyDefines ⟨s.document.name, s.number, raw⟩ s.progress.defines).result = .ok (r, ds) ∧
      r.tokens = front ++ back ∧
      enterLabels ⟨s.document.name, s.number, raw⟩ s.progress.count s.progress.symbols
        s.progress.scope front = .ok (named, table, scope))

theorem regular_start (asm : Assembler) (defines : Defines) :
    (asm.start defines).symbols.Regular (asm.start defines).scope :=
  ⟨.inl rfl, by simp [start, SymbolTable.empty]⟩

theorem Knows.regular {table : SymbolTable} {scope : Bytes}
    (h : asm.Knows name text table scope) : table.Regular scope := by
  obtain ⟨s, ⟨defines, -, hreaches⟩, hs⟩ := h
  have hplace := hreaches.kept keptByLines_regular (asm.regular_start defines)
  obtain ⟨rfl, rfl⟩ | ⟨raw, rest, r, ds, front, back, named, -, happly, htokens, henter⟩ := hs
  · exact hplace
  · refine hplace.enterLabels (fun t ht => exists_lex_of_applyDefines happly t ?_) henter
    rw [htokens]
    exact List.mem_append_left _ ht

/-- The labels of an accepted program are those that were known when it had been read, with their
addresses. -/
theorem dotted_of_accepts {a : Assembly} (h : asm.Accepts name text a) :
    ∀ l ∈ a.symbols.labels, l.Dotted := by
  obtain ⟨defines, program, -, hr, -, hres⟩ := parse_accepts h
  have hdotted : ∀ l ∈ program.symbols.labels, l.Dotted := by
    obtain ⟨extent, hreads, rfl⟩ := readProgram_eq_ok.1 hr
    exact (hreads.kept keptByLines_regular (asm.regular_start defines) rfl).dotted
  obtain ⟨placed, symbols, -, hresolve, rfl⟩ := Assembly.resolved_eq_ok hres
  have hlabels := SymbolTable.resolve_labels (program.locatedSymbols placed)
  rw [hresolve] at hlabels
  intro l hl
  rw [hlabels] at hl
  obtain ⟨m, hm, rfl⟩ := List.mem_map.1 hl
  exact hdotted m hm

end Assembler

/-! ## The labels that the command prints -/

/-- The address and the name of a label, as the command prints them. -/
def Label.printed (l : Label) : Bytes :=
  Numeral.paddedInt 16 4 l.offset ++ " " ++ l.name ++ "\n"

namespace Command

variable {d : Directory} {o : Options} {operands : List Bytes} {a : Assembly}

/-- A run of the command loads the program `a` and assembles it into the image `img`. -/
def Assembles (d : Directory) (o : Options) (operands : List Bytes) (a : Assembly) (img : Image) :
    Prop :=
  ∃ source settings project name, operands = [source] ∧ o.settings? d = some settings ∧
    inside? (d.absolute settings.workspaceRoot) (d.absolute settings.projectRoot) = some project ∧
    inside? (d.absolute settings.workspaceRoot) (d.absolute source) = some name ∧
    (loadProgram (assembler settings
      ⟨d.filesIn (d.absolute settings.workspaceRoot), project, "."⟩ o.defines) name).result =
        .ok a ∧
    a.assemble (.zeros settings.imageWords) = (img, none)

/-- The labels to list are chosen by their full names, which tells the same as their locality. -/
theorem labelLines_eq (h : ∀ l ∈ a.symbols.labels, l.Dotted) : o.labelLines a =
    (a.symbols.labels.filter fun l => o.locals || !l.isLocal).flatMap Label.printed := by
  have hkeep : a.symbols.labels.filter (o.lists ∘ fun l => (l.name, l.offset)) =
      a.symbols.labels.filter fun l => o.locals || !l.isLocal := by
    refine List.filter_congr fun l hl => ?_
    have hcontains : l.name.contains (byte '.') = l.isLocal := by
      rw [Bool.eq_iff_iff, List.contains_iff_mem]
      exact h l hl
    exact congrArg (fun b => o.locals || !b) hcontains
  rw [Options.labelLines, Pairs.take_zero, Assembly.labels, List.filter_map, List.flatMap_map,
    hkeep]
  rfl

theorem exists_assembles_of_run {args : List Bytes} (h : Options.parse {} args = .ok (o, operands))
    (hstatus : (run d args).status = 0) :
    ∃ a img, Assembles d o operands a img ∧ (run d args).printed = o.report a img := by
  rw [run, h] at hstatus ⊢
  simp only at hstatus ⊢
  cases hbuild : (build d o operands).result with
  | error u => simp [hbuild] at hstatus
  | ok product =>
    simp only [hbuild] at hstatus ⊢
    obtain ⟨source, settings, project, name, a, img, hoperands, hsettings, hproject, hname, hload,
      himg, rfl⟩ := build_eq_ok.1 hbuild
    refine ⟨a, img, ⟨source, settings, project, name, hoperands, hsettings, hproject, hname, hload,
      himg⟩, ?_⟩
    split at hstatus
    · cases hstatus
    · rfl

theorem Assembles.dotted {img : Image} (h : Assembles d o operands a img) :
    ∀ l ∈ a.symbols.labels, l.Dotted := by
  obtain ⟨source, settings, project, name, -, -, -, -, hload, -⟩ := h
  obtain ⟨text, ha⟩ := exists_accepts_of_loadProgram hload
  exact Assembler.dotted_of_accepts ha

/-- Full names of labels are unambiguous : those of two tokens are equal only if both are global and
have one name, or both are local and have one name and one scope. While a program is read the scope
is empty or the name of a global label, and the labels with a dot in the full name are the local
ones. So the command, which leaves out the labels with a dot in the name unless it is told
otherwise, prints the global labels. -/
theorem full_names_unambiguous :
    (∀ (scope scope' : Bytes) (t t' : Token), IsScope scope → IsScope scope' → t.IsLabel →
      t'.IsLabel → ((qualify scope t.toLexeme).1 = (qualify scope' t'.toLexeme).1 ↔
        (t.isLocal = false ∧ t'.isLocal = false ∧ t.name = t'.name) ∨
        (t.isLocal = true ∧ t'.isLocal = true ∧ t.name = t'.name ∧ scope = scope'))) ∧
    (∀ (asm : Assembler) (name text : Bytes) (table : SymbolTable) (scope : Bytes),
      asm.Knows name text table scope →
      IsScope scope ∧ ∀ l ∈ table.labels, (byte '.' ∈ l.name ↔ l.isLocal = true)) ∧
    ∀ (d : Directory) (args : List Bytes) (o : Options) (operands : List Bytes),
      Options.parse {} args = .ok (o, operands) → (run d args).status = 0 →
      ∃ a img, Assembles d o operands a img ∧ (run d args).printed =
        (if o.labels then
          (a.symbols.labels.filter fun l => o.locals || !l.isLocal).flatMap Label.printed
        else []) ++
        (if o.listing then a.listing img else []) := by
  refine ⟨fun _ _ _ _ hs hs' ht ht' => qualify_eq_iff hs hs' ht ht', ?_, ?_⟩
  · intro asm name text table scope h
    exact ⟨h.regular.isScope, h.regular.dotted⟩
  · intro d args o operands hargs hstatus
    obtain ⟨a, img, ha, hprinted⟩ := exists_assembles_of_run hargs hstatus
    refine ⟨a, img, ha, ?_⟩
    rw [hprinted, Options.report, labelLines_eq ha.dotted]

/-- The use of a local label. -/
def sampleUse : Token := ⟨⟨.labelUse, ".b", some .pending, true, []⟩, 7, .initial, []⟩

/-- The definition of a local label. -/
def sampleLocal : Token := ⟨⟨.labelDef, ".b:", none, true, []⟩, 0, .initial, []⟩

/-- The definition of a global label. -/
def sampleGlobal : Token := ⟨⟨.labelDef, ":a", none, false, []⟩, 0, .initial, []⟩

/-- A program that defines a local label in each of two scopes. -/
def scopedDirectory : Directory :=
  ⟨"/w", [("/w/devasm.cue", "imageWords: 9"), ("/w/a.dasm", "a: .b: SET A, .b\n:c .b: SET PC, .b")]⟩

theorem sample_full_names_unambiguous :
    (qualify "a" sampleUse.toLexeme).1 = (qualify "a" sampleLocal.toLexeme).1 ∧
    (qualify "a" sampleUse.toLexeme).1 ≠ (qualify [] sampleLocal.toLexeme).1 ∧
    (∃ table scope, ({} : Assembler).Knows "main" "a: .b: a:" table scope ∧ IsScope scope ∧
      ∃ l ∈ table.labels, l.name = "a.b" ∧ (byte '.' ∈ l.name ↔ l.isLocal = true)) ∧
    ∃ a img, Assembles scopedDirectory { labels := true } ["a.dasm"] a img ∧
      (a.symbols.labels.filter (!·.isLocal)).flatMap Label.printed = "0000 a\n0002 c\n" := by
  obtain ⟨hqualify, hknows, hcommand⟩ := full_names_unambiguous
  have huse : sampleUse.IsLabel := ⟨⟨.initial, "SET A, .b", by decide +kernel⟩, .inr rfl⟩
  have hlocal : sampleLocal.IsLabel := ⟨⟨.initial, ".b:", by decide +kernel⟩, .inl rfl⟩
  have hglobal : sampleGlobal.IsLabel := ⟨⟨.initial, ":a", by decide +kernel⟩, .inl rfl⟩
  have hscope : IsScope "a" := .inr ⟨sampleGlobal, hglobal, rfl, rfl, by decide⟩
  refine ⟨(hqualify _ _ _ _ hscope hscope huse hlocal).2 (by decide), fun heq => ?_, ?_, ?_⟩
  · have hcases := (hqualify _ _ _ _ hscope (.inl rfl) huse hlocal).1 heq
    revert hcases
    decide
  · -- the third label of the line is defined already, and the table has the first two
    obtain ⟨⟨r, ds⟩, happly, htokens⟩ := exists_ok
      (show (applyDefines ⟨"main", 1, "a: .b: a:"⟩ ⟨0, []⟩).result.toOption.any
        (fun r => decide (r.1.tokens = lex .initial "a: .b: a:")) = true by decide +kernel)
    obtain ⟨⟨named, table, scope⟩, henter, hlabel⟩ := exists_ok
      (show (enterLabels ⟨"main", 1, "a: .b: a:"⟩ 0 (.empty false) []
        ((lex .initial "a: .b: a:").take 4)).toOption.any
          (fun r => r.2.1.labels.any (·.name == "a.b")) = true by decide +kernel)
    have hraws : (({} : Assembler).opening "main" "a: .b: a:" ⟨0, []⟩).raws = ["a: .b: a:"] := by
      decide +kernel
    have htable : ({} : Assembler).Knows "main" "a: .b: a:" table scope :=
      ⟨_, ⟨⟨0, []⟩, Assembler.initialDefines_of_nil rfl, .refl⟩, .inr ⟨_, _, r, ds, _,
        (lex .initial "a: .b: a:").drop 4, named, hraws, happly,
        (of_decide_eq_true htokens).trans (List.take_append_drop 4 _).symm, henter⟩⟩
    obtain ⟨hscope, hdotted⟩ := hknows _ _ _ table scope htable
    obtain ⟨l, hl, hname⟩ := List.any_eq_true.1 hlabel
    exact ⟨table, scope, htable, hscope, l, hl, by simpa using hname, hdotted l hl⟩
  · obtain ⟨a, img, ha, hprinted⟩ := hcommand scopedDirectory ["-labels", "a.dasm"]
      { labels := true } ["a.dasm"] (by decide +kernel) (by decide +kernel)
    have hlines : (run scopedDirectory ["-labels", "a.dasm"]).printed = "0000 a\n0002 c\n" := by
      decide +kernel
    refine ⟨a, img, ha, ?_⟩
    rw [hlines] at hprinted
    simpa using hprinted.symm

end Command

end Asm16
