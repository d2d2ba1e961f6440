import Asm16.Proofs.Alike
import Asm16.Proofs.Includes
import Asm16.Proofs.Placement
import Asm16.Proofs.SourceText

/-!
# Programs of one line

A text without line ends is a document of one line. If it holds an instruction and no label, and no
defines are made, the program is accepted, and its words are those of the instruction
(`Assembler.yields_of_isInstruction`).
-/

namespace Asm16

/-! ## One line -/

theorem splitOn_of_not_mem {c : UInt8} {line : Bytes} (h : c ∉ line) :
    Bytes.splitOn c line = [line] := by
  induction line with
  | nil => rfl
  | cons b line ih =>
    obtain ⟨hb, hline⟩ := List.ne_and_not_mem_of_not_mem_cons h
    rw [splitOn_cons, if_neg hb.symm, ih hline]

theorem sourceLines_of_line {line : Bytes} (hne : line ≠ []) (hlf : byte '\n' ∉ line)
    (hcr : byte '\r' ∉ line) (hlen : line.length < lineLimit) :
    sourceLines line = ([line], false) := by
  have hlast : line.getLast? ≠ some (byte '\r') := by
    intro h
    exact hcr (List.mem_of_getLast? h)
  have hnil : ¬[line].getLast? = some [] := by simpa using hne
  simp only [sourceLines, splitOn_of_not_mem hlf, if_neg hnil]
  refine Prod.ext ?_ ?_
  · rw [List.takeWhile_eq_self_iff.2 (by simpa using hlen)]
    exact congrArg (fun l => [l]) (if_neg hlast)
  · simp [hlen]

/-- Nothing is substituted without defines. -/
theorem Defines.expand_of_nil {ds : Defines} (hds : ds.entries = []) (s : Bytes) :
    ds.expand s = .ok (s, false) := by
  have hsettle (n : Nat) : settle [] n s false = some (s, false) := by
    rw [settle.eq_def]
    exact if_pos rfl
  rw [expand, hds, hsettle]

/-- A line that makes no define stays as it is written if there are none yet. -/
theorem applyDefines_of_nil {site : Site} {ds : Defines} (hds : ds.entries = [])
    (hd : (Reading.ofText .initial site.raw).directive.map (·.kind) ≠ some .define) :
    (applyDefines site ds).result = .ok (.ofText .initial site.raw, ds) := by
  refine applyDefines_eq_ok.2 ?_
  by_cases hi : (Reading.ofText .initial site.raw).directive.map (·.kind) = some .inclusion
  · obtain ⟨⟨kind, word, params⟩, hdirective, rfl⟩ := Option.map_eq_some_iff.1 hi
    exact .inclusion hdirective
  · exact .plain hd hi (Defines.expand_of_nil hds site.raw)

/-- Tokens without labels have no names to get. -/
theorem nameTokens_of_forall {ts : List Token}
    (h : ∀ t ∈ ts, t.kind ≠ .labelDef ∧ t.kind ≠ .labelUse) (scope : Bytes) :
    nameTokens scope ts = ts := by
  induction ts generalizing scope with
  | nil => rfl
  | cons t rest ih =>
    obtain ⟨ht, hrest⟩ := List.forall_mem_cons.1 h
    rw [nameTokens, ih hrest, Token.named, if_neg (by simp [ht.1, ht.2])]

/-- Without defines, a line that has no labels and makes no define is read as it is written, and the
next line finds what it found, but for the text that is not recognised. -/
theorem readLine_of_forall (doc : Document) (number : Nat) {text : Bytes} {p : Progress}
    (hp : p.defines.entries = [])
    (hd : (Directive.ofTokens? (lex .initial text)).map (·.kind) ≠ some .define)
    (hk : ∀ t ∈ lex .initial text, t.kind ≠ .labelDef ∧ t.kind ≠ .labelUse) :
    ∃ l : Line, l = ⟨doc, number, text, text, lex .initial text,
        Directive.ofTokens? (lex .initial text), 0, 0, none⟩ ∧
      (readLine doc number text p).result = .ok (l, p.behind l p.symbols p.scope) := by
  have hnames : nameTokens p.scope (lex .initial text) = lex .initial text :=
    nameTokens_of_forall hk _
  have hdefs : (lex .initial text).filter (·.kind == .labelDef) = [] :=
    List.filter_eq_nil_iff.2 fun t ht => by simpa using (hk t ht).1
  have huses : (lex .initial text).filter (·.kind == .labelUse) = [] :=
    List.filter_eq_nil_iff.2 fun t ht => by simpa using (hk t ht).2
  have hscope : (lex .initial text).filter Token.opensScope = [] :=
    List.filter_eq_nil_iff.2 fun t ht => by simp [Token.opensScope, (hk t ht).1]
  have happly : (applyDefines ⟨doc.name, number, text⟩ p.defines).result =
      .ok (.ofText .initial text, p.defines) := applyDefines_of_nil hp hd
  refine ⟨_, rfl, readLine_eq_ok.2 ⟨_, _, happly, ?_, ?_, ?_⟩⟩
  · simp only [Reading.ofText, hnames, definitionsOf, hdefs]
    rfl
  · simp only [Reading.ofText, hnames]
  · simp only [Reading.ofText, hnames, definitionsOf, usesOf, hdefs, huses, scopeAfter_eq, hscope,
      List.map_nil, SymbolTable.extend_nil]
    rfl

/-! ## Instructions -/

/-- The kinds of tokens of a line that defines no label, uses none and holds no directive. -/
def Kind.isPlain : Kind → Bool
  | labelDef | labelUse | directive | error => false
  | _ => true

/-- The text of a line that holds an instruction and no label. Its words are `ws`. -/
structure IsInstruction (text : Bytes) (ws : List UInt16) : Prop where
  lines_eq : sourceLines text = ([text], false)
  kinds : ∀ t ∈ lex .initial text, t.kind.isPlain = true
  encodes : ∃ i, Instruction.parse text (significantTokens (lex .initial text)) = .ok (some i) ∧
    i.encode = .ok ws

/-- A program is accepted, and its words are `ws` : it has their number, and puts them into every
image that has room for them. -/
def Assembler.Yields (asm : Assembler) (name text : Bytes) (ws : List UInt16) : Prop :=
  ∃ a, asm.Accepts name text a ∧ a.size = ws.length ∧ ∀ img : Image, ws.length ≤ img.size →
    ∃ out, a.assemble img = (out, none) ∧
      out.words.toList = ws ++ List.replicate (img.size - ws.length) 0

theorem Directive.ofTokens?_of_forall {ts : List Token} (h : ∀ t ∈ ts, t.kind ≠ .directive) :
    ofTokens? ts = none := by
  induction ts with
  | nil => rfl
  | cons t rest ih =>
    obtain ⟨ht, hrest⟩ := List.forall_mem_cons.1 h
    rw [ofTokens?, if_neg ht, ih hrest]

/-- Words that have room are written from the beginning on. -/
theorem Image.exists_write_cleared {img : Image} {ws : List UInt16} (h : ws.length ≤ img.size) :
    ∃ out, img.cleared.write 0 ws = (out, none) ∧
      out.words.toList = ws ++ List.replicate (img.size - ws.length) 0 := by
  have hcleared : img.cleared.words.toList = [] ++ List.replicate img.size 0 := by simp
  obtain ⟨out, hwrite, hout⟩ := write_eq hcleared ws
  rw [if_pos h] at hwrite
  rw [List.take_of_length_le h] at hout
  exact ⟨out, hwrite, hout⟩

theorem Instruction.size_le (i : Instruction) : i.size ≤ 3 := by
  have hextra (o : Operand) : o.extra ≤ 1 := by
    unfold Operand.extra
    split <;> decide
  cases i with
  | basic op b a =>
    have := hextra a
    have := hextra b
    rw [size]
    omega
  | special op a =>
    have := hextra a
    rw [size]
    omega

/-- A program of one line as it is read. -/
def singleLine (name text : Bytes) : Line :=
  ⟨⟨Path.clean name, []⟩, 1, text, text, lex .initial text, none, 0, 0, none⟩

/-- An instruction on the line, once it is laid out. -/
def placedLine (name text : Bytes) (i : Instruction) : Line :=
  { singleLine name text with size := i.size, code := some i }

theorem stop_placedLine (name text : Bytes) (i : Instruction) :
    (placedLine name text i).stop = i.size := by
  have hlt : (i.size : Int) < addressLimit := by
    have := i.size_le
    unfold addressLimit
    omega
  rw [Line.stop, show (placedLine name text i).offset = 0 from rfl, Int.zero_add]
  exact wrap_eq_self (Int.natCast_nonneg _) hlt

section Plain

variable {text : Bytes} (h : ∀ t ∈ lex .initial text, t.kind.isPlain = true)

include h

theorem kind_ne_of_isPlain {k : Kind} (hk : k.isPlain = false) :
    ∀ t ∈ lex .initial text, t.kind ≠ k := by
  rintro t ht rfl
  rw [h t ht] at hk
  cases hk

theorem filter_kind_of_isPlain {k : Kind} (hk : k.isPlain = false) :
    (lex .initial text).filter (·.kind == k) = [] := by
  refine List.filter_eq_nil_iff.2 fun t ht => ?_
  simpa using kind_ne_of_isPlain h hk t ht

theorem lexErrors_singleLine (name : Bytes) : (singleLine name text).lexErrors = [] := by
  rw [Line.lexErrors, singleLine, errorTokens, filter_kind_of_isPlain h rfl]
  rfl

theorem resolve_singleLine (find : Bytes → Option Int) (name : Bytes) :
    (singleLine name text).resolve find = singleLine name text := by
  have htokens : (lex .initial text).map (Token.resolve find) = lex .initial text := by
    refine (List.map_congr_left fun t ht => ?_).trans (List.map_id _)
    exact Token.resolve_of_ne find (kind_ne_of_isPlain h rfl t ht)
  simp only [singleLine, Line.resolve, htokens, Option.map_none]

theorem readLine_of_isPlain {p : Progress} (hp : p.defines.entries = []) (name : Bytes) :
    (readLine ⟨Path.clean name, []⟩ 1 text p).result =
      .ok (singleLine name text, { p with count := p.count + 1 }) := by
  have hdirective : Directive.ofTokens? (lex .initial text) = none :=
    Directive.ofTokens?_of_forall (kind_ne_of_isPlain h rfl)
  obtain ⟨l, hl, hread⟩ := readLine_of_forall ⟨Path.clean name, []⟩ 1 hp
    (by rw [hdirective]; exact nofun)
    fun t ht => ⟨kind_ne_of_isPlain h rfl t ht, kind_ne_of_isPlain h rfl t ht⟩
  rw [hdirective] at hl
  obtain rfl : l = singleLine name text := hl
  rw [hread, Progress.behind, lexErrors_singleLine h, List.append_nil]

/-- There is nothing to resolve in a line without labels. -/
theorem Assembly.resolved_singleLine {name : Bytes} {i : Instruction} {program : Assembly}
    {caseFold : Bool}
    (hparse : Instruction.parse text (significantTokens (lex .initial text)) = .ok (some i))
    (hlines : program.lines = [singleLine name text])
    (hsymbols : program.symbols = .empty caseFold) :
    program.resolved.result = .ok { program with lines := [placedLine name text i] } := by
  have hmeasure : (singleLine name text).measure 0 = .ok ((i.size : Int), some i) := by
    simp [Line.measure, Line.significant, singleLine, hparse, ok_bind]
  -- what resolution does to the tokens it does to the instruction
  have hcode (find : Bytes → Option Int) : i.resolve find = i := by
    have hsame := Line.measure_resolve find (singleLine name text) 0
    rw [resolve_singleLine h, hmeasure] at hsame
    exact (Option.some.inj (Prod.mk.inj (Except.ok.inj hsame)).2).symm
  have hresolve (find : Bytes → Option Int) :
      (placedLine name text i).resolve find = placedLine name text i :=
    calc (placedLine name text i).resolve find
      _ = { (singleLine name text).resolve find with
            size := i.size, code := some (i.resolve find) } := rfl
      _ = placedLine name text i := by
        rw [resolve_singleLine h, hcode]
        rfl
  have hplaced : (layout 0 program.lines).result = .ok [placedLine name text i] := by
    rw [hlines]
    exact layout_cons_eq_ok.2 ⟨_, _, [], hmeasure, rfl, rfl⟩
  have hnone : (program.locatedSymbols [placedLine name text i]).resolve =
      (program.symbols, none) := by
    rw [locatedSymbols, hsymbols]
    rfl
  rw [resolved_of_resolve hplaced hnone, List.map_singleton, hresolve]

end Plain

namespace Assembler

theorem exists_readProgram_singleLine (asm : Assembler) {text : Bytes}
    (hl : sourceLines text = ([text], false))
    (hk : ∀ t ∈ lex .initial text, t.kind.isPlain = true) (name : Bytes) (limit : Int) :
    ∃ program, (asm.readProgram (Path.clean name) text ⟨limit, []⟩).result = .ok program ∧
      program.lines = [singleLine name text] ∧ program.symbols = .empty asm.caseFold ∧
      program.lexErrors = [] := by
  have hopening : asm.opening name text ⟨limit, []⟩ =
      ⟨⟨Path.clean name, []⟩, false, 1, [text], asm.start ⟨limit, []⟩⟩ := by
    rw [opening, Place.opening, hl]
  have hline := readLine_of_isPlain hk (p := asm.start ⟨limit, []⟩) rfl name
  have ht : (asm.opening name text ⟨limit, []⟩).Takes (singleLine name text)
      ⟨⟨Path.clean name, []⟩, false, 2, [], { asm.start ⟨limit, []⟩ with count := 1 }⟩ := by
    rw [hopening]
    exact ⟨text, [], _, rfl, hline, rfl⟩
  have hreads : Reads asm.source (asm.opening name text ⟨limit, []⟩) _ :=
    .plain ht rfl (.done rfl rfl)
  exact ⟨_, readProgram_eq_ok.2 ⟨_, hreads, rfl⟩, rfl, rfl, rfl⟩

/-- An instruction on a line of its own is assembled to its words. -/
theorem yields_of_isInstruction {asm : Assembler} (hp : asm.predefines = []) {text : Bytes}
    {ws : List UInt16} (h : IsInstruction text ws) (name : Bytes) : asm.Yields name text ws := by
  obtain ⟨i, hparse, hencode⟩ := h.encodes
  have hd : asm.initialDefines = .ok ⟨asm.defineLimit, []⟩ := by
    simp [initialDefines, hp, addDefines]
  obtain ⟨program, hprogram, hlines, hsymbols, hlex⟩ :=
    asm.exists_readProgram_singleLine h.lines_eq h.kinds name asm.defineLimit
  have hresolved := Assembly.resolved_singleLine h.kinds hparse hlines hsymbols
  have hsize : Assembly.size { program with lines := [placedLine name text i] } = ws.length := by
    rw [Instruction.length_of_encode hencode, Assembly.size, List.foldl_cons, List.foldl_nil,
      stop_placedLine]
    omega
  have haccepts := accepts_of_resolved hd hprogram hlex hresolved
  refine ⟨_, haccepts, hsize, fun img hroom => ?_⟩
  have hwords : (placedLine name text i).encode = .ok (.words ws) := by
    simp [Line.encode, Line.kind?, placedLine, singleLine, hencode]
  obtain ⟨out, hout, hwritten⟩ := Image.exists_write_cleared hroom
  refine ⟨out, ?_, hwritten⟩
  replace hout : (Block.words ws).place img.cleared (placedLine name text i).offset = (out, none) :=
    hout
  rw [assemble_of_accepts haccepts]
  simp only [Assembly.writeLines, hwords, hout]

end Assembler

end Asm16
