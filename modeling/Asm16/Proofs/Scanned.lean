import Asm16.Proofs.Applied
import Asm16.Proofs.Includes
import Asm16.Proofs.Labels
import Asm16.Proofs.Leading
import Asm16.Proofs.Lexemes

/-!
# Lines and their texts

The tokens of a line of a program are those of its text, after substitution, and its directive is
the one they have (`Line.Scanned`). Reading a line leaves it so, and what every line has that was
read is had by all lines of a program (`Reads.forall_lines`). Layout and resolution change nothing
of it, so it holds for the lines of an accepted program too (`Assembler.exists_scanned`).

Of the lexemes of a text the literals have values, the label uses are to get them, and no others
have any (`Lexer.Found.valued`).
-/

namespace Asm16

/-! ## Values of lexemes -/

/-- The kinds of lexemes without a value. -/
def Lexer.isValueless : Kind → Bool
  | .literal | .labelUse => false
  | _ => true

/-- A literal has its value, a label use is to get one, and nothing else has any. -/
structure Lexeme.Valued (l : Lexeme) : Prop where
  literal : l.kind = .literal → ∃ n, l.value = some (.resolved n)
  labelUse : l.kind = .labelUse → l.value = some .pending
  valueless : Lexer.isValueless l.kind = true → l.value = none

namespace Lexer

theorem valued_of_isValueless {l : Lexeme} (h : isValueless l.kind = true) (hv : l.value = none) :
    l.Valued := by
  refine ⟨fun hk => ?_, fun hk => ?_, fun _ => hv⟩ <;> rw [hk] at h <;> cases h

theorem valued_wordLexeme (name : Bytes) : (wordLexeme name).Valued := by
  unfold wordLexeme
  simp only
  split
  · exact valued_of_isValueless rfl rfl
  split
  · exact valued_of_isValueless rfl rfl
  split
  · exact valued_of_isValueless rfl rfl
  · exact ⟨by simp, fun _ => rfl, nofun⟩

theorem Found.valued {l : Lexeme} (h : Found l) : l.Valued := by
  cases h with
  | @bare k _ hk =>
    have hvalueless : isValueless k = true := by
      revert hk
      cases k <;> decide
    exact valued_of_isValueless hvalueless rfl
  | definition => exact valued_of_isValueless rfl rfl
  | word => exact valued_wordLexeme _
  | literal => exact ⟨fun _ => ⟨_, rfl⟩, by simp, nofun⟩
  | string => exact valued_of_isValueless rfl rfl

end Lexer

theorem valued_of_lex (mode : Mode) (s : Bytes) : ∀ t ∈ lex mode s, t.toLexeme.Valued :=
  fun _ ht => (Lexer.found_of_run {} s _ (Lexer.mem_place ht)).valued

/-! ## Lines of programs -/

/-- The tokens of a line are those of its text, apart from the names and the addresses of labels. -/
structure Line.Scanned (l : Line) (mode : Mode) : Prop where
  tokens_eq : l.tokens.map Token.bare = (lex mode l.text).map Token.bare
  directive_eq : l.directive = Directive.ofTokens? (lex mode l.text)

theorem Line.Scanned.of_bare {l m : Line} {mode : Mode} (h : m.Scanned mode)
    (hbare : l.bare = m.bare) : l.Scanned mode := by
  have htokens : l.tokens.map Token.bare = m.tokens.map Token.bare := congrArg Line.tokens hbare
  have htext : l.text = m.text := show l.bare.text = m.bare.text by rw [hbare]
  have hdirective : l.directive = m.directive :=
    show l.bare.directive = m.bare.directive by rw [hbare]
  exact ⟨by rw [htokens, htext, h.tokens_eq], by rw [hdirective, htext, h.directive_eq]⟩

theorem Line.Scanned.significant_eq {l : Line} {mode : Mode} (h : l.Scanned mode) :
    l.significant.map Token.bare = (significantTokens (lex mode l.text)).map Token.bare := by
  have hfilter := congrArg (List.filter (·.kind.significant)) h.tokens_eq
  rw [List.filter_map, List.filter_map] at hfilter
  exact hfilter

/-- Whatever defines are applied, a line is read from the text they make of it. -/
theorem exists_ofText_of_applyDefines {site : Site} {ds ds' : Defines} {r : Reading}
    (h : (applyDefines site ds).result = .ok (r, ds')) : ∃ mode, r = .ofText mode r.text := by
  have hrewritten (text : Bytes) (changed : Bool) :
      ∃ mode, Reading.rewritten site.raw text changed =
        .ofText mode (Reading.rewritten site.raw text changed).text := by
    cases changed <;> exact ⟨_, rfl⟩
  cases applyDefines_eq_ok.1 h with
  | define => exact hrewritten _ _
  | inclusion => exact ⟨_, rfl⟩
  | plain => exact hrewritten _ _

/-- A line that was read, as it is before it is laid out. -/
structure Line.Fresh (l : Line) (mode : Mode) (scope : Bytes) : Prop where
  tokens_eq : l.tokens = nameTokens scope (lex mode l.text)
  directive_eq : l.directive = Directive.ofTokens? (lex mode l.text)
  unplaced_eq : l.unplaced = l

theorem Line.Fresh.scanned {l : Line} {mode : Mode} {scope : Bytes} (h : l.Fresh mode scope) :
    l.Scanned mode :=
  ⟨by rw [h.tokens_eq, map_bare_nameTokens], h.directive_eq⟩

theorem fresh_of_readLine {doc : Document} {number : Nat} {raw : Bytes} {p q : Progress}
    {line : Line} (h : (readLine doc number raw p).result = .ok (line, q)) :
    ∃ mode, line.Fresh mode p.scope := by
  rw [result_readLine] at h
  obtain ⟨⟨bare, ds⟩, hbare, h⟩ := bind_eq_ok.1 h
  obtain ⟨⟨r, ds'⟩, hr, heq⟩ := map_eq_ok.1 hbare
  obtain ⟨rfl, -⟩ := Prod.mk.inj heq
  obtain ⟨mode, hmode⟩ := exists_ofText_of_applyDefines hr
  have htokens : r.tokens = lex mode r.text := congrArg Reading.tokens hmode
  have hdirective : r.directive = Directive.ofTokens? (lex mode r.text) :=
    congrArg Reading.directive hmode
  simp only at h
  split at h
  · cases h
  · rename_i tokens symbols scope henter
    obtain ⟨rfl, -⟩ := Prod.mk.inj (Except.ok.inj h)
    rw [enterLabels_eq] at henter
    obtain ⟨_, -, heq⟩ := map_eq_ok.1 henter
    obtain ⟨rfl, -⟩ := Prod.mk.inj heq
    exact ⟨mode, congrArg (nameTokens _) htokens, hdirective, rfl⟩

/-- What every line has that is read, all lines of a document have. -/
theorem Reads.forall_lines {P : Line → Prop} (hP : ∀ {s after : Place} {line : Line},
    s.Takes line after → P line) {source : Option Source} {s : Place} {r : Except Error Extent}
    (hr : Reads source s r) {extent : Extent} (he : r = .ok extent) : ∀ l ∈ extent.lines, P l := by
  induction hr generalizing extent with
  | done =>
    obtain rfl := Except.ok.inj he
    simp
  | tooLong | refused | missing | cycle | inner => cases he
  | plain ht _ _ ih =>
    obtain ⟨more, rfl, rfl⟩ := map_eq_ok.1 he
    exact List.forall_mem_cons.2 ⟨hP ht, ih rfl⟩
  | within ht _ _ _ _ ihe ihr =>
    obtain ⟨more, rfl, rfl⟩ := map_eq_ok.1 he
    have hinner := ihe rfl
    exact List.forall_mem_cons.2 ⟨hP ht, List.forall_mem_append.2 ⟨hinner, ihr rfl⟩⟩

namespace Assembler

variable {asm : Assembler} {name text : Bytes}

theorem fresh_of_readProgram {defines : Defines} {program : Assembly}
    (hr : (asm.readProgram (Path.clean name) text defines).result = .ok program) :
    ∀ l ∈ program.lines, ∃ mode scope, l.Fresh mode scope := by
  obtain ⟨extent, hreads, rfl⟩ := readProgram_eq_ok.1 hr
  refine hreads.forall_lines (fun ht => ?_) rfl
  obtain ⟨raw, rest, q, -, hline, -⟩ := ht
  obtain ⟨mode, hfresh⟩ := fresh_of_readLine hline
  exact ⟨mode, _, hfresh⟩

/-- The tokens of a line of an accepted program are those of its text. -/
theorem exists_scanned {a : Assembly} (h : asm.Accepts name text a) :
    ∀ l ∈ a.lines, ∃ mode, l.Scanned mode := by
  intro l hl
  obtain ⟨defines, program, -, hr, -, hres⟩ := parse_accepts h
  obtain ⟨placed, symbols, hplaced, -, rfl⟩ := Assembly.resolved_eq_ok hres
  have hbare : (placed.map (Line.resolve symbols.offset?)).map Line.bare =
      program.lines.map Line.bare := by
    rw [map_bare_resolve, map_bare_of_unplaced (layout_laid hplaced).2]
  obtain ⟨m, hm, hlm⟩ := List.mem_map.1 (hbare ▸ List.mem_map_of_mem hl)
  obtain ⟨mode, scope, hfresh⟩ := fresh_of_readProgram hr m hm
  exact ⟨mode, hfresh.scanned.of_bare hlm.symm⟩

end Assembler

end Asm16
