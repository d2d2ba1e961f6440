import Asm16.Proofs.Cycles
import Asm16.Proofs.Scanned

/-!
# Programs with text that is not recognised

Reading a program goes on past text that is not recognised, and stops only at an error of its own :
a define, an include, a line that is too long or a label that is defined twice. It keeps an account
of the errors as it comes by the lines. That account is one error for each error token of the lines
that are left at the end, in their order (`lexErrors_of_reading`), whatever documents they are from
and whatever defines have made of them.

A program with such an error is handed back as it was read, not laid out and with no address in it
(`parse_eq_lexical_iff`).
-/

namespace Asm16

/-! ## Errors of lines -/

/-- Some line has an error token. -/
def HasErrors (lines : List Line) : Prop := ∃ l ∈ lines, ∃ t ∈ l.tokens, t.kind = .error

theorem flatMap_lexErrors_eq_nil_iff {lines : List Line} :
    lines.flatMap Line.lexErrors = [] ↔ ¬HasErrors lines := by
  simp [Line.lexErrors, errorTokens, HasErrors, List.flatMap_eq_nil_iff]

/-- Names and addresses of labels, and the layout, have nothing to do with errors. -/
theorem hasErrors_congr {lines lines' : List Line}
    (h : lines.map Line.bare = lines'.map Line.bare) : HasErrors lines ↔ HasErrors lines' := by
  rw [← not_iff_not, ← flatMap_lexErrors_eq_nil_iff, ← flatMap_lexErrors_eq_nil_iff,
    flatMap_lexErrors_of_bare h]

/-! ## Programs as they are read -/

/-- A program that was read and not laid out : no line has an address or a size, no label has an
address, and every use of one is pending. -/
structure Assembly.Pending (a : Assembly) : Prop where
  placed : ∀ l ∈ a.lines, l.offset = 0 ∧ l.size = 0 ∧ l.code = none
  tokens : ∀ l ∈ a.lines, ∀ t ∈ l.tokens, t.kind = .labelUse → t.value = some .pending
  labels : ∀ l ∈ a.symbols.labels, l.offset = 0
  uses : ∀ u ∈ a.symbols.uses, u.value = .pending

theorem Token.named_value (scope : Bytes) (t : Token) : (t.named scope).value = t.value := by
  unfold named
  split <;> rfl

/-- The tokens of a line with the names of their labels, one by one. -/
theorem exists_mem_of_mem_nameTokens {scope : Bytes} {ts : List Token} {t : Token}
    (h : t ∈ nameTokens scope ts) : ∃ scope, ∃ u ∈ ts, t = u.named scope := by
  induction ts generalizing scope with
  | nil => cases h
  | cons u ts ih =>
    rcases List.mem_cons.1 h with rfl | h
    · exact ⟨scope, u, List.mem_cons_self, rfl⟩
    · obtain ⟨scope, v, hv, rfl⟩ := ih h
      exact ⟨scope, v, List.mem_cons_of_mem u hv, rfl⟩

theorem Line.Fresh.pending {l : Line} {mode : Mode} {scope : Bytes} (h : l.Fresh mode scope) :
    ∀ t ∈ l.tokens, t.kind = .labelUse → t.value = some .pending := by
  intro t ht hk
  rw [h.tokens_eq] at ht
  obtain ⟨scope, u, hu, rfl⟩ := exists_mem_of_mem_nameTokens ht
  rw [Token.named_kind] at hk
  rw [Token.named_value]
  exact (valued_of_lex mode l.text u hu).labelUse hk

theorem Line.Fresh.placed {l : Line} {mode : Mode} {scope : Bytes} (h : l.Fresh mode scope) :
    l.offset = 0 ∧ l.size = 0 ∧ l.code = none := by
  rw [← h.unplaced_eq]
  exact ⟨rfl, rfl, rfl⟩

namespace Assembler

variable {asm : Assembler} {name text : Bytes}

/-- Reading alone : the defines made before, and then the documents of the program. -/
def reading (asm : Assembler) (name text : Bytes) : Except Error Assembly := do
  let defines ← asm.initialDefines
  (asm.readProgram (Path.clean name) text defines).result

theorem reading_eq_ok {program : Assembly} : asm.reading name text = .ok program ↔
    ∃ defines, asm.initialDefines = .ok defines ∧
      (asm.readProgram (Path.clean name) text defines).result = .ok program :=
  bind_eq_ok

/-- A program that is read is pending. -/
theorem pending_of_reading {program : Assembly} (h : asm.reading name text = .ok program) :
    program.Pending := by
  obtain ⟨defines, hd, hr⟩ := reading_eq_ok.1 h
  obtain ⟨lines, -, hread⟩ := read_of_readProgram hd hr
  have hfresh := fresh_of_readProgram hr
  refine ⟨fun l hl => ?_, fun l hl => ?_, fun label hlabel => ?_, fun u hu => ?_⟩
  · obtain ⟨mode, scope, hl⟩ := hfresh l hl
    exact hl.placed
  · obtain ⟨mode, scope, hl⟩ := hfresh l hl
    exact hl.pending
  · rw [hread.symbols_eq] at hlabel
    obtain ⟨i, j, l, t, -, rfl⟩ := mem_definitions.1 hlabel
    rfl
  · rw [hread.symbols_eq, Ledger.mem_uses_table] at hu
    obtain ⟨l, -, hu⟩ := List.mem_flatMap.1 hu
    obtain ⟨t, -, rfl⟩ := List.mem_map.1 hu
    rfl

/-- The lines of a program that is read are the flattened ones. -/
theorem exists_flatten_of_reading {program : Assembly}
    (h : asm.reading name text = .ok program) : ∃ lines, asm.flatten name text = .ok lines ∧
      program.lines.map Line.bare = lines.map Line.bare := by
  obtain ⟨defines, hd, hr⟩ := reading_eq_ok.1 h
  obtain ⟨lines, hflat, hread⟩ := read_of_readProgram hd hr
  exact ⟨lines, hflat, by rw [hread.lines_eq, map_bare_nameLines]⟩

/-- The errors that were kept account of are those of the lines that were read. -/
theorem lexErrors_of_reading {program : Assembly} (h : asm.reading name text = .ok program) :
    program.lexErrors = program.lines.flatMap Line.lexErrors := by
  obtain ⟨defines, hd, hr⟩ := reading_eq_ok.1 h
  obtain ⟨lines, -, hread⟩ := read_of_readProgram hd hr
  exact hread.lexErrors_eq

theorem lexErrors_eq_nil_iff {program : Assembly} (h : asm.reading name text = .ok program) :
    program.lexErrors = [] ↔ ¬HasErrors program.lines := by
  rw [lexErrors_of_reading h, flatMap_lexErrors_eq_nil_iff]

theorem result_parse_eq (asm : Assembler) (name text : Bytes) :
    (asm.parse name text).result =
      asm.reading name text >>= fun program => program.completed.result := by
  rw [result_parse, reading]
  cases asm.initialDefines <;> rfl

end Assembler

/-- Layout and resolution find no text that is not recognised. -/
theorem Assembly.resolved_ne_lexical {program : Assembly} {errors : List LexError} :
    program.resolved.result ≠ .error (.lexical errors) := by
  intro h
  rcases resolved_error h with ⟨_, _, _, _, _, he⟩ | ⟨_, _, he⟩ <;> cases he

namespace Assembler

variable {asm : Assembler} {name text : Bytes} {program : Assembly}

theorem parse_of_hasErrors (h : asm.reading name text = .ok program)
    (he : HasErrors program.lines) :
    (asm.parse name text).result = .ok (program, some (.lexical program.lexErrors)) := by
  have hne : program.lexErrors ≠ [] := fun hnil => (lexErrors_eq_nil_iff h).1 hnil he
  rw [result_parse_eq, h, ok_bind, Assembly.result_completed_of_ne_nil hne]

theorem parse_of_not_hasErrors (h : asm.reading name text = .ok program)
    (he : ¬HasErrors program.lines) :
    (asm.parse name text).result = program.resolved.result.map (·, none) := by
  rw [result_parse_eq, h, ok_bind,
    Assembly.result_completed_of_nil ((lexErrors_eq_nil_iff h).2 he)]

theorem assemble_of_hasErrors (h : asm.reading name text = .ok program)
    (he : HasErrors program.lines) (img : Image) :
    program.assemble img = (img, some (.lexical program.lexErrors)) := by
  have hne : program.lexErrors ≠ [] := fun hnil => (lexErrors_eq_nil_iff h).1 hnil he
  have herror : program.lexicalError? = some (.lexical program.lexErrors) := by
    simpa [Assembly.lexicalError?] using hne
  rw [Assembly.assemble, herror]

/-- Text that is not recognised is found all over a program, and stops every later pass. If reading
fails, its error is handed back and no program. Otherwise the lines of the program are the flattened
ones, with the tokens of their texts after substitution, and the errors that reading has collected
are one for each error token of theirs, in the order of the flattened lines and of their tokens.
These errors are handed back exactly if there is such a token; the program is then handed back as it
was read, with nothing laid out and every label pending, and assembling it gives the same error and
leaves the image alone. -/
theorem parse_eq_lexical_iff (asm : Assembler) (name text : Bytes) :
    (∀ e, asm.reading name text = .error e → (asm.parse name text).result = .error e) ∧
    ∀ program, asm.reading name text = .ok program →
      (∃ lines, asm.flatten name text = .ok lines ∧
        (HasErrors program.lines ↔ HasErrors lines) ∧
        program.lexErrors = lines.flatMap Line.lexErrors) ∧
      program.lexErrors = program.lines.flatMap Line.lexErrors ∧
      (∀ l ∈ program.lines, ∃ mode, l.Scanned mode) ∧
      ((∃ a errors, (asm.parse name text).result = .ok (a, some (.lexical errors))) ↔
        HasErrors program.lines) ∧
      (∀ errors, (asm.parse name text).result ≠ .error (.lexical errors)) ∧
      (HasErrors program.lines →
        (asm.parse name text).result = .ok (program, some (.lexical program.lexErrors)) ∧
        program.Pending ∧ ∀ img, program.assemble img = (img, some (.lexical program.lexErrors))) ∧
      (¬HasErrors program.lines →
        (asm.parse name text).result = program.resolved.result.map (·, none)) := by
  refine ⟨fun e he => ?_, fun program h => ⟨?_, lexErrors_of_reading h, ?_, ⟨?_, ?_⟩, ?_, ?_,
    parse_of_not_hasErrors h⟩⟩
  · rw [result_parse_eq, he, error_bind]
  · obtain ⟨lines, hflat, hbare⟩ := exists_flatten_of_reading h
    refine ⟨lines, hflat, hasErrors_congr hbare, ?_⟩
    rw [lexErrors_of_reading h, flatMap_lexErrors_of_bare hbare]
  · obtain ⟨defines, -, hr⟩ := reading_eq_ok.1 h
    intro l hl
    obtain ⟨mode, scope, hfresh⟩ := fresh_of_readProgram hr l hl
    exact ⟨mode, hfresh.scanned⟩
  · rintro ⟨a, errors, hparse⟩
    by_contra hno
    rw [parse_of_not_hasErrors h hno] at hparse
    obtain ⟨b, -, heq⟩ := map_eq_ok.1 hparse
    cases heq
  · exact fun he => ⟨program, _, parse_of_hasErrors h he⟩
  · intro errors herror
    by_cases he : HasErrors program.lines
    · cases (parse_of_hasErrors h he).symm.trans herror
    · rw [parse_of_not_hasErrors h he] at herror
      exact Assembly.resolved_ne_lexical (map_eq_error.1 herror)
  · exact fun he => ⟨parse_of_hasErrors h he, pending_of_reading h, assemble_of_hasErrors h he⟩

/-- A document to include, with text that is not recognised on both of its lines. -/
def unrecognisedAssembler : Assembler :=
  { source := some { files := [("lib", ":end SET @, 1\n DAT \"x")] } }

/-- Text that is not recognised on a line before the include and on one behind it; the first is what
a define makes of the line. -/
def unrecognisedText : Bytes := "#define N 0x\n:top SET A, N\n.include lib\n SET $, end ?"

/-- The errors of both documents are found, in the order of the flattened lines; a label that is
defined twice is an error before them. -/
theorem sample_parse_eq_lexical :
    (∃ program, (unrecognisedAssembler.parse "main" unrecognisedText).result =
      .ok (program, some (.lexical [⟨"main", 2, 12, "0x"⟩, ⟨"lib", 1, 9, "@"⟩,
        ⟨"lib", 2, 5, "\"x"⟩, ⟨"main", 4, 5, "$"⟩, ⟨"main", 4, 12, "?"⟩])) ∧
      program.lines.length = 6 ∧ program.Pending ∧
      ∀ img, (program.assemble img).1 = img) ∧
    (unrecognisedAssembler.parse "main" (unrecognisedText ++ "\n:top")).result =
      .error (.atLine ⟨"main", 5, ":top"⟩
        (.duplicateLabel "top" ⟨"main", 2, ":top SET A, N"⟩)) := by
  constructor
  · obtain ⟨program, hread, hp⟩ := exists_ok
      (x := unrecognisedAssembler.reading "main" unrecognisedText)
      (p := fun program => decide (program.lines.length = 6 ∧
        program.lines.flatMap Line.lexErrors =
          [⟨"main", 2, 12, "0x"⟩, ⟨"lib", 1, 9, "@"⟩, ⟨"lib", 2, 5, "\"x"⟩, ⟨"main", 4, 5, "$"⟩,
            ⟨"main", 4, 12, "?"⟩])) (by decide +kernel)
    obtain ⟨hlength, herrors⟩ := of_decide_eq_true hp
    obtain ⟨-, hlex, -, -, -, hlexical, -⟩ :=
      (parse_eq_lexical_iff unrecognisedAssembler "main" unrecognisedText).2 program hread
    have hhas : HasErrors program.lines := by
      by_contra hno
      rw [flatMap_lexErrors_eq_nil_iff.2 hno] at herrors
      cases herrors
    obtain ⟨hparse, hpending, hassemble⟩ := hlexical hhas
    rw [hlex, herrors] at hparse
    exact ⟨program, hparse, hlength, hpending, fun img => by rw [hassemble]⟩
  · have hread : (unrecognisedAssembler.reading "main" (unrecognisedText ++ "\n:top")).map
        (fun _ => ()) = .error (.atLine ⟨"main", 5, ":top"⟩
          (.duplicateLabel "top" ⟨"main", 2, ":top SET A, N"⟩)) := by decide +kernel
    exact (parse_eq_lexical_iff unrecognisedAssembler "main" _).1 _ (map_eq_error.1 hread)

end Assembler

end Asm16
