import Asm16.Proofs.Resolved

/-!
# Programs that are laid out

`Assembler.Accepts` is the success of a parse : the program was read, every line was recognised,
every line has a size and every label use an address. `parse_accepts` takes such a parse apart into
its three passes, reading, layout and resolution.

What the later passes need to know of the layout is `Laid` : each line starts where the one before
it ends, in 64 bit arithmetic, and has the size and the instruction `Line.measure` finds at its
address. It is kept by resolution, so it holds of the lines of every accepted program
(`laid_of_accepts`).
-/

namespace Asm16

/-! ## Lines one after another -/

/-- Lines that are laid out from address `offset` on. -/
def Laid (offset : Int) : List Line → Prop
  | [] => True
  | l :: rest => l.offset = offset ∧ l.measure offset = .ok (l.size, l.code) ∧ Laid l.stop rest

/-- A line as it was before it was laid out. -/
def Line.unplaced (l : Line) : Line := { l with offset := 0, size := 0, code := none }

theorem layout_cons_eq_ok {l : Line} {rest placed : List Line} {offset : Int} :
    (layout offset (l :: rest)).result = .ok placed ↔
      ∃ size code more, l.measure offset = .ok (size, code) ∧
        (layout (wrap (offset + size)) rest).result = .ok more ∧
        placed = { l with offset, size, code } :: more := by
  cases hm : l.measure offset with
  | error fault => simp [layout, hm]
  | ok r =>
    obtain ⟨size, code⟩ := r
    simp only [layout, hm, Logged.result_bind, Logged.result_pure, Logged.result_record,
      Logged.result_map, ok_bind, map_eq_ok, Line.stop]
    constructor
    · rintro ⟨more, hmore, rfl⟩
      exact ⟨size, code, more, rfl, hmore, rfl⟩
    · rintro ⟨size', code', more, heq, hmore, rfl⟩
      cases heq
      exact ⟨more, hmore, rfl⟩

theorem layout_laid : ∀ {lines placed : List Line} {offset : Int},
    (layout offset lines).result = .ok placed →
      Laid offset placed ∧ placed.map Line.unplaced = lines.map Line.unplaced
  | [], placed, offset, h => by
    obtain rfl : [] = placed := by simpa [layout] using h
    exact ⟨trivial, rfl⟩
  | l :: rest, placed, offset, h => by
    cases hm : l.measure offset with
    | error fault => simp [layout, hm] at h
    | ok r =>
      obtain ⟨size, code⟩ := r
      simp only [layout, hm, Logged.result_bind, Logged.result_pure, Logged.result_record,
        Logged.result_map, ok_bind] at h
      obtain ⟨more, hmore, rfl⟩ := map_eq_ok.1 h
      obtain ⟨hlaid, hsame⟩ := layout_laid hmore
      exact ⟨⟨rfl, hm, hlaid⟩, by rw [List.map_cons, List.map_cons, hsame]; rfl⟩

theorem laid_resolve (find : Bytes → Option Int) {lines : List Line} {offset : Int}
    (h : Laid offset lines) : Laid offset (lines.map (Line.resolve find)) := by
  induction lines generalizing offset with
  | nil => exact h
  | cons l rest ih =>
    obtain ⟨ho, hm, hrest⟩ := h
    rw [List.map_cons, Laid, Line.resolve_offset, Line.resolve_stop, Line.measure_resolve, hm]
    exact ⟨ho, rfl, ih hrest⟩

/-- Every line of a layout was measured at its address. -/
theorem Laid.measure_eq {lines : List Line} {offset : Int} (h : Laid offset lines) {l : Line}
    (hl : l ∈ lines) : l.measure l.offset = .ok (l.size, l.code) := by
  induction lines generalizing offset with
  | nil => simp at hl
  | cons m rest ih =>
    obtain ⟨ho, hm, hrest⟩ := h
    rcases List.mem_cons.1 hl with rfl | hl
    · rw [ho]
      exact hm
    · exact ih hrest hl

/-! ## Accepted programs -/

/-- The parse of `text` succeeds, with every line recognised, and its result is `a`. -/
def Assembler.Accepts (asm : Assembler) (name text : Bytes) (a : Assembly) : Prop :=
  (asm.parse name text).result = .ok (a, none)

namespace Assembly

/-- The symbol table of a program with the addresses its lines got. -/
def locatedSymbols (program : Assembly) (placed : List Line) : SymbolTable :=
  program.symbols.locate fun i => (placed.map (·.offset)).toArray.getD i 0

theorem resolved_eq_ok {program a : Assembly} (h : program.resolved.result = .ok a) :
    ∃ placed symbols, (layout 0 program.lines).result = .ok placed ∧
      (program.locatedSymbols placed).resolve = (symbols, none) ∧
      a = { program with lines := placed.map (Line.resolve symbols.offset?), symbols } := by
  simp only [resolved, Logged.result_bind] at h
  obtain ⟨placed, hplaced, h⟩ := bind_eq_ok.1 h
  refine ⟨placed, ?_⟩
  cases hr : (program.locatedSymbols placed).resolve with
  | mk symbols missing =>
    unfold locatedSymbols at hr
    rw [hr] at h
    cases missing with
    | some u => simp at h
    | none =>
      have h := (Except.ok.inj h).symm
      exact ⟨symbols, hplaced, rfl, h⟩

/-- A program is resolved if every use has a definition. -/
theorem resolved_of_resolve {program : Assembly} {placed : List Line}
    {symbols : SymbolTable} (hp : (layout 0 program.lines).result = .ok placed)
    (hr : (program.locatedSymbols placed).resolve = (symbols, none)) :
    program.resolved.result =
      .ok { program with lines := placed.map (Line.resolve symbols.offset?), symbols } := by
  unfold locatedSymbols at hr
  simp only [resolved, Logged.result_bind, hp, ok_bind, hr, Logged.result_pure]

/-- A use without a definition is the error of the whole program. -/
theorem resolved_eq_error {program : Assembly} {placed : List Line} {symbols : SymbolTable}
    {u : Use} (hp : (layout 0 program.lines).result = .ok placed)
    (hr : (program.locatedSymbols placed).resolve = (symbols, some u)) :
    program.resolved.result = .error (.atLine u.site (.labelMissing u.name)) := by
  unfold locatedSymbols at hr
  simp only [resolved, Logged.result_bind, hp, ok_bind, hr, Logged.result_fail]

theorem lexErrors_resolved {program a : Assembly} (h : program.resolved.result = .ok a) :
    a.lexErrors = program.lexErrors := by
  obtain ⟨_, _, -, -, rfl⟩ := resolved_eq_ok h
  rfl

theorem lexicalError?_eq_none {a : Assembly} : a.lexicalError? = none ↔ a.lexErrors = [] := by
  simp [lexicalError?]

theorem result_completed_of_nil {program : Assembly} (h : program.lexErrors = []) :
    program.completed.result = program.resolved.result.map (·, none) := by
  rw [completed, lexicalError?_eq_none.2 h]
  rfl

theorem result_completed_of_ne_nil {program : Assembly} (h : program.lexErrors ≠ []) :
    program.completed.result = .ok (program, some (.lexical program.lexErrors)) := by
  have he : program.lexicalError? = some (.lexical program.lexErrors) := by
    simpa [lexicalError?] using h
  rw [completed, he]
  rfl

/-- What completing a program that was read gives. -/
theorem completed_eq_ok {program a : Assembly} {e : Option Error}
    (h : program.completed.result = .ok (a, e)) :
    program.lexErrors = [] ∧ e = none ∧ program.resolved.result = .ok a ∨
      program.lexErrors ≠ [] ∧ e = some (.lexical program.lexErrors) ∧ a = program := by
  by_cases hlex : program.lexErrors = []
  · rw [result_completed_of_nil hlex] at h
    obtain ⟨b, hb, heq⟩ := map_eq_ok.1 h
    obtain ⟨rfl, rfl⟩ := Prod.mk.inj heq
    exact .inl ⟨hlex, rfl, hb⟩
  · rw [result_completed_of_ne_nil hlex] at h
    obtain ⟨rfl, rfl⟩ := Prod.mk.inj (Except.ok.inj h)
    exact .inr ⟨hlex, rfl, rfl⟩

theorem completed_eq_error {program : Assembly} {e : Error}
    (h : program.completed.result = .error e) : program.resolved.result = .error e := by
  by_cases hlex : program.lexErrors = []
  · rw [result_completed_of_nil hlex] at h
    exact map_eq_error.1 h
  · rw [result_completed_of_ne_nil hlex] at h
    cases h

/-- A program with every line recognised is written into the cleared image. -/
theorem assemble_eq_writeLines {a : Assembly} (h : a.lexErrors = []) (img : Image) :
    a.assemble img = writeLines img.cleared a.lines := by
  rw [assemble, lexicalError?_eq_none.2 h]

end Assembly

namespace Assembler

variable {asm : Assembler} {name text : Bytes} {a : Assembly}

theorem result_parse (asm : Assembler) (name text : Bytes) : (asm.parse name text).result =
    asm.initialDefines >>= fun defines =>
      (asm.readProgram (Path.clean name) text defines).result >>= fun program =>
        program.completed.result := by
  simp only [parse, parseContents, Logged.result_bind, Logged.result_lift, mapError_ok, ok_bind]

/-- The result of a parse whose reading succeeds and recognises every line. -/
theorem parse_eq_resolved {defines : Defines} {program : Assembly}
    (hd : asm.initialDefines = .ok defines)
    (hr : (asm.readProgram (Path.clean name) text defines).result = .ok program)
    (hl : program.lexErrors = []) :
    (asm.parse name text).result = program.resolved.result.map (·, none) := by
  rw [result_parse, hd, ok_bind, hr, ok_bind, Assembly.result_completed_of_nil hl]

theorem accepts_of_resolved {defines : Defines} {program : Assembly}
    (hd : asm.initialDefines = .ok defines)
    (hr : (asm.readProgram (Path.clean name) text defines).result = .ok program)
    (hl : program.lexErrors = []) (h : program.resolved.result = .ok a) :
    asm.Accepts name text a := by
  rw [Accepts, parse_eq_resolved hd hr hl, h]
  rfl

/-- The reading of an accepted program, and what is left to do after it. -/
theorem parse_accepts (h : asm.Accepts name text a) :
    ∃ defines program, asm.initialDefines = .ok defines ∧
      (asm.readProgram (Path.clean name) text defines).result = .ok program ∧
      program.lexErrors = [] ∧ program.resolved.result = .ok a := by
  rw [Accepts, result_parse] at h
  obtain ⟨defines, hd, h⟩ := bind_eq_ok.1 h
  obtain ⟨program, hr, h⟩ := bind_eq_ok.1 h
  rcases Assembly.completed_eq_ok h with ⟨hlex, -, hres⟩ | ⟨-, he, -⟩
  · exact ⟨defines, program, hd, hr, hlex, hres⟩
  · cases he

theorem lexErrors_of_accepts (h : asm.Accepts name text a) : a.lexErrors = [] := by
  obtain ⟨-, program, -, -, hlex, hres⟩ := parse_accepts h
  rw [Assembly.lexErrors_resolved hres, hlex]

/-- Nothing but writing is left to do for an accepted program. -/
theorem assemble_of_accepts (h : asm.Accepts name text a) (img : Image) :
    a.assemble img = Assembly.writeLines img.cleared a.lines :=
  Assembly.assemble_eq_writeLines (lexErrors_of_accepts h) img

/-- A parse that is run to its end shows an accepted program. -/
theorem exists_accepts (asm : Assembler) (name text : Bytes) (p : Assembly → Bool)
    (h : (asm.parse name text).result.toOption.any (fun r => r.2.isNone && p r.1) = true) :
    ∃ a, asm.Accepts name text a ∧ p a = true := by
  obtain ⟨⟨a, e⟩, ha, hp⟩ := exists_ok h
  obtain ⟨he, hp⟩ := Bool.and_eq_true_iff.1 hp
  obtain rfl := Option.isNone_iff_eq_none.1 he
  exact ⟨a, ha, hp⟩

/-- The lines of an accepted program are laid out from address zero on. -/
theorem laid_of_accepts (h : asm.Accepts name text a) : Laid 0 a.lines := by
  obtain ⟨-, program, -, -, -, hres⟩ := parse_accepts h
  obtain ⟨placed, symbols, hplaced, -, rfl⟩ := Assembly.resolved_eq_ok hres
  exact laid_resolve _ (layout_laid hplaced).1

end Assembler

/-! ## A program with a line of every kind -/

/-- A file tree with one document to include. -/
def sampleAssembler : Assembler :=
  { source := some { files := [("lib", ".loop: SUB [SP + 1], top\nIFN A, main\nJMP .loop")] } }

/-- Uses before and after their definitions, in both documents; a local label whose scope the
included document goes on with; strings, values and layout. -/
def sampleText : Bytes :=
  "#define N 3\n:main SET A, N\n JSR end\n.include lib\n SET [.loop], B ; note\n\n.org 0x10\n" ++
    "top: DAT \"hi\\n\", (N+1), main\n.reserve 2\nend:"

end Asm16
