import Asm16.Proofs.Includes

/-!
# Includes in a cycle

A program is refused for a cycle exactly if reading comes to an include of a document that is open.
One direction follows the error from the include line out to the program
(`Reads.error_of_reaches`). For the other, a cycle in the outcome of reading is found at a place
that reading comes by (`Reads.exists_cycle`), and the errors of the layout and of resolution are
told apart from it (`Line.measure_error`, `Assembly.resolved_error`).

Along every branch of a document tree the names are different, so no branch is longer than there are
files, besides the root (`Reads.exists_nested`).
-/

namespace Asm16

/-! ## The errors of a line -/

theorem applyDefines_error {site : Site} {ds : Defines} {e : Error}
    (h : (applyDefines site ds).result = .error e) : ∃ cause, e = .atLine site (.define cause) := by
  unfold applyDefines at h
  simp only at h
  split at h
  · split at h
    · cases h
    · exact ⟨_, (Except.error.inj h).symm⟩
  · cases h
  · split at h
    · cases h
    · exact ⟨_, (Except.error.inj h).symm⟩

theorem enterLabels_error {site : Site} {index : Nat} {symbols : SymbolTable} {scope : Bytes}
    {ts : List Token} {fault : Fault} (h : enterLabels site index symbols scope ts = .error fault) :
    ∃ name first, fault = .duplicateLabel name first := by
  rw [enterLabels_eq] at h
  cases he : symbols.enter (definitionsOf site index (nameTokens scope ts))
      (usesOf site (nameTokens scope ts)) with
  | error pair =>
    rw [he] at h
    exact ⟨_, _, (Except.error.inj h).symm⟩
  | ok symbols =>
    rw [he] at h
    cases h

/-- A line that is refused has a bad define, or a label that is defined already. -/
theorem readLine_error {doc : Document} {number : Nat} {raw : Bytes} {p : Progress} {e : Error}
    (h : (readLine doc number raw p).result = .error e) :
    ∃ site fault, e = .atLine site fault ∧
      ((∃ cause, fault = .define cause) ∨ ∃ name first, fault = .duplicateLabel name first) := by
  rw [result_readLine] at h
  rcases bind_eq_error.1 h with hbare | ⟨⟨line, ds⟩, -, h⟩
  · obtain ⟨cause, rfl⟩ := applyDefines_error (map_eq_error.1 hbare)
    exact ⟨_, _, rfl, .inl ⟨cause, rfl⟩⟩
  · simp only at h
    split at h
    · rename_i fault hf
      exact ⟨_, fault, (Except.error.inj h).symm, .inr (enterLabels_error hf)⟩
    · cases h

theorem Place.Refuses.ne_includeCycle {s : Place} {site : Site} {name : Bytes} :
    ¬s.Refuses (.atLine site (.includeCycle name)) := by
  rintro ⟨raw, rest, -, h⟩
  obtain ⟨_, _, he, ⟨_, rfl⟩ | ⟨_, _, rfl⟩⟩ := readLine_error h <;> cases he

/-! ## Cycles on the way -/

namespace Reads

variable {source : Option Source} {root s : Place} {r : Except Error Extent}

/-- An error at a place that reading comes by is the error of the whole. -/
theorem error_of_reaches {e : Error} (h : Reaches source root s) (he : Reads source s (.error e)) :
    Reads source root (.error e) := by
  induction h with
  | refl => exact he
  | next _ ht hi ih => exact ih (.plain ht hi he)
  | into _ ht hi hc ih => exact ih (.inner ht hi hc he)
  | behind _ ht hi hc hin ih => exact ih (.within ht hi hc hin he)

/-- A cycle is the error of an include line that reading comes to, of a document that is open. -/
theorem exists_cycle {site : Site} {name : Bytes} (hr : Reads source s r)
    (he : r = .error (.atLine site (.includeCycle name))) (h : Reaches source root s) :
    ∃ s line after text, Reaches source root s ∧ s.Takes line after ∧
      line.Includes source name text ∧ name ∈ s.document.chain ∧ site = line.site := by
  induction hr with
  | done => cases he
  | tooLong => cases he
  | refused hrefused =>
    obtain rfl := Except.error.inj he
    exact absurd hrefused Place.Refuses.ne_includeCycle
  | plain ht hi _ ih => exact ih (map_eq_error.1 he) (.next h ht hi)
  | missing => cases he
  | @cycle s after line name' text ht hi hc =>
    obtain ⟨hsite, hfault⟩ := Error.atLine.inj (Except.error.inj he)
    obtain rfl := Fault.includeCycle.inj hfault
    exact ⟨s, line, after, text, h, ht, hi, hc, hsite.symm⟩
  | inner ht hi hc _ ih => exact ih he (.into h ht hi hc)
  | within ht hi hc hin _ _ ih => exact ih (map_eq_error.1 he) (.behind h ht hi hc hin)

end Reads

/-! ## Document trees -/

/-- The names of a document in a tree and of those that include it, the nearest first. -/
inductive DocumentTree.Branch : DocumentTree → List Bytes → Prop
  | root {name : Bytes} {lines : Nat} {includes : List (Nat × DocumentTree)} :
      Branch (.node name lines includes) [name]
  | child {name : Bytes} {lines number : Nat} {includes : List (Nat × DocumentTree)}
      {tree : DocumentTree} {names : List Bytes} (hm : (number, tree) ∈ includes)
      (hb : Branch tree names) : Branch (.node name lines includes) (names ++ [name])

/-- A branch of a document that was included, with the documents that were open before, is the chain
of an open document. -/
theorem Reads.exists_nested {source : Option Source} {s : Place} {r : Except Error Extent}
    {extent : Extent} (hr : Reads source s r) (he : r = .ok extent)
    (hs : s.document.Nested source) {number : Nat} {tree : DocumentTree} {names : List Bytes}
    (hm : (number, tree) ∈ extent.includes) (hb : tree.Branch names) :
    ∃ doc : Document, doc.Nested source ∧ doc.chain = names ++ s.document.chain := by
  induction hr generalizing extent number tree names with
  | done =>
    obtain rfl := Except.ok.inj he
    cases hm
  | tooLong | refused | missing | cycle | inner => cases he
  | plain ht hi _ ih =>
    obtain ⟨more, rfl, rfl⟩ := map_eq_ok.1 he
    have := ih rfl (ht.document_eq.2 ▸ hs) hm hb
    rwa [ht.document_eq.2] at this
  | @within s after line name text inner r ht hi hc _ _ ihe ihr =>
    obtain ⟨more, rfl, rfl⟩ := map_eq_ok.1 he
    have hchild := hs.child hi hc
    rcases List.mem_append.1 hm with hm | hm
    · obtain ⟨-, rfl⟩ := Prod.mk.inj (List.mem_singleton.1 hm)
      cases hb with
      | root => exact ⟨⟨name, s.document.chain⟩, hchild, rfl⟩
      | child hm' hb' =>
        obtain ⟨doc, hdoc, hchain⟩ := ihe rfl hchild hm' hb'
        exact ⟨doc, hdoc, by rw [hchain, List.append_assoc]; rfl⟩
    · have := ihr rfl (ht.document_eq.2 ▸ hs) hm hb
      rwa [ht.document_eq.2] at this

/-! ## The errors of layout and resolution -/

theorem Instruction.parseOperand_error {text : Bytes} {run : List Token} {side : Side}
    {fault : Fault} (h : parseOperand text run side = .error fault) :
    ∃ quoted cause, fault = .operand quoted cause := by
  unfold parseOperand at h
  split at h
  · cases h
  · exact ⟨_, _, (Except.error.inj h).symm⟩

theorem Instruction.parse_error {text : Bytes} {ts : List Token} {fault : Fault}
    (h : parse text ts = .error fault) : ∃ quoted cause, fault = .operand quoted cause := by
  unfold parse at h
  split at h
  · cases h
  simp only at h
  split at h
  · exact ⟨_, _, (Except.error.inj h).symm⟩
  · rcases bind_eq_error.1 h with hb | ⟨b, -, h⟩
    · exact parseOperand_error hb
    rcases bind_eq_error.1 h with ha | ⟨a, -, h⟩
    · exact parseOperand_error ha
    · cases h
  · rcases bind_eq_error.1 h with ha | ⟨a, -, h⟩
    · exact parseOperand_error ha
    · cases h
  · rcases bind_eq_error.1 h with ha | ⟨a, -, h⟩
    · exact parseOperand_error ha
    · cases h
  · exact ⟨_, _, (Except.error.inj h).symm⟩

/-- A layout directive has no size for its value, or for going back. -/
theorem Directive.evaluate_bind_error {d : Directive} {offset : Int} {fault : Fault}
    {back : Int → Prop} [DecidablePred back] {target : Int → Int}
    {size : Int → Int × Option Instruction}
    (h : (d.evaluate >>= fun n =>
      if back n then .error (.backtrack d.keyword (target n) offset) else .ok (size n)) =
        .error fault) :
    (∃ keyword params cause, fault = .directive keyword params cause) ∨
      ∃ keyword target, fault = .backtrack keyword target offset := by
  rcases bind_eq_error.1 h with he | ⟨n, -, h⟩
  · unfold evaluate at he
    split at he
    · cases he
    · exact .inl ⟨_, _, _, (Except.error.inj he).symm⟩
  · split at h
    · exact .inr ⟨_, _, (Except.error.inj h).symm⟩
    · cases h

/-- A line has no size for an operand, for the value of its directive, or for going back. -/
theorem Line.measure_error {l : Line} {offset : Int} {fault : Fault}
    (h : l.measure offset = .error fault) :
    (∃ quoted cause, fault = .operand quoted cause) ∨
      (∃ keyword params cause, fault = .directive keyword params cause) ∨
      ∃ keyword target, fault = .backtrack keyword target offset := by
  unfold measure at h
  split at h
  · rcases bind_eq_error.1 h with hp | ⟨code, -, h⟩
    · exact .inl (Instruction.parse_error hp)
    · cases h
  rename_i d _
  cases hk : d.kind <;> simp only [hk] at h
  case origin | align | reserve => exact .inr (Directive.evaluate_bind_error h)
  case data =>
    rcases bind_eq_error.1 h with he | ⟨runs, -, h⟩
    · unfold dataValues at he
      split at he
      · cases he
      · exact .inl ⟨_, _, (Except.error.inj he).symm⟩
    · cases h
  case inclusion | define => cases h

theorem layout_error {lines : List Line} {offset : Int} {e : Error}
    (h : (layout offset lines).result = .error e) :
    ∃ l ∈ lines, ∃ offset fault, l.measure offset = .error fault ∧ e = .atLine l.site fault := by
  induction lines generalizing offset with
  | nil => cases h
  | cons l rest ih =>
    cases hm : l.measure offset with
    | error fault =>
      simp only [layout, hm, Logged.result_bind, Logged.result_fail, error_bind] at h
      exact ⟨l, List.mem_cons_self, offset, fault, hm, (Except.error.inj h).symm⟩
    | ok r =>
      simp only [layout, hm, Logged.result_bind, Logged.result_pure, Logged.result_record,
        Logged.result_map, ok_bind] at h
      obtain ⟨m, hmem, found⟩ := ih (map_eq_error.1 h)
      exact ⟨m, List.mem_cons_of_mem l hmem, found⟩

/-- A program that was read fails at a line without a size, or at a label that is missing. -/
theorem Assembly.resolved_error {program : Assembly} {e : Error}
    (h : program.resolved.result = .error e) :
    (∃ l ∈ program.lines, ∃ offset fault, l.measure offset = .error fault ∧
      e = .atLine l.site fault) ∨
      ∃ site name, e = .atLine site (.labelMissing name) := by
  rw [resolved, Logged.result_bind] at h
  rcases bind_eq_error.1 h with hlayout | ⟨placed, -, h⟩
  · exact .inl (layout_error hlayout)
  · simp only at h
    split at h
    · exact .inr ⟨_, _, (Except.error.inj h).symm⟩
    · cases h

theorem Assembly.resolved_ne_includeCycle {program : Assembly} {site : Site} {name : Bytes} :
    program.resolved.result ≠ .error (.atLine site (.includeCycle name)) := by
  intro h
  rcases resolved_error h with ⟨l, -, offset, fault, hm, he⟩ | ⟨_, _, he⟩
  · obtain ⟨-, rfl⟩ := Error.atLine.inj he
    rcases Line.measure_error hm with ⟨_, _, hf⟩ | ⟨_, _, _, hf⟩ | ⟨_, _, hf⟩ <;> cases hf
  · cases he

/-! ## Programs -/

namespace Assembler

variable {asm : Assembler} {name text : Bytes} {defines : Defines}

/-- Reading a program comes by a place. -/
def ComesBy (asm : Assembler) (name text : Bytes) (s : Place) : Prop :=
  ∃ defines, asm.initialDefines = .ok defines ∧
    Reaches asm.source (asm.opening name text defines) s

theorem parse_eq_error_of_readProgram {e : Error} (hd : asm.initialDefines = .ok defines)
    (h : (asm.readProgram (Path.clean name) text defines).result = .error e) :
    (asm.parse name text).result = .error e := by
  simp [parse, parseContents, hd, h]

/-- A program is refused for its predefines, while it is read, or afterwards. -/
theorem parse_error {e : Error} (h : (asm.parse name text).result = .error e) :
    (∃ cause, e = .predefine cause) ∨ ∃ defines, asm.initialDefines = .ok defines ∧
      ((asm.readProgram (Path.clean name) text defines).result = .error e ∨
        ∃ program : Assembly, program.resolved.result = .error e) := by
  rw [result_parse] at h
  rcases bind_eq_error.1 h with hdefines | ⟨defines, hd, h⟩
  · unfold initialDefines at hdefines
    split at hdefines
    · cases hdefines
    · exact .inl ⟨_, (Except.error.inj hdefines).symm⟩
  refine .inr ⟨defines, hd, ?_⟩
  rcases bind_eq_error.1 h with hread | ⟨program, -, h⟩
  · exact .inl hread
  · exact .inr ⟨program, Assembly.completed_eq_error h⟩

/-- A cycle is found while the program is read. -/
theorem readProgram_of_parse {site : Site} {included : Bytes}
    (h : (asm.parse name text).result = .error (.atLine site (.includeCycle included))) :
    ∃ defines, asm.initialDefines = .ok defines ∧
      (asm.readProgram (Path.clean name) text defines).result =
        .error (.atLine site (.includeCycle included)) := by
  rcases parse_error h with ⟨cause, he⟩ | ⟨defines, hd, hread | ⟨program, hresolved⟩⟩
  · cases he
  · exact ⟨defines, hd, hread⟩
  · exact absurd hresolved Assembly.resolved_ne_includeCycle

/-- What parsing gives comes from a reading. Layout and resolution change nothing but addresses. -/
theorem exists_reads_of_parse {a : Assembly} {e : Option Error}
    (h : (asm.parse name text).result = .ok (a, e)) :
    ∃ defines extent, asm.initialDefines = .ok defines ∧
      Reads asm.source (asm.opening name text defines) (.ok extent) ∧
      a.tree = (Assembly.ofExtent (Path.clean name) text extent).tree ∧
      a.defines = extent.progress.defines ∧
      a.lines.map Line.bare = extent.lines.map Line.bare := by
  rw [result_parse] at h
  obtain ⟨defines, hd, h⟩ := bind_eq_ok.1 h
  obtain ⟨program, hread, h⟩ := bind_eq_ok.1 h
  obtain ⟨extent, hreads, rfl⟩ := readProgram_eq_ok.1 hread
  refine ⟨defines, extent, hd, hreads, ?_⟩
  rcases Assembly.completed_eq_ok h with ⟨-, -, hres⟩ | ⟨-, -, rfl⟩
  · obtain ⟨placed, symbols, hplaced, -, rfl⟩ := Assembly.resolved_eq_ok hres
    refine ⟨rfl, rfl, ?_⟩
    rw [map_bare_resolve, map_bare_of_unplaced (layout_laid hplaced).2]
    rfl
  · exact ⟨rfl, rfl, rfl⟩

/-- Along a branch of the documents of a program the names are those of open documents. -/
theorem exists_nested_of_parse {a : Assembly} {e : Option Error}
    (h : (asm.parse name text).result = .ok (a, e)) {names : List Bytes}
    (hb : a.tree.Branch names) :
    ∃ doc : Document, doc.Nested asm.source ∧ doc.chain = names := by
  obtain ⟨defines, extent, -, hreads, htree, -, -⟩ := exists_reads_of_parse h
  have hroot := (asm.opening_inReach name text defines).nested
  rw [htree] at hb
  cases hb with
  | root => exact ⟨⟨Path.clean name, []⟩, hroot, rfl⟩
  | child hm hb => exact hreads.exists_nested rfl hroot hm hb

/-- Reading a program comes to an end, with documents of different names one in another, and a
program is refused for a cycle exactly if reading comes to an include of a document that is open.
The outcome is the only one the rules of reading allow, and these have no bound on how deep includes
are nested. -/
theorem parse_eq_includeCycle_iff (asm : Assembler) (name text : Bytes) :
    (∀ defines, ∃ r, (∀ r', Reads asm.source (asm.opening name text defines) r' ↔ r' = r) ∧
      (asm.readProgram (Path.clean name) text defines).result =
        r.map (Assembly.ofExtent (Path.clean name) text)) ∧
    (∀ s, asm.ComesBy name text s →
      s.document.chain.Nodup ∧ s.document.chain.length ≤ fileCount asm.source + 1) ∧
    (∀ a e, (asm.parse name text).result = .ok (a, e) → ∀ names, a.tree.Branch names →
      names.Nodup ∧ names.length ≤ fileCount asm.source + 1) ∧
    ∀ site included,
      (asm.parse name text).result = .error (.atLine site (.includeCycle included)) ↔
        ∃ s line after contents, asm.ComesBy name text s ∧ s.Takes line after ∧
          line.Includes asm.source included contents ∧ included ∈ s.document.chain ∧
          site = line.site := by
  refine ⟨?_, ?_, ?_, ?_⟩
  · intro defines
    refine ⟨_, fun r' => ?_, asm.result_readProgram name text defines⟩
    rw [reads_iff (asm.opening_inReach name text defines)]
    exact eq_comm
  · rintro s ⟨defines, -, hreaches⟩
    have hnested := hreaches.nested (asm.opening_inReach name text defines).nested
    exact ⟨hnested.nodup, hnested.length_le⟩
  · intro a e ha names hb
    obtain ⟨doc, hdoc, rfl⟩ := exists_nested_of_parse ha hb
    exact ⟨hdoc.nodup, hdoc.length_le⟩
  · intro site included
    constructor
    · intro h
      obtain ⟨defines, hd, hread⟩ := readProgram_of_parse h
      rw [result_readProgram] at hread
      have hreads := (reads_iff (asm.opening_inReach name text defines)).2 (map_eq_error.1 hread)
      obtain ⟨s, line, after, contents, hs, found⟩ := hreads.exists_cycle rfl .refl
      exact ⟨s, line, after, contents, ⟨defines, hd, hs⟩, found⟩
    · rintro ⟨s, line, after, contents, ⟨defines, hd, hs⟩, ht, hi, hc, rfl⟩
      have hreads := Reads.error_of_reaches hs (.cycle ht hi hc)
      refine parse_eq_error_of_readProgram hd ?_
      rw [result_readProgram, hreads.read_eq (asm.opening_inReach name text defines)]
      rfl

/-- Two documents that include each other, and one that both of them include. -/
def circularAssembler : Assembler :=
  { source := some { files := [("a", "SET A, 1\n.include c\n.include b"),
    ("b", ".include c\n\n.include ./a"), ("c", "SET B, 2")] } }

/-- Documents of which each includes all that come before it. -/
def stackedAssembler : Assembler :=
  { source := some { files := [("c", "SET B, 2"), ("a", ".include c"),
    ("b", ".include lib/../c\n.include a")] } }

/-- The first document that the root includes has a second child, which has one child. -/
def firstOpensTwo : DocumentTree → Bool
  | .node _ _ ((_, .node _ _ [_, (_, .node _ _ [(_, .node _ _ _)])]) :: _) => true
  | _ => false

theorem exists_branch_of_firstOpensTwo {tree : DocumentTree} (h : firstOpensTwo tree = true) :
    ∃ names, tree.Branch names ∧ names.length = 4 := by
  unfold firstOpensTwo at h
  split at h
  · exact ⟨_, .child List.mem_cons_self (.child (List.mem_cons_of_mem _ List.mem_cons_self)
      (.child List.mem_cons_self .root)), rfl⟩
  · cases h

/-- A cycle is refused at the line that closes it; a document that is not open is included again,
and as many can be open as there are files, besides the root. -/
theorem circular_parse_eq_includeCycle_iff :
    (∃ s line after contents, circularAssembler.ComesBy "main" ".include a" s ∧
      s.Takes line after ∧ line.Includes circularAssembler.source "a" contents ∧
      ("a" : Bytes) ∈ s.document.chain ∧ line.site = ⟨"b", 3, ".include ./a"⟩) ∧
    ∃ a e names,
      (stackedAssembler.parse "main" ".include b\n.include c\n.include a").result = .ok (a, e) ∧
      a.tree.Branch names ∧ names.Nodup ∧ names.length = fileCount stackedAssembler.source + 1 := by
  constructor
  · have hcycle : ((circularAssembler.parse "main" ".include a").result.map fun _ => ()) =
        .error (.atLine ⟨"b", 3, ".include ./a"⟩ (.includeCycle "a")) := by decide +kernel
    obtain ⟨-, -, -, hiff⟩ := parse_eq_includeCycle_iff circularAssembler "main" ".include a"
    obtain ⟨s, line, after, contents, hs, ht, hi, hc, hsite⟩ := (hiff _ _).1 (map_eq_error.1 hcycle)
    exact ⟨s, line, after, contents, hs, ht, hi, hc, hsite.symm⟩
  · obtain ⟨⟨a, e⟩, ha, hp⟩ := exists_ok
      (x := (stackedAssembler.parse "main" ".include b\n.include c\n.include a").result)
      (p := fun r => firstOpensTwo r.1.tree) (by decide +kernel)
    obtain ⟨names, hbranch, hlength⟩ := exists_branch_of_firstOpensTwo hp
    obtain ⟨-, -, htree, -⟩ := parse_eq_includeCycle_iff stackedAssembler "main"
      ".include b\n.include c\n.include a"
    exact ⟨a, e, names, ha, hbranch, (htree a e ha names hbranch).1, hlength⟩

end Assembler

end Asm16
