import Asm16.Proofs.Laid

/-!
# Flattened programs

Reading a program does two things at once : it puts the lines of included documents in place, and it
enters the labels of each line into the symbol table. `flatten` does the first alone. It gives the
lines of a program with their labels not entered, and it goes on where the reader stops at a label
that is defined twice.

`Progress.enter` enters the labels of flattened lines, one after another, and records the text that
is not recognised (`Progress.lexErrors_of_enter`). Reading is flattening and then entering
(`flattens_readDocument`) : if the program can be flattened, reading it gives what entering the
flattened lines gives, the error included; if not, reading fails too.
-/

namespace Asm16

/-! ## Lines without labels -/

/-- Reads part of a program after the defines made so far; gives its lines, those of included
documents in place, and the defines after it. -/
abbrev Flattening := Defines → Except Error (List Line × Defines)

/-- What an include directive asks for. -/
def included? : Option Directive → Option Bytes
  | some ⟨.inclusion, _, params⟩ => some params
  | _ => none

/-- A line before its labels are entered, and the defines after it. -/
def bareLine (doc : Document) (number : Nat) (raw : Bytes) (ds : Defines) :
    Except Error (Line × Defines) :=
  (applyDefines ⟨doc.name, number, raw⟩ ds).result.map fun (r, ds) =>
    ({ document := doc, number, raw, text := r.text, tokens := r.tokens, directive := r.directive },
      ds)

/-- The lines an include puts behind its own line. -/
def flattenInclude (source : Option Source) (child : Document → Bytes → Flattening) (line : Line) :
    Flattening := fun ds =>
  match included? line.directive with
  | none => .ok ([], ds)
  | some params =>
    match source.bind fun s => s.resolve? line.document.name (includePath params) with
    | none => .error (.atLine line.site (.includeMissing (includePath params)))
    | some (name, text) =>
      if line.document.hasAncestor name then .error (.atLine line.site (.includeCycle name))
      else child ⟨name, line.document.chain⟩ text ds

/-- A line with the lines it includes. -/
def flattenLine (source : Option Source) (child : Document → Bytes → Flattening) (doc : Document)
    (number : Nat) (raw : Bytes) : Flattening := fun ds => do
  let (line, ds) ← bareLine doc number raw ds
  (flattenInclude source child line ds).map fun (inner, ds) => (line :: inner, ds)

/-- The lines of a document from number `number` on. -/
def flattenLines (source : Option Source) (child : Document → Bytes → Flattening) (doc : Document)
    (cut : Bool) (number : Nat) : List Bytes → Flattening
  | [], ds => if cut then .error .lineTooLong else .ok ([], ds)
  | raw :: rest, ds => do
    let (lines, ds) ← flattenLine source child doc number raw ds
    (flattenLines source child doc cut (number + 1) rest ds).map fun (more, ds) =>
      (lines ++ more, ds)

/-- The lines of a document and of those it includes. -/
def flattenDocument (source : Option Source) : Nat → Document → Bytes → Flattening
  | 0, doc, text, ds => flattenLines source (fun inner _ _ => .error (.file (.missing inner.name)))
      doc (sourceLines text).2 1 (sourceLines text).1 ds
  | depth + 1, doc, text, ds => flattenLines source (flattenDocument source depth) doc
      (sourceLines text).2 1 (sourceLines text).1 ds

/-- The flattened lines of a program. -/
def Assembler.flatten (asm : Assembler) (name text : Bytes) : Except Error (List Line) := do
  let defines ← asm.initialDefines
  let (lines, _) ←
    flattenDocument asm.source (fileCount asm.source) ⟨Path.clean name, []⟩ text defines
  .ok lines

/-! ## Entering labels -/

/-- The progress behind a line with these labels. -/
def Progress.behind (p : Progress) (l : Line) (symbols : SymbolTable) (scope : Bytes) : Progress :=
  { p with symbols, scope, count := p.count + 1, lexErrors := p.lexErrors ++ l.lexErrors }

@[simp] theorem Progress.behind_defines (p : Progress) (l : Line) (symbols : SymbolTable)
    (scope : Bytes) : (p.behind l symbols scope).defines = p.defines := rfl

/-- Enters the labels of lines, one after another. -/
def Progress.enter (p : Progress) : List Line → Except Error (List Line × Progress)
  | [] => .ok ([], p)
  | l :: rest =>
    match enterLabels l.site p.count p.symbols p.scope l.tokens with
    | .error fault => .error (.atLine l.site fault)
    | .ok (tokens, symbols, scope) =>
      (Progress.enter (p.behind l symbols scope) rest).map fun (more, q) =>
        ({ l with tokens } :: more, q)

namespace Progress

/-- Entering labels has nothing to do with defines. -/
theorem enter_defines (lines : List Line) (p : Progress) (ds : Defines) :
    { p with defines := ds }.enter lines =
      (p.enter lines).map fun (lines, q) => (lines, { q with defines := ds }) := by
  induction lines generalizing p with
  | nil => rfl
  | cons l rest ih =>
    simp only [enter]
    cases enterLabels l.site p.count p.symbols p.scope l.tokens with
    | error fault => rfl
    | ok r =>
      obtain ⟨tokens, symbols, scope⟩ := r
      have hrest := ih (p.behind l symbols scope)
      simp only [behind] at hrest ⊢
      rw [hrest]
      cases enter _ rest <;> rfl

theorem enter_append (first second : List Line) (p : Progress) : p.enter (first ++ second) =
    p.enter first >>= fun (a, q) => (q.enter second).map fun (b, r) => (a ++ b, r) := by
  induction first generalizing p with
  | nil =>
    simp only [List.nil_append, enter, ok_bind]
    cases p.enter second <;> rfl
  | cons l rest ih =>
    simp only [List.cons_append, enter]
    cases enterLabels l.site p.count p.symbols p.scope l.tokens with
    | error fault => rfl
    | ok r =>
      obtain ⟨tokens, symbols, scope⟩ := r
      simp only [ih]
      cases enter (p.behind l symbols scope) rest with
      | error e => rfl
      | ok s =>
        simp only [ok_bind, Except.map]
        cases s.2.enter second <;> rfl

/-- The text of lines that is not recognised is recorded, in their order. -/
theorem lexErrors_of_enter {lines entered : List Line} {p q : Progress}
    (h : p.enter lines = .ok (entered, q)) :
    q.lexErrors = p.lexErrors ++ lines.flatMap Line.lexErrors := by
  induction lines generalizing p entered with
  | nil =>
    obtain ⟨-, rfl⟩ := Prod.mk.inj (Except.ok.inj h)
    rw [List.flatMap_nil, List.append_nil]
  | cons l rest ih =>
    rw [enter] at h
    cases he : enterLabels l.site p.count p.symbols p.scope l.tokens with
    | error fault => rw [he] at h; cases h
    | ok r =>
      obtain ⟨tokens, symbols, scope⟩ := r
      rw [he] at h
      obtain ⟨⟨more, q'⟩, hmore, heq⟩ := map_eq_ok.1 h
      obtain ⟨-, rfl⟩ := Prod.mk.inj heq
      rw [ih hmore, behind, List.append_assoc, List.flatMap_cons]

end Progress

/-! ## Reading is flattening and entering -/

/-- What reading part of a program after `p` gives is what entering its flattened lines gives;
reading fails if there are none. -/
def Follows (read : Except Error (List Line × Progress)) (p : Progress)
    (flat : Except Error (List Line × Defines)) : Prop :=
  match flat with
  | .ok (lines, ds) => read = { p with defines := ds }.enter lines
  | .error _ => ∃ e, read = .error e

/-- Two parts of a program, one after the other, follow what they follow apart. -/
theorem Follows.append {read : Except Error (List Line × Progress)} {p : Progress}
    {flat : Except Error (List Line × Defines)}
    {next : Progress → Except Error (List Line × Progress)} {flatNext : Flattening}
    (h : Follows read p flat) (hnext : ∀ q, Follows (next q) q (flatNext q.defines)) :
    Follows (read >>= fun (a, q) => (next q).map fun (b, r) => (a ++ b, r)) p
      (flat >>= fun (a, ds) => (flatNext ds).map fun (b, ds) => (a ++ b, ds)) := by
  rcases flat with e | ⟨first, ds⟩
  · obtain ⟨e, rfl⟩ := h
    exact ⟨e, rfl⟩
  · have hread : read = (p.enter first).map fun (lines, q) => (lines, { q with defines := ds }) :=
      h.trans (Progress.enter_defines first p ds)
    simp only [ok_bind]
    cases hp : p.enter first with
    | error e =>
      -- the first part has a label that cannot be entered, and the second is not reached
      rw [hread, hp]
      rcases flatNext ds with e' | ⟨second, ds'⟩
      · exact ⟨e, rfl⟩
      · show _ = Progress.enter _ (first ++ second)
        rw [Progress.enter_append, Progress.enter_defines, hp]
        rfl
    | ok r =>
      obtain ⟨a, q⟩ := r
      have hq := hnext { q with defines := ds }
      rw [hread, hp]
      simp only [Except.map, ok_bind]
      rcases hn : flatNext ds with e' | ⟨second, ds'⟩
      · simp only [hn, Follows] at hq
        obtain ⟨e, he⟩ := hq
        exact ⟨e, by rw [he]⟩
      · simp only [hn, Follows] at hq
        show _ = Progress.enter _ (first ++ second)
        rw [Progress.enter_append, Progress.enter_defines, hp, hq]
        rfl

/-- What was read was flattened before. -/
theorem Follows.enter_eq_ok {entered : List Line} {p q : Progress}
    {flat : Except Error (List Line × Defines)} (h : Follows (.ok (entered, q)) p flat) :
    ∃ lines ds r, flat = .ok (lines, ds) ∧ p.enter lines = .ok (entered, r) ∧
      q = { r with defines := ds } := by
  rcases flat with e | ⟨lines, ds⟩
  · obtain ⟨e, he⟩ := h
    cases he
  · have h : .ok (entered, q) = { p with defines := ds }.enter lines := h
    rw [Progress.enter_defines] at h
    obtain ⟨⟨entered', r⟩, hr, heq⟩ := map_eq_ok.1 h.symm
    obtain ⟨rfl, rfl⟩ := Prod.mk.inj heq
    exact ⟨lines, ds, r, rfl, hr, rfl⟩

theorem Follows.eq_error {read : Except Error (List Line × Progress)} {p : Progress}
    {lines : List Line} {ds : Defines} {e : Error} (h : Follows read p (.ok (lines, ds)))
    (he : p.enter lines = .error e) : read = .error e := by
  have h : read = { p with defines := ds }.enter lines := h
  rw [h, Progress.enter_defines, he]
  rfl

/-- The lines and the progress of a reading. -/
def Extent.outcome (e : Extent) : List Line × Progress := (e.lines, e.progress)

/-- A reader of documents follows a flattening of them. -/
def ChildReader.Flattens (read : ChildReader) (flat : Document → Bytes → Flattening) : Prop :=
  ∀ doc text p, Follows ((read doc text p).result.map (·.2.outcome)) p (flat doc text p.defines)

/-- The result of reading a line, in terms of the line before its labels are entered. -/
theorem result_readLine (doc : Document) (number : Nat) (raw : Bytes) (p : Progress) :
    (readLine doc number raw p).result = bareLine doc number raw p.defines >>= fun (line, ds) =>
      match enterLabels line.site p.count p.symbols p.scope line.tokens with
      | .error fault => .error (.atLine line.site fault)
      | .ok (tokens, symbols, scope) =>
        .ok ({ line with tokens }, { p with defines := ds }.behind line symbols scope) := by
  simp only [readLine, bareLine, Logged.result_bind, Logged.result_record, Logged.result_records,
    ok_bind]
  cases (applyDefines ⟨doc.name, number, raw⟩ p.defines).result with
  | error e => rfl
  | ok r =>
    simp only [ok_bind, Except.map, Line.site]
    split <;> simp_all [Progress.behind]

section Documents

variable (source : Option Source) {read : ChildReader} {flat : Document → Bytes → Flattening}

/-- Reading what a line includes. -/
def readIncluded (source : Option Source) (read : ChildReader) (line : Line) (p : Progress) :
    Logged Error Extent :=
  match included? line.directive with
  | none => pure ⟨[], [], p⟩
  | some params => readInclude source read line params p

theorem follows_readIncluded (h : read.Flattens flat) (line : Line) (tokens : List Token)
    (p : Progress) :
    Follows ((readIncluded source read { line with tokens } p).result.map Extent.outcome) p
      (flattenInclude source flat line p.defines) := by
  unfold readIncluded flattenInclude
  cases included? line.directive with
  | none => rfl
  | some params =>
    simp only [readInclude]
    cases source.bind fun s => s.resolve? line.document.name (includePath params) with
    | none => exact ⟨_, rfl⟩
    | some file =>
      obtain ⟨name, text⟩ := file
      by_cases hc : line.document.hasAncestor name
      · simp only [hc, if_true]
        exact ⟨_, rfl⟩
      · have := h ⟨name, line.document.chain⟩ text p
        simp only [hc, Bool.false_eq_true, if_false, Logged.result_bind, Logged.result_record,
          ok_bind]
        cases hr : (read ⟨name, line.document.chain⟩ text p).result <;> rw [hr] at this <;>
          exact this

theorem follows_readLine (h : read.Flattens flat) (doc : Document) (number : Nat) (raw : Bytes)
    (p : Progress) :
    Follows ((readLine doc number raw p).result >>= fun (line, q) =>
        ((readIncluded source read line q).result.map Extent.outcome).map fun (inner, q) =>
          (line :: inner, q)) p
      (flattenLine source flat doc number raw p.defines) := by
  rw [result_readLine]
  unfold flattenLine
  cases bareLine doc number raw p.defines with
  | error e => exact ⟨e, rfl⟩
  | ok r =>
    obtain ⟨line, ds⟩ := r
    simp only [ok_bind]
    cases he : enterLabels line.site p.count p.symbols p.scope line.tokens with
    | error fault =>
      rcases flattenInclude source flat line ds with e | ⟨inner, ds'⟩
      · exact ⟨_, rfl⟩
      · simp only [Follows, Except.map, Progress.enter, he]
        rfl
    | ok s =>
      obtain ⟨tokens, symbols, scope⟩ := s
      have := follows_readIncluded source h line tokens
        ({ p with defines := ds }.behind line symbols scope)
      simp only [ok_bind]
      rcases hi : flattenInclude source flat line ds with e | ⟨inner, ds'⟩
      · simp only [Progress.behind_defines, hi, Follows] at this
        obtain ⟨e, hr⟩ := this
        rw [hr]
        exact ⟨e, rfl⟩
      · simp only [Progress.behind_defines, hi, Follows] at this
        rw [this]
        simp only [Follows, Except.map, Progress.enter, he]
        rfl

/-- Reading lines is reading the first, with what it includes, and then the others. -/
theorem readLines_cons (read : ChildReader) (doc : Document) (cut : Bool) (number : Nat)
    (raw : Bytes) (rest : List Bytes) (p : Progress) :
    readLines source read doc cut number (raw :: rest) p =
      readLine doc number raw p >>= fun (line, q) =>
        readIncluded source read line q >>= fun inner => inner.followedBy line <$>
          readLines source read doc cut (number + 1) rest inner.progress := by
  rw [readLines]
  refine congrArg _ (funext fun (line, q) => ?_)
  rcases hd : line.directive with _ | ⟨_ | _ | _ | _ | _ | _, word, params⟩ <;>
    simp only [readIncluded, included?, hd]

theorem outcome_readLines_cons (read : ChildReader) (doc : Document) (cut : Bool) (number : Nat)
    (raw : Bytes) (rest : List Bytes) (p : Progress) :
    (readLines source read doc cut number (raw :: rest) p).result.map Extent.outcome =
      ((readLine doc number raw p).result >>= fun (line, q) =>
        ((readIncluded source read line q).result.map Extent.outcome).map fun (inner, q) =>
          (line :: inner, q)) >>= fun (lines, q) =>
        ((readLines source read doc cut (number + 1) rest q).result.map Extent.outcome).map
          fun (more, q) => (lines ++ more, q) := by
  simp only [readLines_cons, Logged.result_bind, Logged.result_map]
  cases (readLine doc number raw p).result with
  | error e => rfl
  | ok r =>
    simp only [ok_bind]
    cases (readIncluded source read r.1 r.2).result with
    | error e => rfl
    | ok inner =>
      simp only [ok_bind, Except.map, Extent.outcome]
      cases (readLines source read doc cut (number + 1) rest inner.progress).result <;> rfl

theorem follows_readLines (h : read.Flattens flat) (doc : Document) (cut : Bool) (raws : List Bytes)
    (number : Nat) (p : Progress) :
    Follows ((readLines source read doc cut number raws p).result.map Extent.outcome) p
      (flattenLines source flat doc cut number raws p.defines) := by
  induction raws generalizing number p with
  | nil =>
    cases cut with
    | false => rfl
    | true => exact ⟨_, rfl⟩
  | cons raw rest ih =>
    rw [outcome_readLines_cons]
    exact (follows_readLine source h doc number raw p).append fun q => ih (number + 1) q

/-- One more document deep, reading goes on following. -/
theorem ChildReader.Flattens.document (h : read.Flattens flat) :
    ChildReader.Flattens (fun doc text p =>
        (fun extent => (.node doc.name (sourceLines text).1.length extent.includes, extent)) <$>
          readLines source read doc (sourceLines text).2 1 (sourceLines text).1 p)
      fun doc text =>
        flattenLines source flat doc (sourceLines text).2 1 (sourceLines text).1 := by
  intro doc text p
  have := follows_readLines source h doc (sourceLines text).2 (sourceLines text).1 1 p
  rw [Logged.result_map]
  cases hr : (readLines source read doc (sourceLines text).2 1 (sourceLines text).1 p).result <;>
    rw [hr] at this <;> exact this

/-- Reading a document is flattening it and entering the labels of its lines. -/
theorem flattens_readDocument (depth : Nat) :
    (readDocument source depth).Flattens (flattenDocument source depth) := by
  induction depth with
  | zero =>
    have hnone : ChildReader.Flattens (fun inner _ _ => .fail (.file (.missing inner.name)))
        (fun inner _ _ => .error (.file (.missing inner.name))) := fun doc text p => ⟨_, rfl⟩
    exact hnone.document source
  | succ depth ih => exact ih.document source

end Documents

/-! ## Programs -/

namespace Assembler

variable {asm : Assembler} {name text : Bytes} {defines : Defines}

theorem readProgram_eq (asm : Assembler) (name text : Bytes) (defines : Defines) :
    (asm.readProgram name text defines).result =
      (readDocument asm.source (fileCount asm.source) ⟨name, []⟩ text
        (asm.start defines)).result.map fun (tree, extent) =>
          ⟨tree, extent.lines, extent.progress.defines, extent.progress.symbols,
            extent.progress.lexErrors⟩ := by
  simp only [readProgram, Logged.result_bind]
  cases (readDocument asm.source (fileCount asm.source) ⟨name, []⟩ text
    (asm.start defines)).result <;> rfl

theorem flatten_eq_ok {lines : List Line} (hd : asm.initialDefines = .ok defines) :
    asm.flatten name text = .ok lines ↔
      ∃ ds, flattenDocument asm.source (fileCount asm.source) ⟨Path.clean name, []⟩ text defines =
        .ok (lines, ds) := by
  rw [flatten, hd, ok_bind]
  constructor
  · intro h
    obtain ⟨⟨lines', ds⟩, hflat, h⟩ := bind_eq_ok.1 h
    obtain rfl := Except.ok.inj h
    exact ⟨ds, hflat⟩
  · rintro ⟨ds, hflat⟩
    rw [hflat]
    rfl

/-- A program that can be read can be flattened, and reading it entered its labels. -/
theorem enter_of_readProgram {program : Assembly} (hd : asm.initialDefines = .ok defines)
    (hr : (asm.readProgram (Path.clean name) text defines).result = .ok program) :
    ∃ lines q, asm.flatten name text = .ok lines ∧
      (asm.start defines).enter lines = .ok (program.lines, q) ∧ program.symbols = q.symbols ∧
      program.lexErrors = q.lexErrors := by
  rw [readProgram_eq] at hr
  obtain ⟨⟨tree, extent⟩, hread, rfl⟩ := map_eq_ok.1 hr
  have hf := flattens_readDocument asm.source (fileCount asm.source) ⟨Path.clean name, []⟩ text
    (asm.start defines)
  rw [hread] at hf
  obtain ⟨lines, ds, r, hflat, hr, hq⟩ := hf.enter_eq_ok
  exact ⟨lines, r, (flatten_eq_ok hd).2 ⟨ds, hflat⟩, hr, congrArg (·.symbols) hq,
    congrArg (·.lexErrors) hq⟩

/-- Labels that cannot be entered are the error of the whole program. -/
theorem parse_eq_error_of_enter {lines : List Line} {e : Error}
    (hd : asm.initialDefines = .ok defines) (hf : asm.flatten name text = .ok lines)
    (he : (asm.start defines).enter lines = .error e) :
    (asm.parse name text).result = .error e := by
  obtain ⟨ds, hflat⟩ := (flatten_eq_ok hd).1 hf
  have hfol := flattens_readDocument asm.source (fileCount asm.source) ⟨Path.clean name, []⟩ text
    (asm.start defines)
  rw [show (asm.start defines).defines = defines from rfl, hflat] at hfol
  have hread := hfol.eq_error he
  have hprogram : (asm.readProgram (Path.clean name) text defines).result = .error e := by
    rw [readProgram_eq]
    cases hr : (readDocument asm.source (fileCount asm.source) ⟨Path.clean name, []⟩ text
      (asm.start defines)).result with
    | error e' => rw [hr] at hread; cases hread; rfl
    | ok r => rw [hr] at hread; cases hread
  rw [result_parse, hd, ok_bind, hprogram, error_bind]

end Assembler

end Asm16
