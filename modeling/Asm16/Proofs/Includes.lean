import Asm16.Proofs.Scopes
import Mathlib.Data.List.Perm.Subperm

/-!
# Documents inside documents

`readDocument` is given a number of documents that may still be opened one inside the other.
`Reads` is reading without that number : a rule for each thing that can happen at the next line, and
an include is carried out by reading the whole document it names. The number is never used up.
Documents that are open have different names, all but the first of them names of files
(`Document.Nested`), so reading as deep as there are files is `Reads` itself (`reads_iff`); every
program has an outcome, and only one.

`Reaches` are the places where reading comes by, in the order it does; at each of them the open
documents are nested in that sense (`Reaches.nested`).
-/

namespace Asm16

/-! ## Places -/

/-- Where reading stands : in a document before the lines `raws`, the first of them with the number
`number`. -/
structure Place where
  document : Document
  /-- A line that is too long follows the lines. -/
  cut : Bool
  number : Nat
  raws : List Bytes
  progress : Progress

namespace Place

/-- The beginning of a document. -/
def opening (doc : Document) (text : Bytes) (p : Progress) : Place :=
  ⟨doc, (sourceLines text).2, 1, (sourceLines text).1, p⟩

/-- The next line is read as `line`, and `after` is the place behind it. -/
def Takes (s : Place) (line : Line) (after : Place) : Prop :=
  ∃ raw rest q, s.raws = raw :: rest ∧
    (readLine s.document s.number raw s.progress).result = .ok (line, q) ∧
    after = ⟨s.document, s.cut, s.number + 1, rest, q⟩

/-- The next line is refused with an error. -/
def Refuses (s : Place) (e : Error) : Prop :=
  ∃ raw rest, s.raws = raw :: rest ∧
    (readLine s.document s.number raw s.progress).result = .error e

end Place

/-- The document an include line stands for : its name and its text. -/
def Line.target? (source : Option Source) (line : Line) (params : Bytes) : Option (Bytes × Bytes) :=
  source.bind fun s => s.resolve? line.document.name (includePath params)

/-- A line is an include of the document `name`, which has the text `text`. -/
def Line.Includes (source : Option Source) (line : Line) (name text : Bytes) : Prop :=
  ∃ params, included? line.directive = some params ∧ line.target? source params = some (name, text)

/-! ## Reading without a bound -/

/-- What reading gives from a place to the end of its document. -/
inductive Reads (source : Option Source) : Place → Except Error Extent → Prop
  | done {s : Place} (hs : s.raws = []) (hcut : s.cut = false) :
      Reads source s (.ok ⟨[], [], s.progress⟩)
  | tooLong {s : Place} (hs : s.raws = []) (hcut : s.cut = true) :
      Reads source s (.error .lineTooLong)
  | refused {s : Place} {e : Error} (he : s.Refuses e) : Reads source s (.error e)
  | plain {s after : Place} {line : Line} {r : Except Error Extent} (ht : s.Takes line after)
      (hi : included? line.directive = none) (hr : Reads source after r) :
      Reads source s (r.map (Extent.followedBy ⟨[], [], after.progress⟩ line))
  | missing {s after : Place} {line : Line} {params : Bytes} (ht : s.Takes line after)
      (hi : included? line.directive = some params) (hn : line.target? source params = none) :
      Reads source s (.error (.atLine line.site (.includeMissing (includePath params))))
  | cycle {s after : Place} {line : Line} {name text : Bytes} (ht : s.Takes line after)
      (hi : line.Includes source name text) (hc : name ∈ s.document.chain) :
      Reads source s (.error (.atLine line.site (.includeCycle name)))
  | inner {s after : Place} {line : Line} {name text : Bytes} {e : Error} (ht : s.Takes line after)
      (hi : line.Includes source name text) (hc : name ∉ s.document.chain)
      (he : Reads source (.opening ⟨name, s.document.chain⟩ text after.progress) (.error e)) :
      Reads source s (.error e)
  | within {s after : Place} {line : Line} {name text : Bytes} {extent : Extent}
      {r : Except Error Extent} (ht : s.Takes line after) (hi : line.Includes source name text)
      (hc : name ∉ s.document.chain)
      (he : Reads source (.opening ⟨name, s.document.chain⟩ text after.progress) (.ok extent))
      (hr : Reads source { after with progress := extent.progress } r) :
      Reads source s (r.map (Extent.followedBy ⟨extent.lines,
        [(line.number, .node name (sourceLines text).1.length extent.includes)],
        extent.progress⟩ line))

/-- The places that reading comes by on its way from `root`, as long as nothing is wrong. -/
inductive Reaches (source : Option Source) (root : Place) : Place → Prop
  | refl : Reaches source root root
  | next {s after : Place} {line : Line} (h : Reaches source root s) (ht : s.Takes line after)
      (hi : included? line.directive = none) : Reaches source root after
  | into {s after : Place} {line : Line} {name text : Bytes} (h : Reaches source root s)
      (ht : s.Takes line after) (hi : line.Includes source name text)
      (hc : name ∉ s.document.chain) :
      Reaches source root (.opening ⟨name, s.document.chain⟩ text after.progress)
  | behind {s after : Place} {line : Line} {name text : Bytes} {extent : Extent}
      (h : Reaches source root s) (ht : s.Takes line after) (hi : line.Includes source name text)
      (hc : name ∉ s.document.chain)
      (he : Reads source (.opening ⟨name, s.document.chain⟩ text after.progress) (.ok extent)) :
      Reaches source root { after with progress := extent.progress }

/-! ## Open documents -/

/-- The documents that are open have different names, and all but the first are files. -/
structure Document.Nested (source : Option Source) (doc : Document) : Prop where
  nodup : doc.chain.Nodup
  file : ∀ name ∈ doc.chain.dropLast,
    ∃ s text, source = some s ∧ s.files.entry? name = some (.file text)

theorem Source.entry?_of_resolve? {s : Source} {origin file name text : Bytes}
    (h : s.resolve? origin file = some (name, text)) : s.files.entry? name = some (.file text) := by
  unfold resolve? at h
  split at h
  · cases h
  · obtain ⟨candidate, -, hc⟩ := List.exists_of_findSome?_eq_some h
    split at hc
    · rename_i found he
      obtain ⟨rfl, rfl⟩ := Prod.mk.inj (Option.some.inj hc)
      exact he
    · cases hc

theorem Files.mem_of_entry? {fs : Files} {name text : Bytes}
    (h : fs.entry? name = some (.file text)) : name ∈ fs.map (·.1) := by
  have htext : fs.text? name ≠ none := by
    intro hnone
    simp only [hnone, entry?] at h
    split at h
    · split at h <;> cases h
    · cases h
  unfold text? at htext
  obtain ⟨f, hf⟩ := Option.ne_none_iff_exists'.1 (mt Option.map_eq_none_iff.2 htext)
  have hname : f.1 = name := by simpa using List.find?_some hf
  exact hname ▸ List.mem_map_of_mem (List.mem_of_find?_eq_some hf)

namespace Document

variable {source : Option Source} {doc : Document}

theorem nested_root (source : Option Source) (name : Bytes) : Nested source ⟨name, []⟩ :=
  ⟨by simp [chain], by simp [chain]⟩

/-- A file that is not open yet can be opened. -/
theorem Nested.child (h : doc.Nested source) {line : Line} {name text : Bytes}
    (hi : line.Includes source name text) (hc : name ∉ doc.chain) :
    Nested source ⟨name, doc.chain⟩ := by
  obtain ⟨params, -, htarget⟩ := hi
  obtain ⟨s, hs, hresolve⟩ := Option.bind_eq_some_iff.1 htarget
  refine ⟨List.nodup_cons.2 ⟨hc, h.nodup⟩, ?_⟩
  intro other hother
  rw [show chain ⟨name, doc.chain⟩ = name :: doc.name :: doc.parents from rfl,
    List.dropLast_cons_cons] at hother
  rcases List.mem_cons.1 hother with rfl | hother
  · exact ⟨s, text, hs, Source.entry?_of_resolve? hresolve⟩
  · exact h.file other hother

/-- No more documents can be open than there are files, besides the first. -/
theorem Nested.length_le (h : doc.Nested source) : doc.chain.length ≤ fileCount source + 1 := by
  have hnodup : doc.chain.dropLast.Nodup := h.nodup.sublist (List.dropLast_sublist _)
  have hlen : doc.chain.dropLast.length + 1 = doc.chain.length := by simp [chain]
  cases source with
  | none =>
    have hnil : doc.chain.dropLast = [] := by
      refine List.eq_nil_iff_forall_not_mem.2 fun name hname => ?_
      obtain ⟨s, -, hs, -⟩ := h.file name hname
      cases hs
    rw [← hlen, hnil]
    exact Nat.le_add_left 1 _
  | some s =>
    have hsub : doc.chain.dropLast ⊆ s.files.map (·.1) := by
      intro name hname
      obtain ⟨s', text, hs, he⟩ := h.file name hname
      obtain rfl := Option.some.inj hs
      exact Files.mem_of_entry? he
    have hle := (hnodup.subperm hsub).length_le
    rw [List.length_map] at hle
    rw [← hlen]
    exact Nat.add_le_add_right hle 1

end Document

theorem readLine_document {doc : Document} {number : Nat} {raw : Bytes} {p q : Progress}
    {line : Line} (h : (readLine doc number raw p).result = .ok (line, q)) :
    line.document = doc := by
  rw [result_readLine] at h
  obtain ⟨⟨bare, ds⟩, hbare, h⟩ := bind_eq_ok.1 h
  obtain ⟨r, -, hr⟩ := map_eq_ok.1 hbare
  obtain ⟨rfl, -⟩ := Prod.mk.inj hr
  simp only at h
  split at h
  · cases h
  · obtain ⟨rfl, -⟩ := Prod.mk.inj (Except.ok.inj h)
    rfl

theorem Place.Takes.document_eq {s after : Place} {line : Line} (h : s.Takes line after) :
    line.document = s.document ∧ after.document = s.document := by
  obtain ⟨raw, rest, q, -, hline, rfl⟩ := h
  exact ⟨readLine_document hline, rfl⟩

/-- The documents open at every place that reading comes by. -/
theorem Reaches.nested {source : Option Source} {root s : Place} (h : Reaches source root s)
    (hroot : root.document.Nested source) : s.document.Nested source := by
  induction h with
  | refl => exact hroot
  | next _ ht _ ih => exact ht.document_eq.2 ▸ ih
  | into _ _ hi hc ih => exact ih.child hi hc
  | behind _ ht _ _ _ ih => exact ht.document_eq.2 ▸ ih

/-! ## The reader keeps to the rules -/

/-- The reader of included documents in a document that is read at depth `depth`. -/
def childReader (source : Option Source) : Nat → ChildReader
  | 0 => fun inner _ _ => .fail (.file (.missing inner.name))
  | depth + 1 => readDocument source depth

/-- A document with the extent of its lines. -/
def Extent.inDocument (name text : Bytes) (extent : Extent) : DocumentTree × Extent :=
  (.node name (sourceLines text).1.length extent.includes, extent)

/-- What the reader gives from a place to the end of its document. -/
def Place.read (source : Option Source) (child : ChildReader) (s : Place) : Except Error Extent :=
  (readLines source child s.document s.cut s.number s.raws s.progress).result

theorem result_readDocument (source : Option Source) (depth : Nat) (doc : Document) (text : Bytes)
    (p : Progress) : (readDocument source depth doc text p).result =
      ((Place.opening doc text p).read source (childReader source depth)).map
        (Extent.inDocument doc.name text) := by
  cases depth <;> rfl

section Steps

variable {source : Option Source} {child : ChildReader} {s after : Place} {line : Line}

theorem Place.read_of_refuses {e : Error} (h : s.Refuses e) : s.read source child = .error e := by
  obtain ⟨raw, rest, hraws, he⟩ := h
  rw [read, hraws, readLines_cons, Logged.result_bind, he, error_bind]

theorem Place.read_of_takes (ht : s.Takes line after) : s.read source child =
    (readIncluded source child line after.progress).result >>= fun inner =>
      ({ after with progress := inner.progress }.read source child).map
        (inner.followedBy line) := by
  obtain ⟨raw, rest, q, hraws, hline, rfl⟩ := ht
  rw [read, hraws, readLines_cons, Logged.result_bind, hline, ok_bind, Logged.result_bind]
  rfl

theorem readIncluded_plain (hi : included? line.directive = none) (p : Progress) :
    (readIncluded source child line p).result = .ok ⟨[], [], p⟩ := by
  rw [readIncluded, hi]
  rfl

theorem readIncluded_missing {params : Bytes} (hi : included? line.directive = some params)
    (hn : line.target? source params = none) (p : Progress) :
    (readIncluded source child line p).result =
      .error (.atLine line.site (.includeMissing (includePath params))) := by
  rw [Line.target?] at hn
  simp only [readIncluded, hi, readInclude, hn, Logged.result_fail]

theorem readIncluded_cycle {name text : Bytes} (hi : line.Includes source name text)
    (hc : name ∈ line.document.chain) (p : Progress) :
    (readIncluded source child line p).result =
      .error (.atLine line.site (.includeCycle name)) := by
  obtain ⟨params, hi, htarget⟩ := hi
  rw [Line.target?] at htarget
  have hanc : line.document.hasAncestor name = true := List.contains_iff_mem.2 hc
  simp only [readIncluded, hi, readInclude, htarget, hanc, if_true, Logged.result_fail]

theorem readIncluded_opens {name text : Bytes} (hi : line.Includes source name text)
    (hc : name ∉ line.document.chain) (p : Progress) :
    (readIncluded source child line p).result =
      (child ⟨name, line.document.chain⟩ text p).result.map fun (tree, inner) =>
        ⟨inner.lines, [(line.number, tree)], inner.progress⟩ := by
  obtain ⟨params, hi, htarget⟩ := hi
  rw [Line.target?] at htarget
  have hanc : line.document.hasAncestor name = false := by
    simpa [Document.hasAncestor] using hc
  simp only [readIncluded, hi, readInclude, htarget, hanc, Bool.false_eq_true, if_false,
    Logged.result_bind, Logged.result_record, ok_bind]
  cases (child ⟨name, line.document.chain⟩ text p).result <;> rfl

/-- A reader of included documents keeps to the rules in a document. -/
def ChildReader.Obeys (child : ChildReader) (source : Option Source) (doc : Document) : Prop :=
  ∀ (line : Line) (name text : Bytes) (p : Progress), line.Includes source name text →
    name ∉ doc.chain → ∃ r, Reads source (.opening ⟨name, doc.chain⟩ text p) r ∧
      (child ⟨name, doc.chain⟩ text p).result = r.map (Extent.inDocument name text)

/-- Reading lines keeps to the rules if reading the documents they include does. -/
theorem reads_read_of_obeys (h : child.Obeys source s.document) :
    Reads source s (s.read source child) := by
  obtain ⟨doc, cut, number, raws, p⟩ := s
  induction raws generalizing number p with
  | nil =>
    cases cut with
    | false => exact .done rfl rfl
    | true => exact .tooLong rfl rfl
  | cons raw rest ih =>
    cases hline : (readLine doc number raw p).result with
    | error e =>
      have he : Place.Refuses ⟨doc, cut, number, raw :: rest, p⟩ e := ⟨raw, rest, rfl, hline⟩
      rw [Place.read_of_refuses he]
      exact .refused he
    | ok r =>
      obtain ⟨line, q⟩ := r
      have ht : Place.Takes ⟨doc, cut, number, raw :: rest, p⟩ line
          ⟨doc, cut, number + 1, rest, q⟩ := ⟨raw, rest, q, rfl, hline, rfl⟩
      have hdoc : line.document = doc := ht.document_eq.1
      rw [Place.read_of_takes ht]
      cases hi : included? line.directive with
      | none =>
        rw [readIncluded_plain hi, ok_bind]
        exact .plain ht hi (ih (number + 1) q h)
      | some params =>
        cases htarget : line.target? source params with
        | none =>
          rw [readIncluded_missing hi htarget, error_bind]
          exact .missing ht hi htarget
        | some file =>
          obtain ⟨name, text⟩ := file
          have hincludes : line.Includes source name text := ⟨params, hi, htarget⟩
          by_cases hc : name ∈ doc.chain
          · rw [readIncluded_cycle hincludes (hdoc ▸ hc), error_bind]
            exact .cycle ht hincludes hc
          · obtain ⟨r, hr, hchild⟩ := h line name text q hincludes hc
            rw [readIncluded_opens hincludes (hdoc ▸ hc), hdoc, hchild]
            cases r with
            | error e => exact .inner ht hincludes hc hr
            | ok extent => exact .within ht hincludes hc hr (ih (number + 1) extent.progress h)

/-- At depth `depth` the reader can open every file that is not open in a document. -/
structure Document.InReach (source : Option Source) (depth : Nat) (doc : Document) : Prop where
  nested : doc.Nested source
  room : fileCount source < depth + doc.chain.length

/-- One document deeper the reader has one level less, and there always is one. -/
theorem Document.InReach.deeper {doc : Document} {depth : Nat} (h : doc.InReach source depth)
    {name text : Bytes} (hi : line.Includes source name text) (hc : name ∉ doc.chain) :
    ∃ n, depth = n + 1 ∧ InReach source n ⟨name, doc.chain⟩ := by
  have hchild := h.nested.child hi hc
  have hlen : (chain ⟨name, doc.chain⟩).length = doc.chain.length + 1 := rfl
  have hle := hchild.length_le
  have hroom := h.room
  exact ⟨depth - 1, by omega, hchild, by omega⟩

theorem reads_read {depth : Nat} (h : s.document.InReach source depth) :
    Reads source s (s.read source (childReader source depth)) := by
  induction depth generalizing s with
  | zero =>
    refine reads_read_of_obeys fun line name text p hi hc => ?_
    obtain ⟨n, hn, -⟩ := h.deeper hi hc
    cases hn
  | succ depth ih =>
    refine reads_read_of_obeys fun line name text p hi hc => ?_
    obtain ⟨n, hn, hchild⟩ := h.deeper hi hc
    obtain rfl : depth = n := Nat.succ.inj hn
    exact ⟨_, ih hchild, result_readDocument source depth _ text p⟩

/-- What the rules give is what the reader gives. -/
theorem Reads.read_eq {r : Except Error Extent} (hr : Reads source s r) {depth : Nat}
    (h : s.document.InReach source depth) : s.read source (childReader source depth) = r := by
  induction hr generalizing depth with
  | @done s hs hcut => simp [Place.read, hs, hcut, readLines]
  | @tooLong s hs hcut => simp [Place.read, hs, hcut, readLines]
  | refused he => exact Place.read_of_refuses he
  | plain ht hi _ ih =>
    rw [Place.read_of_takes ht, readIncluded_plain hi, ok_bind]
    exact congrArg _ (ih (ht.document_eq.2 ▸ h))
  | missing ht hi hn => rw [Place.read_of_takes ht, readIncluded_missing hi hn, error_bind]
  | cycle ht hi hc =>
    rw [Place.read_of_takes ht, readIncluded_cycle hi (by rwa [ht.document_eq.1]), error_bind]
  | inner ht hi hc _ ih =>
    obtain ⟨n, rfl, hchild⟩ := h.deeper hi hc
    have hopens : (childReader source (n + 1) ⟨_, _⟩ _ _).result = _ :=
      (result_readDocument source n _ _ _).trans (congrArg _ (ih hchild))
    rw [Place.read_of_takes ht, readIncluded_opens hi (by rwa [ht.document_eq.1]), ht.document_eq.1,
      hopens]
    rfl
  | within ht hi hc _ _ ihe ihr =>
    obtain ⟨n, rfl, hchild⟩ := h.deeper hi hc
    have hopens : (childReader source (n + 1) ⟨_, _⟩ _ _).result = _ :=
      (result_readDocument source n _ _ _).trans (congrArg _ (ihe hchild))
    rw [Place.read_of_takes ht, readIncluded_opens hi (by rwa [ht.document_eq.1]), ht.document_eq.1,
      hopens]
    exact congrArg (Except.map _) (ihr (ht.document_eq.2 ▸ h))

theorem reads_iff {depth : Nat} (h : s.document.InReach source depth) {r : Except Error Extent} :
    Reads source s r ↔ s.read source (childReader source depth) = r := by
  constructor
  · intro hr
    exact hr.read_eq h
  · rintro rfl
    exact reads_read h

end Steps

/-! ## What every line keeps -/

/-- A property of the progress that reading a line keeps. -/
def KeptByLines (P : Progress → Prop) : Prop :=
  ∀ {doc number raw p line q}, (readLine doc number raw p).result = .ok (line, q) → P p → P q

section Kept

variable {source : Option Source} {root s after : Place} {P : Progress → Prop}

theorem Place.Takes.kept {line : Line} (h : s.Takes line after) (hP : KeptByLines P)
    (hs : P s.progress) : P after.progress := by
  obtain ⟨raw, rest, q, -, hline, rfl⟩ := h
  exact hP hline hs

/-- What every line keeps is kept to the end of the document. -/
theorem Reads.kept {r : Except Error Extent} (hr : Reads source s r) (hP : KeptByLines P)
    (hs : P s.progress) {extent : Extent} (he : r = .ok extent) : P extent.progress := by
  induction hr generalizing extent with
  | done =>
    obtain rfl := Except.ok.inj he
    exact hs
  | tooLong | refused | missing | cycle | inner => cases he
  | plain ht _ _ ih =>
    obtain ⟨more, rfl, rfl⟩ := map_eq_ok.1 he
    have hmore : P more.progress := ih (ht.kept hP hs) rfl
    exact hmore
  | within ht _ _ _ _ ihe ihr =>
    obtain ⟨more, rfl, rfl⟩ := map_eq_ok.1 he
    have hmore : P more.progress := ihr (ihe (ht.kept hP hs) rfl) rfl
    exact hmore

/-- What every line keeps holds wherever reading comes by. -/
theorem Reaches.kept (h : Reaches source root s) (hP : KeptByLines P) (hroot : P root.progress) :
    P s.progress := by
  induction h with
  | refl => exact hroot
  | next _ ht _ ih => exact ht.kept hP ih
  | into _ ht _ _ ih => exact ht.kept hP ih
  | behind _ ht _ _ he ih => exact he.kept hP (ht.kept hP ih) rfl

/-- Reading that comes to an end comes by its end. -/
theorem Reads.exists_reaches {r : Except Error Extent} (hr : Reads source s r)
    (h : Reaches source root s) {extent : Extent} (he : r = .ok extent) :
    ∃ last, Reaches source root last ∧ last.progress = extent.progress := by
  induction hr generalizing extent with
  | @done s =>
    obtain rfl := Except.ok.inj he
    exact ⟨s, h, rfl⟩
  | tooLong | refused | missing | cycle | inner => cases he
  | plain ht hi _ ih =>
    obtain ⟨more, rfl, rfl⟩ := map_eq_ok.1 he
    obtain ⟨last, hlast⟩ := ih (.next h ht hi) rfl
    exact ⟨last, hlast⟩
  | within ht hi hc hin _ _ ihr =>
    obtain ⟨more, rfl, rfl⟩ := map_eq_ok.1 he
    obtain ⟨last, hlast⟩ := ihr (.behind h ht hi hc hin) rfl
    exact ⟨last, hlast⟩

end Kept

/-! ## Programs -/

/-- The program whose lines were read. -/
def Assembly.ofExtent (name text : Bytes) (extent : Extent) : Assembly :=
  ⟨.node name (sourceLines text).1.length extent.includes, extent.lines, extent.progress.defines,
    extent.progress.symbols, extent.progress.lexErrors⟩

namespace Assembler

/-- The beginning of a program. -/
def opening (asm : Assembler) (name text : Bytes) (defines : Defines) : Place :=
  .opening ⟨Path.clean name, []⟩ text (asm.start defines)

theorem opening_inReach (asm : Assembler) (name text : Bytes) (defines : Defines) :
    (asm.opening name text defines).document.InReach asm.source (fileCount asm.source) :=
  ⟨Document.nested_root _ _, Nat.lt_succ_self _⟩

theorem result_readProgram (asm : Assembler) (name text : Bytes) (defines : Defines) :
    (asm.readProgram (Path.clean name) text defines).result =
      ((asm.opening name text defines).read asm.source
        (childReader asm.source (fileCount asm.source))).map
          (Assembly.ofExtent (Path.clean name) text) := by
  rw [readProgram_eq, result_readDocument, opening]
  cases Place.read asm.source (childReader asm.source (fileCount asm.source))
    (.opening _ text _) <;> rfl

/-- Reading a program succeeds exactly if the rules of reading give an extent. -/
theorem readProgram_eq_ok {asm : Assembler} {name text : Bytes} {defines : Defines}
    {program : Assembly} :
    (asm.readProgram (Path.clean name) text defines).result = .ok program ↔
      ∃ extent, Reads asm.source (asm.opening name text defines) (.ok extent) ∧
        Assembly.ofExtent (Path.clean name) text extent = program := by
  rw [result_readProgram, map_eq_ok]
  simp only [reads_iff (asm.opening_inReach name text defines)]

end Assembler

end Asm16
