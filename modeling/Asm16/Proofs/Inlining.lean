import Asm16.Proofs.Alike
import Asm16.Proofs.Includes
import Asm16.Proofs.Labels
import Asm16.Proofs.SourceText

/-!
# Including is inlining

`Inlines` puts the lines of a document in the place of the line that includes it, all the way down.
A program that is accepted, no include line of which defines a label, can be written as one document
with these lines, and that document is as good as the program.

The proof goes through the passes. Reading the inlined lines gives the lines of the program without
its includes (`Chained.exists_reads`), and so does laying them out, since an include has no words
(`exists_layout`). Labels are found at the same addresses (`labelViews`), so label uses are resolved
alike, and what is written into an image is the same.
-/

namespace Asm16

/-! ## Inlined lines -/

/-- Whether a line includes a document. -/
def Line.isInclude (l : Line) : Bool := (included? l.directive).isSome

/-- The lines that stay when what they include is inlined. -/
def plainLines (lines : List Line) : List Line := lines.filter (!·.isInclude)

/-- The lines of a document, as written, with the lines of another one in the place of every include
line. -/
inductive Inlines (source : Option Source) : Place → List Bytes → Prop
  | done {s : Place} (hs : s.raws = []) (hcut : s.cut = false) : Inlines source s []
  | plain {s after : Place} {line : Line} {raws : List Bytes} (ht : s.Takes line after)
      (hi : included? line.directive = none) (h : Inlines source after raws) :
      Inlines source s (line.raw :: raws)
  | within {s after : Place} {line : Line} {name text : Bytes} {extent : Extent}
      {inner raws : List Bytes} (ht : s.Takes line after) (hi : line.Includes source name text)
      (hc : name ∉ s.document.chain)
      (he : Reads source (.opening ⟨name, s.document.chain⟩ text after.progress) (.ok extent))
      (hinner : Inlines source (.opening ⟨name, s.document.chain⟩ text after.progress) inner)
      (h : Inlines source { after with progress := extent.progress } raws) :
      Inlines source s (inner ++ raws)

theorem plainLines_cons_of_none {l : Line} (hi : included? l.directive = none)
    (rest : List Line) : plainLines (l :: rest) = l :: plainLines rest :=
  List.filter_cons_of_pos (by simp [Line.isInclude, hi])

theorem plainLines_cons_of_ne {l : Line} (hi : included? l.directive ≠ none)
    (rest : List Line) : plainLines (l :: rest) = plainLines rest :=
  List.filter_cons_of_neg (by simpa [Line.isInclude, Option.isSome_iff_ne_none] using hi)

theorem Line.Includes.included?_ne {source : Option Source} {line : Line} {name text : Bytes}
    (h : line.Includes source name text) : included? line.directive ≠ none := by
  obtain ⟨params, hi, -⟩ := h
  rw [hi]
  exact nofun

theorem Extent.followedBy_lines (inner : Extent) (line : Line) (more : Extent) :
    (inner.followedBy line more).lines = line :: (inner.lines ++ more.lines) := rfl

/-- The lines of a program without its includes are its inlined lines. -/
theorem Reads.inlines {source : Option Source} {s : Place} {r : Except Error Extent}
    {extent : Extent} (hr : Reads source s r) (he : r = .ok extent) :
    Inlines source s ((plainLines extent.lines).map (·.raw)) := by
  induction hr generalizing extent with
  | done hs hcut =>
    obtain rfl := Except.ok.inj he
    exact .done hs hcut
  | tooLong | refused | missing | cycle | inner => cases he
  | plain ht hi _ ih =>
    obtain ⟨more, rfl, rfl⟩ := map_eq_ok.1 he
    rw [Extent.followedBy_lines, plainLines_cons_of_none hi]
    exact .plain ht hi (ih rfl)
  | within ht hi hc hin _ ihe ihr =>
    obtain ⟨more, rfl, rfl⟩ := map_eq_ok.1 he
    rw [Extent.followedBy_lines, plainLines_cons_of_ne hi.included?_ne, plainLines,
      List.filter_append, List.map_append]
    have hinner := ihe rfl
    exact .within ht hi hc hin hinner (ihr rfl)

theorem Reads.unique {source : Option Source} {s : Place} {r r' : Except Error Extent} {depth : Nat}
    (hs : s.document.InReach source depth) (hr : Reads source s r) (hr' : Reads source s r') :
    r = r' :=
  (hr.read_eq hs).symm.trans (hr'.read_eq hs)

/-- There is one way to inline a program. -/
theorem Inlines.eq_of_reads {source : Option Source} {s : Place} {raws : List Bytes}
    (h : Inlines source s raws) {extent : Extent} (hr : Reads source s (.ok extent)) {depth : Nat}
    (hs : s.document.InReach source depth) : raws = (plainLines extent.lines).map (·.raw) := by
  induction h generalizing extent depth with
  | done hraws hcut =>
    obtain rfl := Except.ok.inj (hr.unique hs (.done hraws hcut))
    rfl
  | plain ht hi _ ih =>
    have hafter := ht.document_eq.2 ▸ hs
    have hall := reads_read hafter
    obtain ⟨more, hmore, rfl⟩ := map_eq_ok.1 ((hr.unique hs (.plain ht hi hall)).symm)
    rw [Extent.followedBy_lines, plainLines_cons_of_none hi, List.map_cons]
    exact congrArg _ (ih (hmore ▸ hall) hafter)
  | @within s after line name text inner _ _ ht hi hc he _ _ ihe ihr =>
    obtain ⟨n, rfl, hchild⟩ := hs.deeper hi hc
    have hafter := ht.document_eq.2 ▸ hs
    have hall := reads_read (s := { after with progress := inner.progress }) hafter
    obtain ⟨more, hmore, rfl⟩ := map_eq_ok.1 ((hr.unique hs (.within ht hi hc he hall)).symm)
    have hinner := ihe he hchild
    have hrest := ihr (hmore ▸ hall) hafter
    rw [Extent.followedBy_lines, plainLines_cons_of_ne hi.included?_ne, plainLines,
      List.filter_append, List.map_append, hinner, hrest]
    rfl

/-! ## Reading them -/

/-- Lines that are read one after another, wherever they stand. -/
inductive Chained : Progress → List Line → Progress → Prop
  | nil {p : Progress} : Chained p [] p
  | cons {p p' q : Progress} {l : Line} {rest : List Line}
      (hl : (readLine l.document l.number l.raw p).result = .ok (l, p'))
      (hrest : Chained p' rest q) : Chained p (l :: rest) q

theorem Chained.append {p q r : Progress} {first second : List Line} (h : Chained p first q)
    (h' : Chained q second r) : Chained p (first ++ second) r := by
  induction h with
  | nil => exact h'
  | cons hl _ ih => exact .cons hl (ih h')

theorem Place.Takes.readLine_eq {s after : Place} {line : Line} (h : s.Takes line after) :
    (readLine line.document line.number line.raw s.progress).result =
      .ok (line, after.progress) := by
  obtain ⟨raw, rest, q, -, hline, rfl⟩ := h
  obtain ⟨r, ds, -, -, rfl, -⟩ := readLine_eq_ok.1 hline
  exact hline

theorem Reads.chained {source : Option Source} {s : Place} {r : Except Error Extent}
    {extent : Extent} (hr : Reads source s r) (he : r = .ok extent) :
    Chained s.progress extent.lines extent.progress := by
  induction hr generalizing extent with
  | done =>
    obtain rfl := Except.ok.inj he
    exact .nil
  | tooLong | refused | missing | cycle | inner => cases he
  | plain ht _ _ ih =>
    obtain ⟨more, rfl, rfl⟩ := map_eq_ok.1 he
    exact .cons ht.readLine_eq (ih rfl)
  | within ht _ _ _ _ ihe ihr =>
    obtain ⟨more, rfl, rfl⟩ := map_eq_ok.1 he
    exact .cons ht.readLine_eq ((ihe rfl).append (ihr rfl))

/-- The lines that were read can stand in a document. -/
theorem Reads.writable {source : Option Source} {s : Place} {r : Except Error Extent}
    {extent : Extent} (hr : Reads source s r) (he : r = .ok extent)
    (hs : ∀ raw ∈ s.raws, Writable raw) : ∀ l ∈ extent.lines, Writable l.raw := by
  have htakes {s after : Place} {line : Line} (ht : s.Takes line after)
      (hs : ∀ raw ∈ s.raws, Writable raw) :
      Writable line.raw ∧ ∀ raw ∈ after.raws, Writable raw := by
    obtain ⟨raw, rest, q, hraws, hline, rfl⟩ := ht
    obtain ⟨r, ds, -, -, rfl, -⟩ := readLine_eq_ok.1 hline
    rw [hraws] at hs
    exact List.forall_mem_cons.1 hs
  induction hr generalizing extent with
  | done =>
    obtain rfl := Except.ok.inj he
    exact List.forall_mem_nil _
  | tooLong | refused | missing | cycle | inner => cases he
  | plain ht _ _ ih =>
    obtain ⟨more, rfl, rfl⟩ := map_eq_ok.1 he
    obtain ⟨hline, hafter⟩ := htakes ht hs
    exact List.forall_mem_cons.2 ⟨hline, ih rfl hafter⟩
  | within ht _ _ _ _ ihe ihr =>
    obtain ⟨more, rfl, rfl⟩ := map_eq_ok.1 he
    obtain ⟨hline, hafter⟩ := htakes ht hs
    have hinner := ihe rfl fun raw => writable_of_mem_sourceLines
    exact List.forall_mem_cons.2 ⟨hline, List.forall_mem_append.2 ⟨hinner, ihr rfl hafter⟩⟩

/-- No include line defines a label. -/
def IncludesOnly (lines : List Line) : Prop :=
  ∀ l ∈ lines, l.isInclude = true → ∀ t ∈ l.tokens, t.kind ≠ .labelDef

/-- Lines are the plain ones among others, apart from where they stand. -/
def Inlined (lines₀ lines : List Line) : Prop :=
  lines₀.map Line.placeless = (plainLines lines).map Line.placeless

namespace Inlined

variable {lines₀ rest : List Line} {l : Line}

theorem cons {l₀ : Line} (hi : included? l.directive = none) (hl : l₀.placeless = l.placeless)
    (h : Inlined lines₀ rest) : Inlined (l₀ :: lines₀) (l :: rest) := by
  unfold Inlined at h ⊢
  rw [plainLines_cons_of_none hi, List.map_cons, List.map_cons, hl, h]

theorem cons_iff_of_ne (hi : included? l.directive ≠ none) :
    Inlined lines₀ (l :: rest) ↔ Inlined lines₀ rest := by
  unfold Inlined
  rw [plainLines_cons_of_ne hi]

theorem exists_cons (hi : included? l.directive = none) (h : Inlined lines₀ (l :: rest)) :
    ∃ l₀ rest₀, lines₀ = l₀ :: rest₀ ∧ l₀.placeless = l.placeless ∧ Inlined rest₀ rest := by
  unfold Inlined at h ⊢
  rw [plainLines_cons_of_none hi] at h
  cases lines₀ with
  | nil => cases h
  | cons l₀ rest₀ =>
    obtain ⟨hl, hrest⟩ := List.cons.inj h
    exact ⟨l₀, rest₀, rfl, hl, hrest⟩

theorem nil_iff : Inlined lines₀ [] ↔ lines₀ = [] := by
  unfold Inlined
  exact List.map_eq_nil_iff

end Inlined

/-- Inlined lines are read as one document to the same effect. -/
theorem Chained.exists_reads {p q p₀ : Progress} {lines : List Line} (h : Chained p lines q)
    (hl : IncludesOnly lines) (hp : p₀.Alike p) (source : Option Source) (doc : Document)
    (number : Nat) : ∃ lines₀ q₀,
      Reads source ⟨doc, false, number, (plainLines lines).map (·.raw), p₀⟩
        (.ok ⟨lines₀, [], q₀⟩) ∧ Inlined lines₀ lines ∧ q₀.Alike q := by
  induction h generalizing p₀ number with
  | nil => exact ⟨[], p₀, .done rfl rfl, rfl, hp⟩
  | @cons p p' q l rest hline _ ih =>
    obtain ⟨hfirst, hrest⟩ := List.forall_mem_cons.1 hl
    by_cases hi : included? l.directive = none
    · obtain ⟨l₀, p₀', hline₀, hsame, hp'⟩ := readLine_alike hp hline doc number
      obtain ⟨lines₀, q₀, hreads, hlines, hq⟩ := ih hrest hp' (number + 1)
      have hi₀ : included? l₀.directive = none := by
        rw [← Line.placeless_directive, hsame, Line.placeless_directive, hi]
      refine ⟨l₀ :: lines₀, q₀, ?_, hlines.cons hi hsame, hq⟩
      have ht : Place.Takes ⟨doc, false, number, l.raw :: (plainLines rest).map (·.raw), p₀⟩ l₀
          ⟨doc, false, number + 1, (plainLines rest).map (·.raw), p₀'⟩ :=
        ⟨l.raw, (plainLines rest).map (·.raw), p₀', rfl, hline₀, rfl⟩
      rw [plainLines_cons_of_none hi]
      exact Reads.plain ht hi₀ hreads
    · have hinclude : l.isInclude = true := Option.isSome_iff_ne_none.2 hi
      simp only [plainLines_cons_of_ne hi, Inlined.cons_iff_of_ne hi]
      exact ih hrest (readLine_include_alike hp hline hi (hfirst hinclude)) number

/-! ## Laying them out -/

theorem wrap_wrap (n : Int) : wrap (wrap n) = wrap n := Int.bmod_bmod

theorem measure_of_included {l : Line} (hi : included? l.directive ≠ none) (offset : Int) :
    l.measure offset = .ok (0, none) := by
  unfold Line.measure
  rcases hd : l.directive with _ | ⟨_ | _ | _ | _ | _ | _, word, params⟩ <;>
    first
    | rfl
    | exact absurd (by rw [hd]; rfl) hi

/-- Inlined lines are laid out alike, since an include has no words. -/
theorem exists_layout {lines lines₀ placed : List Line} {offset : Int}
    (h : (layout offset lines).result = .ok placed) (hw : wrap offset = offset)
    (hsame : Inlined lines₀ lines) :
    ∃ placed₀, (layout offset lines₀).result = .ok placed₀ ∧ Inlined placed₀ placed := by
  induction lines generalizing lines₀ placed offset with
  | nil =>
    obtain rfl : [] = placed := by simpa [layout] using h
    obtain rfl := Inlined.nil_iff.1 hsame
    exact ⟨[], rfl, rfl⟩
  | cons l rest ih =>
    obtain ⟨size, code, more, hm, hmore, rfl⟩ := layout_cons_eq_ok.1 h
    by_cases hi : included? l.directive = none
    · obtain ⟨l₀, rest₀, rfl, hl, hrest⟩ := hsame.exists_cons hi
      obtain ⟨more₀, hmore₀, hsame⟩ := ih hmore (wrap_wrap _) hrest
      have hm₀ : l₀.measure offset = .ok (size, code) := by
        rw [← Line.placeless_measure, hl, Line.placeless_measure, hm]
      have hplaced : Line.placeless { l₀ with offset, size, code } =
          Line.placeless { l with offset, size, code } :=
        congrArg (fun l : Line => ({ l with offset, size, code } : Line)) hl
      exact ⟨_, layout_cons_eq_ok.2 ⟨size, code, more₀, hm₀, hmore₀, rfl⟩, hsame.cons hi hplaced⟩
    · rw [measure_of_included hi] at hm
      cases hm
      rw [Int.add_zero, hw] at hmore
      obtain ⟨placed₀, hlayout, hsame⟩ :=
        ih hmore hw ((Inlined.cons_iff_of_ne hi).1 hsame)
      have hplaced : included? ({ l with offset, size := 0, code := none } : Line).directive ≠
          none := hi
      exact ⟨placed₀, hlayout, (Inlined.cons_iff_of_ne hplaced).2 hsame⟩

/-- The highest address is the same without includes. -/
theorem Laid.foldl_plainLines {lines : List Line} {offset n : Int} (h : Laid offset lines)
    (hw : wrap offset = offset) (hn : offset ≤ n) :
    (plainLines lines).foldl (fun n l => max n l.stop) n =
      lines.foldl (fun n l => max n l.stop) n := by
  induction lines generalizing offset n with
  | nil => rfl
  | cons l rest ih =>
    obtain ⟨ho, hm, hrest⟩ := h
    by_cases hi : included? l.directive = none
    · rw [plainLines_cons_of_none hi, List.foldl_cons, List.foldl_cons]
      exact ih hrest (wrap_wrap _) (Int.le_max_right _ _)
    · rw [measure_of_included hi] at hm
      have hsize : l.size = 0 := (Prod.mk.inj (Except.ok.inj hm)).1.symm
      have hstop : l.stop = offset := by rw [Line.stop, ho, hsize, Int.add_zero, hw]
      rw [plainLines_cons_of_ne hi, List.foldl_cons, hstop, Int.max_eq_left hn]
      rw [hstop] at hrest
      exact ih hrest hw hn

theorem foldl_stop_placeless (lines : List Line) (n : Int) :
    (lines.map Line.placeless).foldl (fun n l => max n l.stop) n =
      lines.foldl (fun n l => max n l.stop) n := by
  rw [List.foldl_map]
  rfl

/-! ## Their labels -/

/-- The labels that lines define, with the addresses of the lines. -/
def labelViews (lines : List Line) : List (Bytes × Bool × Int) :=
  lines.flatMap fun l =>
    (l.tokens.filter (·.kind == .labelDef)).map fun t => (t.symbol, t.isLocal, l.offset)

/-- A label apart from where it stands. -/
def Label.view (l : Label) : Bytes × Bool × Int := (l.name, l.isLocal, l.offset)

theorem labelViews_of_inlined {lines₀ lines : List Line} (h : Inlined lines₀ lines)
    (hl : IncludesOnly lines) : labelViews lines₀ = labelViews lines := by
  induction lines generalizing lines₀ with
  | nil => rw [Inlined.nil_iff.1 h]
  | cons l rest ih =>
    obtain ⟨hfirst, hrest⟩ := List.forall_mem_cons.1 hl
    by_cases hi : included? l.directive = none
    · obtain ⟨l₀, rest₀, rfl, hl, hsame⟩ := h.exists_cons hi
      have htokens : l₀.tokens = l.tokens := by
        rw [← Line.placeless_tokens, hl, Line.placeless_tokens]
      have hoffset : l₀.offset = l.offset := by
        rw [← Line.placeless_offset, hl, Line.placeless_offset]
      rw [labelViews, labelViews, List.flatMap_cons, List.flatMap_cons, htokens, hoffset]
      exact congrArg _ (ih hsame hrest)
    · have hnone : l.tokens.filter (·.kind == .labelDef) = [] := by
        refine List.filter_eq_nil_iff.2 fun t ht => ?_
        simpa using hfirst (Option.isSome_iff_ne_none.2 hi) t ht
      rw [ih ((Inlined.cons_iff_of_ne hi).1 h) hrest, labelViews, labelViews, List.flatMap_cons,
        hnone]
      rfl

/-- The table has the labels of the lines that were laid out. -/
theorem map_view_locatedDefinitions {lines placed : List Line}
    (h : placed.map Line.unplaced = lines.map Line.unplaced) :
    (Assembler.locatedDefinitions lines placed).map Label.view = labelViews placed := by
  -- the lines before have been counted already
  suffices hpre : ∀ pre : List Line, (definitions pre.length lines).map (fun l =>
      (l.name, l.isLocal, ((pre ++ placed).map (·.offset)).getD l.line 0)) = labelViews placed by
    rw [Assembler.locatedDefinitions, List.map_map, ← hpre []]
    refine List.map_congr_left fun l _ => ?_
    simp [Label.view, Label.locate, Array.getD_eq_getD_getElem?, List.getD_eq_getElem?_getD]
  induction lines generalizing placed with
  | nil =>
    obtain rfl : placed = [] := by simpa using h
    exact fun pre => rfl
  | cons l rest ih =>
    cases placed with
    | nil => cases h
    | cons m more =>
      obtain ⟨hm, hmore⟩ := List.cons.inj h
      intro pre
      have htokens : m.unplaced.tokens = l.unplaced.tokens := by rw [hm]
      have htokens : m.tokens = l.tokens := htokens
      have hsplit : pre ++ m :: more = (pre ++ [m]) ++ more := by simp
      have hlength : pre.length + 1 = (pre ++ [m]).length := by simp
      rw [definitions, List.map_append, labelViews, List.flatMap_cons, htokens, hsplit, hlength,
        ih hmore (pre ++ [m])]
      refine congrArg (· ++ _) ?_
      simp [definitionsOf, List.getD_eq_getElem?_getD]

theorem Assembler.Read.map_view_labels {asm : Assembler} {flat placed : List Line}
    {program : Assembly} (hread : asm.Read flat program)
    (h : placed.map Line.unplaced = program.lines.map Line.unplaced) :
    (program.locatedSymbols placed).labels.map Label.view = labelViews placed := by
  rw [hread.locatedSymbols_eq]
  exact map_view_locatedDefinitions h

theorem SymbolTable.offset?_eq (t : SymbolTable) (name : Bytes) : t.offset? name =
    ((t.labels.map Label.view).find? fun v => t.key v.1 == t.key name).map (·.2.2) := by
  rw [offset?, lookup?_eq_find?, List.find?_map, Option.map_map]
  rfl

/-- All uses are resolved if they have addresses. -/
theorem SymbolTable.resolve_snd_eq_none {t : SymbolTable} :
    t.resolve.2 = none ↔ ∀ u ∈ t.uses, (t.offset? u.name).isSome := by
  rw [resolve_snd, List.find?_eq_none]
  simp [offset?, Option.isSome_iff_ne_none]

theorem SymbolTable.offset?_resolve (t : SymbolTable) : t.resolve.1.offset? = t.offset? := by
  funext name
  rw [offset?, lookup?_resolve, offset?]

theorem Inlined.resolve {lines₀ lines : List Line} (h : Inlined lines₀ lines)
    (find : Bytes → Option Int) :
    Inlined (lines₀.map (Line.resolve find)) (lines.map (Line.resolve find)) := by
  have hplain : plainLines (lines.map (Line.resolve find)) =
      (plainLines lines).map (Line.resolve find) := List.filter_map
  have hcomm : Line.placeless ∘ Line.resolve find = Line.resolve find ∘ Line.placeless := rfl
  unfold Inlined at h ⊢
  rw [hplain, List.map_map, List.map_map, hcomm, ← List.map_map, h, List.map_map]

theorem IncludesOnly.of_bare {lines lines' : List Line}
    (h : lines'.map Line.bare = lines.map Line.bare) (hl : IncludesOnly lines) :
    IncludesOnly lines' := by
  intro l' hl' hi t ht hk
  have hmem : l'.bare ∈ lines.map Line.bare := h ▸ List.mem_map_of_mem hl'
  obtain ⟨l, hmem, hbare⟩ := List.mem_map.1 hmem
  have hdirective : l.bare.directive = l'.bare.directive := by rw [hbare]
  have htoken : t.bare ∈ l.tokens.map Token.bare := by
    rw [← Line.bare_tokens, hbare, Line.bare_tokens]
    exact List.mem_map_of_mem ht
  obtain ⟨u, hu, hut⟩ := List.mem_map.1 htoken
  refine hl l hmem ?_ u hu ?_
  · rw [← hi]
    exact congrArg (fun d => (included? d).isSome) hdirective
  · rw [← Token.bare_kind, hut, Token.bare_kind, hk]

theorem Inlined.exists_mem {lines₀ lines : List Line} (h : Inlined lines₀ lines) {l₀ : Line}
    (hl : l₀ ∈ lines₀) : ∃ l ∈ lines, l.placeless = l₀.placeless := by
  have hmem : l₀.placeless ∈ (plainLines lines).map Line.placeless := h ▸ List.mem_map_of_mem hl
  obtain ⟨l, hl, hsame⟩ := List.mem_map.1 hmem
  exact ⟨l, (List.mem_filter.1 hl).1, hsame⟩

theorem Inlined.exists_use {lines₀ lines : List Line} (h : Inlined lines₀ lines) {u : Use}
    (hu : u ∈ uses lines₀) : ∃ u' ∈ uses lines, u'.name = u.name := by
  obtain ⟨l₀, hl₀, hu⟩ := List.mem_flatMap.1 hu
  obtain ⟨t, ht, rfl⟩ := List.mem_map.1 hu
  obtain ⟨l, hl, hsame⟩ := h.exists_mem hl₀
  have htokens : l.tokens = l₀.tokens := by
    rw [← Line.placeless_tokens, hsame, Line.placeless_tokens]
  exact ⟨⟨t.symbol, l.site, .pending⟩,
    List.mem_flatMap.2 ⟨l, hl, List.mem_map.2 ⟨t, htokens ▸ ht, rfl⟩⟩, rfl⟩

/-- The passes after reading have the same effect on inlined lines. -/
theorem exists_resolved {asm : Assembler} {flat flat₀ : List Line} {program program₀ a : Assembly}
    (hread : asm.Read flat program) (hread₀ : asm.Read flat₀ program₀)
    (hsame : Inlined program₀.lines program.lines) (hl : IncludesOnly program.lines)
    (h : program.resolved.result = .ok a) :
    ∃ b, program₀.resolved.result = .ok b ∧ b.defines = program₀.defines ∧
      a.defines = program.defines ∧ Inlined b.lines a.lines ∧
      b.symbols.labels.map Label.view = a.symbols.labels.map Label.view := by
  obtain ⟨placed, symbols, hplaced, hresolve, rfl⟩ := Assembly.resolved_eq_ok h
  obtain ⟨placed₀, hplaced₀, hinlined⟩ := exists_layout hplaced rfl hsame
  have hunplaced := (layout_laid hplaced).2
  have hviews : (program₀.locatedSymbols placed₀).labels.map Label.view =
      (program.locatedSymbols placed).labels.map Label.view := by
    rw [hread.map_view_labels hunplaced, hread₀.map_view_labels (layout_laid hplaced₀).2,
      labelViews_of_inlined hinlined (hl.of_bare (map_bare_of_unplaced hunplaced))]
  have hkey : (program₀.locatedSymbols placed₀).key = (program.locatedSymbols placed).key := by
    rw [hread.locatedSymbols_eq, hread₀.locatedSymbols_eq]
    rfl
  have hoffset : (program₀.locatedSymbols placed₀).offset? =
      (program.locatedSymbols placed).offset? := by
    funext n
    rw [SymbolTable.offset?_eq, SymbolTable.offset?_eq, hviews, hkey]
  have hnone : (program₀.locatedSymbols placed₀).resolve.2 = none := by
    have hnone := SymbolTable.resolve_snd_eq_none.1 (congrArg Prod.snd hresolve)
    refine SymbolTable.resolve_snd_eq_none.2 fun u hu => ?_
    rw [hread₀.locatedSymbols_eq, Ledger.mem_uses_table] at hu
    obtain ⟨u', hu', hname⟩ := hsame.exists_use hu
    rw [hoffset, ← hname]
    refine hnone u' ?_
    rwa [hread.locatedSymbols_eq, Ledger.mem_uses_table]
  have hsymbols : (program.locatedSymbols placed).resolve.1 = symbols := by rw [hresolve]
  refine ⟨_, Assembly.resolved_of_resolve hplaced₀ (Prod.ext rfl hnone), rfl, rfl, ?_, ?_⟩
  · show Inlined (placed₀.map _) (placed.map _)
    rw [SymbolTable.offset?_resolve, hoffset, ← SymbolTable.offset?_resolve, hsymbols]
    exact hinlined.resolve _
  · show (SymbolTable.labels _).map _ = symbols.labels.map _
    rw [SymbolTable.resolve_labels, hviews, ← SymbolTable.resolve_labels, hsymbols]

/-! ## Writing them -/

/-- An error apart from where it stands. -/
def Error.placeless : Error → Error
  | .atLine site fault => .atLine ⟨[], 0, site.raw⟩ fault
  | e => e

theorem encode_of_included {l : Line} {offset : Int} (hi : included? l.directive ≠ none)
    (hm : l.measure offset = .ok (l.size, l.code)) : l.encode = .ok (.words []) := by
  rw [measure_of_included hi] at hm
  have hcode : l.code = none := (Prod.mk.inj (Except.ok.inj hm)).2.symm
  unfold Line.encode Line.kind?
  rcases hd : l.directive with _ | ⟨_ | _ | _ | _ | _ | _, word, params⟩ <;>
    first
    | exact absurd (by rw [hd]; rfl) hi
    | simp only [Option.map_some, hcode]

/-- Inlined lines leave the same image, and the same error but for its place. -/
theorem writeLines_of_inlined {lines₀ lines : List Line} (h : Inlined lines₀ lines)
    (hl : ∀ l ∈ lines, included? l.directive ≠ none → l.encode = .ok (.words [])) (img : Image) :
    (Assembly.writeLines img lines₀).1 = (Assembly.writeLines img lines).1 ∧
      (Assembly.writeLines img lines₀).2.map Error.placeless =
        (Assembly.writeLines img lines).2.map Error.placeless := by
  induction lines generalizing lines₀ img with
  | nil =>
    obtain rfl := Inlined.nil_iff.1 h
    exact ⟨rfl, rfl⟩
  | cons l rest ih =>
    obtain ⟨hfirst, hrest⟩ := List.forall_mem_cons.1 hl
    by_cases hi : included? l.directive = none
    · obtain ⟨l₀, rest₀, rfl, hline, hsame⟩ := h.exists_cons hi
      have hencode : l₀.encode = l.encode := by
        rw [← Line.placeless_encode, hline, Line.placeless_encode]
      have hoffset : l₀.offset = l.offset := by
        rw [← Line.placeless_offset, hline, Line.placeless_offset]
      have hraw : l₀.raw = l.raw := by
        rw [← Line.placeless_raw, hline, Line.placeless_raw]
      rw [Assembly.writeLines, Assembly.writeLines, hencode, hoffset]
      cases l.encode with
      | error fault => exact ⟨rfl, by simp [Error.placeless, Line.site, hraw]⟩
      | ok block =>
        simp only
        cases block.place img l.offset with
        | mk out outside =>
          cases outside with
          | none => exact ih hsame hrest out
          | some addr => exact ⟨rfl, by simp [Error.placeless, Line.site, hraw]⟩
    · rw [Assembly.writeLines, hfirst hi]
      exact ih ((Inlined.cons_iff_of_ne hi).1 h) hrest img

/-- If lines are recognised, so are the inlined ones. -/
theorem Assembler.Read.lexErrors_of_inlined {asm : Assembler} {flat flat₀ : List Line}
    {program program₀ : Assembly} (hread : asm.Read flat program) (hread₀ : asm.Read flat₀ program₀)
    (h : Inlined program₀.lines program.lines) (hlex : program.lexErrors = []) :
    program₀.lexErrors = [] := by
  rw [hread.lexErrors_eq] at hlex
  rw [hread₀.lexErrors_eq]
  refine List.flatMap_eq_nil_iff.2 fun l₀ hl₀ => ?_
  obtain ⟨l, hl, hsame⟩ := h.exists_mem hl₀
  have htokens : l.tokens = l₀.tokens := by
    rw [← Line.placeless_tokens, hsame, Line.placeless_tokens]
  have hnone := List.flatMap_eq_nil_iff.1 hlex l hl
  rw [Line.lexErrors, List.map_eq_nil_iff, htokens] at hnone
  rw [Line.lexErrors, hnone]
  rfl

/-! ## Programs -/

/-- Programs that are the same but for the documents their lines stand in. -/
structure Assembly.Agrees (b a : Assembly) : Prop where
  defines_eq : b.defines.entries.map (fun d => (d.key, d.value)) =
    a.defines.entries.map fun d => (d.key, d.value)
  /-- The labels have the same full names and addresses, and the same ones are local. -/
  labels_eq : b.symbols.labels.map Label.view = a.symbols.labels.map Label.view
  size_eq : b.size = a.size
  image_eq (img : Image) : (b.assemble img).1 = (a.assemble img).1
  error_eq (img : Image) :
    (b.assemble img).2.map Error.placeless = (a.assemble img).2.map Error.placeless

theorem map_key_value_of_placeless {ds ds₀ : Defines} (h : ds₀.placeless = ds.placeless) :
    ds₀.entries.map (fun d => (d.key, d.value)) = ds.entries.map fun d => (d.key, d.value) := by
  have hpairs (ds : Defines) : ds.entries.map (fun d => (d.key, d.value)) =
      ds.placeless.entries.map fun d => (d.key, d.value) := by
    rw [Defines.placeless, List.map_map]
    rfl
  rw [hpairs, h, ← hpairs]

theorem Assembly.agrees_of_inlined {a b : Assembly} (h : Inlined b.lines a.lines)
    (hd : b.defines.placeless = a.defines.placeless)
    (hlabels : b.symbols.labels.map Label.view = a.symbols.labels.map Label.view)
    (ha : a.lexErrors = []) (hb : b.lexErrors = []) (hlaid : Laid 0 a.lines) : b.Agrees a := by
  have hwrite (img : Image) :=
    writeLines_of_inlined h (fun l hl hi => encode_of_included hi (hlaid.measure_eq hl)) img.cleared
  have hsize : b.size = a.size := by
    unfold size
    rw [← foldl_stop_placeless, h, foldl_stop_placeless,
      hlaid.foldl_plainLines rfl (Int.le_refl 0)]
  refine ⟨map_key_value_of_placeless hd, hlabels, hsize, fun img => ?_, fun img => ?_⟩
  · rw [assemble_eq_writeLines ha, assemble_eq_writeLines hb, (hwrite img).1]
  · rw [assemble_eq_writeLines ha, assemble_eq_writeLines hb, (hwrite img).2]

namespace Assembler

/-- The lines of a program, inlined, are read as one document. -/
theorem exists_readProgram_inlined {asm : Assembler} {name text name₀ flat : Bytes}
    {defines : Defines} {extent : Extent}
    (hr : Reads asm.source (asm.opening name text defines) (.ok extent))
    (hl : IncludesOnly extent.lines)
    (hflat : sourceLines flat = ((plainLines extent.lines).map (·.raw), false)) :
    ∃ program₀, (asm.readProgram (Path.clean name₀) flat defines).result = .ok program₀ ∧
      Inlined program₀.lines extent.lines ∧
      program₀.defines.placeless = extent.progress.defines.placeless := by
  have hstart : Progress.Alike (asm.start defines) (asm.start defines) := ⟨rfl, rfl, rfl, rfl⟩
  obtain ⟨lines₀, q₀, hreads, hlines, hq⟩ :=
    (hr.chained rfl).exists_reads hl hstart asm.source ⟨Path.clean name₀, []⟩ 1
  have hopening : asm.opening name₀ flat defines =
      ⟨⟨Path.clean name₀, []⟩, false, 1, (plainLines extent.lines).map (·.raw),
        asm.start defines⟩ := by
    rw [opening, Place.opening, hflat]
  have hprogram := readProgram_eq_ok.2 ⟨⟨lines₀, [], q₀⟩, hopening ▸ hreads, rfl⟩
  exact ⟨_, hprogram, hlines, hq.defines_eq⟩

/-- Including is inlining : a program that is accepted, no include line of which defines a label,
has one list of inlined lines. They can be written as a document, and every document with these
lines is accepted and agrees with the program. -/
theorem accepts_inlined {asm : Assembler} {name text : Bytes} {a : Assembly}
    (ha : asm.Accepts name text a) (hl : IncludesOnly a.lines) :
    ∃ defines raws, asm.initialDefines = .ok defines ∧
      (∀ raws', Inlines asm.source (asm.opening name text defines) raws' ↔ raws' = raws) ∧
      (∃ flat, sourceLines flat = (raws, false)) ∧
      ∀ name₀ flat, sourceLines flat = (raws, false) →
        ∃ b, asm.Accepts name₀ flat b ∧ b.Agrees a := by
  have hlaid := laid_of_accepts ha
  obtain ⟨defines, program, hd, hprogram, hlex, hres⟩ := parse_accepts ha
  obtain ⟨lines, -, hread⟩ := read_of_readProgram hd hprogram
  obtain ⟨extent, hr, rfl⟩ := readProgram_eq_ok.1 hprogram
  have hl : IncludesOnly extent.lines := by
    obtain ⟨placed, symbols, hplaced, -, rfl⟩ := Assembly.resolved_eq_ok hres
    refine hl.of_bare ?_
    rw [map_bare_resolve, map_bare_of_unplaced (layout_laid hplaced).2]
    rfl
  have hwritable : ∀ raw ∈ (plainLines extent.lines).map (·.raw), Writable raw := by
    intro raw hraw
    obtain ⟨l, hl, rfl⟩ := List.mem_map.1 hraw
    exact hr.writable rfl (fun raw => writable_of_mem_sourceLines) l (List.mem_filter.1 hl).1
  refine ⟨defines, (plainLines extent.lines).map (·.raw), hd, fun raws => ⟨?_, ?_⟩,
    ⟨_, sourceLines_documentText hwritable⟩, fun name₀ flat hflat => ?_⟩
  · intro h
    exact h.eq_of_reads hr (asm.opening_inReach name text defines)
  · rintro rfl
    exact hr.inlines rfl
  · obtain ⟨program₀, hprogram₀, hsame, hdefines⟩ := exists_readProgram_inlined hr hl hflat
    obtain ⟨lines₀, -, hread₀⟩ := read_of_readProgram hd hprogram₀
    obtain ⟨b, hb, hbd, had, hinlined, hlabels⟩ := exists_resolved hread hread₀ hsame hl hres
    have haccepts : asm.Accepts name₀ flat b :=
      accepts_of_resolved hd hprogram₀ (hread.lexErrors_of_inlined hread₀ hsame hlex) hb
    have hdefines : b.defines.placeless = a.defines.placeless := by
      rw [hbd, hdefines, had]
      rfl
    exact ⟨b, haccepts, Assembly.agrees_of_inlined hinlined hdefines hlabels
      (lexErrors_of_accepts ha) (lexErrors_of_accepts haccepts) hlaid⟩

theorem sample_accepts_inlined : ∃ a, sampleAssembler.Accepts "m" sampleText a ∧
    IncludesOnly a.lines ∧ (∃ l ∈ a.lines, l.isInclude = true) ∧
    ∃ flat b, sampleAssembler.Accepts "flat" flat b ∧ b.Agrees a := by
  obtain ⟨a, ha, h⟩ := sampleAssembler.exists_accepts "m" sampleText
    (fun a => a.lines.any (·.isInclude) &&
      a.lines.all fun l => !l.isInclude || l.tokens.all (·.kind != .labelDef)) (by decide +kernel)
  obtain ⟨hsome, hall⟩ := Bool.and_eq_true_iff.1 h
  have hl : IncludesOnly a.lines := by
    intro l hl hi t ht
    have htokens := List.all_eq_true.1 hall l hl
    rw [hi] at htokens
    exact bne_iff_ne.1 (List.all_eq_true.1 htokens t ht)
  obtain ⟨defines, raws, -, -, ⟨flat, hflat⟩, hagrees⟩ := accepts_inlined ha hl
  obtain ⟨b, hb, hab⟩ := hagrees "flat" flat hflat
  exact ⟨a, ha, hl, List.any_eq_true.1 hsome, flat, b, hb, hab⟩

end Assembler

end Asm16
