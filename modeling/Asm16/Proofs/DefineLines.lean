import Asm16.Proofs.Replacement
import Mathlib.Data.List.Forall2

/-!
# Lines that define

A line makes a define if it is written as a define directive (`Line.writesDefine`), before anything
is substituted in it. It is a define line in the end too, and the key is still the one that was
read : what is substituted in the replacement text does not reach the key (`Applied.exists_keyOf`).
So the defines made by a program and its lines written as define directives go together one by one
(`Reads.made`).

A line can also become a define line only by substitution. Nothing is defined there, and such lines
are the only difference between the lines that define and those that are define lines in the end
(`forall₂_isDefine_iff`).
-/

namespace Asm16

/-! ## The key of a define line -/

namespace Define

theorem exists_split {params : Bytes} (h : isDefineKey (keyOf params) = true) :
    ∃ parts, split params = .ok parts ∧ parts.key = keyOf params :=
  ⟨_, if_pos h, rfl⟩

/-- The key at the front of a text is found in its parameters. -/
theorem keyOf_parametersOf {key s : Bytes} (hkey : IsWord key)
    (hs : ∀ c, s.head? = some c → isWordByte c = false) :
    keyOf (Lexer.parametersOf (key ++ s)) = key := by
  have hblank : ∀ c ∈ key, isBlank c = false := fun c hc => isBlank_of_isWordByte (hkey.all c hc)
  have hdrop {p : UInt8 → Bool} (hp : ∀ c ∈ key, p c = false) (t : Bytes) :
      (key ++ t).dropWhile p = key ++ t := by
    cases key with
    | nil => exact absurd rfl hkey.ne_nil
    | cons c rest => simp [hp c List.mem_cons_self]
  rw [Lexer.parametersOf, hdrop hblank, Lexer.parameterText_append hkey.all,
    Lexer.dropEnd_append hblank, keyOf, hdrop]
  · refine takeWhile_append_of_head? hkey.all fun c hc => hs c ?_
    obtain ⟨back, hback⟩ := (Lexer.isPrefix_dropEnd isBlank _).trans
      (Lexer.isPrefix_parameterText none s)
    rw [← hback, List.head?_append, hc]
    rfl
  · intro c hc
    simp [isGap, hblank c hc]

end Define

/-- Expansion leaves the byte at the front, if it is in no word. -/
theorem Defines.head?_expand {ds : Defines} (hw : ∀ d ∈ ds.entries, IsWord d.key) {s t : Bytes}
    {b : Bool} (hs : ∀ c, s.head? = some c → isWordByte c = false)
    (h : ds.expand s = .ok (t, b)) : t.head? = s.head? := by
  obtain ⟨-, k, rfl⟩ := settle_eq_some (settle_of_expand h)
  clear h
  induction k with
  | zero => rfl
  | succ k ih =>
    rw [Function.iterate_succ_apply', head?_sweep hw (by rwa [ih]), ih]

/-- Whatever the replacement text is expanded to, the key ends where it did. -/
theorem Define.Cut.isWordByte_behind {params value y : Bytes} {parts : Define.Parts} {ds : Defines}
    {changed : Bool} (h : Define.Cut params parts) (hds : ds.Built)
    (hexpand : ds.expand parts.value = .ok (value, changed))
    (hy : ∀ c, y.head? = some c → isWordByte c = false) :
    ∀ c, ((textOf params).takeWhile isGap ++ (value ++ (parts.back ++ y))).head? = some c →
      isWordByte c = false := by
  have hstop : ∀ c, (textOf params).head? = some c → isWordByte c = false :=
    head?_dropWhile isWordByte (params.dropWhile isGap)
  have htext : textOf params = (textOf params).takeWhile isGap ++ (parts.value ++ parts.back) := by
    rw [← h.text_eq, List.takeWhile_append_dropWhile]
  intro c hc
  cases hgap : (textOf params).takeWhile isGap with
  | cons b gap =>
    rw [hgap] at htext hc
    exact hstop c (by rw [htext]; exact hc)
  | nil =>
    rw [hgap, List.nil_append] at htext hc
    have hvalue : value.head? = parts.value.head? := by
      refine Defines.head?_expand hds.keyed.isWord (fun b hb => hstop b ?_) hexpand
      rw [htext, List.head?_append, hb]
      rfl
    rw [List.head?_append, hvalue, ← List.head?_append, ← List.append_assoc, ← htext,
      List.head?_append] at hc
    cases hhead : (textOf params).head? with
    | none =>
      rw [hhead] at hc
      exact hy c hc
    | some b =>
      rw [hhead] at hc
      exact hstop c (hhead.trans hc)

/-- With its replacement text expanded, a define line has the key it was written with. -/
theorem Applied.exists_keyOf {site : Site} {ds ds' : Defines} {r : Reading} {word params : Bytes}
    (h : Applied site ds r ds') (hds : ds.Built)
    (hdirective : (Reading.ofText .initial site.raw).directive = some ⟨.define, word, params⟩) :
    ∃ params', r.directive = some ⟨.define, word, params'⟩ ∧
      Define.keyOf params' = Define.keyOf params := by
  obtain ⟨parts, value, changed, hparts, hexpand, rfl, -⟩ := h.of_define hdirective
  cases changed with
  | false => exact ⟨params, hdirective, rfl⟩
  | true =>
    obtain ⟨x, y, -, -, hy, hrewrite⟩ := exists_directive_rewrite hdirective hparts
    refine ⟨_, hrewrite value, ?_⟩
    have hcut := Define.cut_of_split hparts
    have hlead : ∀ c ∈ params.takeWhile Define.isGap, isBlank c = true :=
      fun c hc => Define.isBlank_of_isGap (List.mem_takeWhile_imp hc)
    have hbehind : ∀ c, y.head? = some c → isWordByte c = false := by
      intro c hc
      rcases hy c hc with hblank | rfl
      · exact isWordByte_of_isBlank hblank
      · rfl
    rw [hcut.front_eq]
    simp only [List.append_assoc]
    rw [Lexer.parametersOf_append hlead, Define.keyOf_parametersOf
      (isWord_of_isDefineKey hcut.isDefineKey) (hcut.isWordByte_behind hds hexpand hbehind),
      hcut.key_eq]

/-! ## Lines and their defines -/

/-- The line is written as a define directive. -/
def Line.writesDefine (l : Line) : Bool :=
  (Reading.ofText .initial l.raw).directive.map (·.kind) == some .define

/-- The line is a define directive in the end. -/
def Line.isDefine (l : Line) : Bool := l.kind? == some .define

/-- A define is made at a line, and its key is the one in the parameters of the line. -/
structure Line.Makes (l : Line) (d : Define) : Prop where
  site_eq : d.site = some l.site
  key_eq : ∃ word params parts, l.directive = some ⟨.define, word, params⟩ ∧
    Define.split params = .ok parts ∧ parts.key = d.key

/-- The line is also written with that key. -/
structure Line.Writes (l : Line) (d : Define) : Prop extends l.Makes d where
  written : ∃ word params,
    (Reading.ofText .initial l.raw).directive = some ⟨.define, word, params⟩ ∧
      Define.keyOf params = d.key

/-- The defines that lines add to a table. -/
def Made (lines : List Line) (ds ds' : Defines) : Prop :=
  ∃ made, ds'.entries = ds.entries ++ made ∧
    List.Forall₂ Line.Writes (lines.filter Line.writesDefine) made

theorem made_nil (ds : Defines) : Made [] ds ds := ⟨[], (List.append_nil _).symm, .nil⟩

theorem Made.append {first second : List Line} {ds ds' ds'' : Defines} (h : Made first ds ds')
    (h' : Made second ds' ds'') : Made (first ++ second) ds ds'' := by
  obtain ⟨made, hds, hmade⟩ := h
  obtain ⟨made', hds', hmade'⟩ := h'
  refine ⟨made ++ made', by rw [hds', hds, List.append_assoc], ?_⟩
  rw [List.filter_append]
  exact List.rel_append hmade hmade'

theorem exists_mem_of_forall₂ {α β : Type} {R : α → β → Prop} {l : List α} {m : List β}
    (h : List.Forall₂ R l m) {a : α} (ha : a ∈ l) : ∃ b ∈ m, R a b := by
  induction h with
  | nil => cases ha
  | cons hr _ ih =>
    rcases List.mem_cons.1 ha with rfl | ha
    · exact ⟨_, List.mem_cons_self, hr⟩
    · obtain ⟨b, hb, hab⟩ := ih ha
      exact ⟨b, List.mem_cons_of_mem _ hb, hab⟩

theorem Line.Writes.key_congr {l l' : Line} {d d' : Define} (h : l.Writes d) (h' : l'.Writes d')
    (hsite : d.site = d'.site) : d.key = d'.key := by
  have hraw : l.raw = l'.raw := by
    have := hsite
    rw [h.site_eq, h'.site_eq] at this
    exact congrArg Site.raw (Option.some.inj this)
  obtain ⟨word, params, hdirective, hkey⟩ := h.written
  obtain ⟨word', params', hdirective', hkey'⟩ := h'.written
  rw [← hraw, hdirective] at hdirective'
  obtain ⟨-, -, rfl⟩ := Directive.mk.inj (Option.some.inj hdirective')
  rw [← hkey, hkey']

/-- What one line adds. -/
theorem Place.Takes.made {s after : Place} {line : Line} (h : s.Takes line after)
    (hs : s.progress.defines.Built) :
    Made [line] s.progress.defines after.progress.defines := by
  obtain ⟨raw, rest, q, -, hline, rfl⟩ := h
  obtain ⟨r, ds, happly, -, rfl, rfl⟩ := readLine_eq_ok.1 hline
  have happlied := applyDefines_eq_ok.1 happly
  by_cases hwrites : (Reading.ofText .initial raw).directive.map (·.kind) = some .define
  · obtain ⟨⟨kind, word, params⟩, hdirective, rfl⟩ := Option.map_eq_some_iff.1 hwrites
    obtain ⟨parts, value, changed, hparts, -, -, hds⟩ := happlied.of_define hdirective
    obtain ⟨params', hr, hkey⟩ := happlied.exists_keyOf hs hdirective
    have hcut := Define.cut_of_split hparts
    have hdefines : isDefineKey (Define.keyOf params') = true := by
      rw [hkey, ← hcut.key_eq]
      exact hcut.isDefineKey
    obtain ⟨parts', hparts', hkey'⟩ := Define.exists_split hdefines
    refine ⟨[⟨parts.key, trim value, some ⟨s.document.name, s.number, raw⟩⟩], by rw [hds], ?_⟩
    rw [List.filter_cons_of_pos (by simp [Line.writesDefine, hdirective]), List.filter_nil]
    refine .cons ⟨⟨rfl, word, params', parts', hr, hparts', ?_⟩, word, params, hdirective, ?_⟩ .nil
    · rw [hkey', hkey, hcut.key_eq]
    · rw [hcut.key_eq]
  · have hds : ds = s.progress.defines := by
      cases happlied with
      | define hdirective => exact absurd (by rw [hdirective]; rfl) hwrites
      | inclusion | plain => rfl
    rw [hds]
    refine ⟨[], (List.append_nil _).symm, ?_⟩
    rw [List.filter_cons_of_neg (by simpa [Line.writesDefine] using hwrites)]
    exact .nil

/-- Layout and resolution change nothing of it. -/
theorem Made.of_bare {lines lines' : List Line} {ds ds' : Defines} (h : Made lines' ds ds')
    (hbare : lines.map Line.bare = lines'.map Line.bare) : Made lines ds ds' := by
  obtain ⟨made, hds, hmade⟩ := h
  have hwrites (l : Line) (d : Define) : l.bare.Writes d ↔ l.Writes d :=
    ⟨fun h => ⟨⟨h.site_eq, h.key_eq⟩, h.written⟩, fun h => ⟨⟨h.site_eq, h.key_eq⟩, h.written⟩⟩
  have hiff (ls : List Line) : List.Forall₂ Line.Writes (ls.filter Line.writesDefine) made ↔
      List.Forall₂ Line.Writes ((ls.map Line.bare).filter Line.writesDefine) made := by
    rw [List.filter_map, List.forall₂_map_left_iff]
    simp only [hwrites]
    rfl
  exact ⟨made, hds, (hiff lines).2 (hbare ▸ (hiff lines').1 hmade)⟩

/-- The defines of a document are made by its lines, one by one. -/
theorem Reads.made {source : Option Source} {s : Place} {r : Except Error Extent}
    (hr : Reads source s r) (hs : s.progress.defines.Built) {extent : Extent}
    (he : r = .ok extent) : Made extent.lines s.progress.defines extent.progress.defines := by
  induction hr generalizing extent with
  | done =>
    obtain rfl := Except.ok.inj he
    exact made_nil _
  | tooLong | refused | missing | cycle | inner => cases he
  | plain ht _ _ ih =>
    obtain ⟨more, rfl, rfl⟩ := map_eq_ok.1 he
    exact (ht.made hs).append (ih (ht.kept Defines.keptByLines_built hs) rfl)
  | within ht _ _ hin _ ihe ihr =>
    obtain ⟨more, rfl, rfl⟩ := map_eq_ok.1 he
    have hafter := ht.kept Defines.keptByLines_built hs
    have hinner := hin.kept Defines.keptByLines_built hafter rfl
    exact (ht.made hs).append ((ihe hafter rfl).append (ihr hinner rfl))

/-! ## Programs -/

section Programs

variable {lines : List Line} {initial made : List Define}
  (hmade : List.Forall₂ Line.Writes (lines.filter Line.writesDefine) made)
include hmade

/-- There is one define for the place of a line. -/
theorem existsUnique_site (hkeyed : Defines.Keyed (initial ++ made))
    (hsites : ∀ d ∈ initial, d.site = none) {l : Line} (hl : l ∈ lines)
    (hwrites : l.writesDefine = true) : ∃! d, d ∈ initial ++ made ∧ d.site = some l.site := by
  obtain ⟨d, hd, hld⟩ := exists_mem_of_forall₂ hmade (List.mem_filter.2 ⟨hl, hwrites⟩)
  have hdmem : d ∈ initial ++ made := List.mem_append_right _ hd
  refine ⟨d, ⟨hdmem, hld.site_eq⟩, ?_⟩
  rintro e ⟨he, hsite⟩
  have hemade : e ∈ made := by
    refine (List.mem_append.1 he).resolve_left fun hinitial => ?_
    rw [hsites e hinitial] at hsite
    cases hsite
  have hflip : List.Forall₂ (flip Line.Writes) made (lines.filter Line.writesDefine) :=
    List.Forall₂.flip hmade
  obtain ⟨m, -, hme⟩ := exists_mem_of_forall₂ hflip hemade
  exact hkeyed.eq_of_key_eq he hdmem (Line.Writes.key_congr hme hld (hsite.trans hld.site_eq.symm))

/-- The defines are those of all define lines if every one is written as such. -/
theorem forall₂_isDefine_iff : List.Forall₂ Line.Makes (lines.filter Line.isDefine) made ↔
    ∀ l ∈ lines, l.isDefine = true → l.writesDefine = true := by
  have hdefine : ∀ l ∈ lines, l.writesDefine = true → l.isDefine = true := by
    intro l hl hwrites
    obtain ⟨d, -, hld⟩ := exists_mem_of_forall₂ hmade (List.mem_filter.2 ⟨hl, hwrites⟩)
    obtain ⟨word, params, -, hdirective, -⟩ := hld.key_eq
    simp [Line.isDefine, Line.kind?, hdirective]
  constructor
  · -- lines that are not written as define lines would be too many for the defines
    intro hall l hl hlast
    have hfilter : (lines.filter Line.isDefine).filter Line.writesDefine =
        lines.filter Line.writesDefine := by
      rw [List.filter_filter]
      refine List.filter_congr fun m hm => ?_
      cases hwrites : m.writesDefine with
      | false => rfl
      | true => rw [hdefine m hm hwrites, Bool.and_self]
    have hlength : ((lines.filter Line.isDefine).filter Line.writesDefine).length =
        (lines.filter Line.isDefine).length := by
      rw [hfilter, hmade.length_eq, hall.length_eq]
    exact List.length_filter_eq_length_iff.1 hlength l (List.mem_filter.2 ⟨hl, hlast⟩)
  · intro hsame
    have hfilter : lines.filter Line.isDefine = lines.filter Line.writesDefine :=
      List.filter_congr fun l hl => Bool.eq_iff_iff.2 ⟨hsame l hl, hdefine l hl⟩
    rw [hfilter]
    exact hmade.imp fun l d hld => hld.toMakes

end Programs

theorem site_of_addDefines {ds ds' : Defines} {pairs : List (Bytes × Bytes)}
    (h : ∀ d ∈ ds.entries, d.site = none) (ha : Assembler.addDefines ds pairs = .ok ds') :
    ∀ d ∈ ds'.entries, d.site = none := by
  induction pairs generalizing ds with
  | nil =>
    obtain rfl := Except.ok.inj ha
    exact h
  | cons pair rest ih =>
    obtain ⟨d, hd, ha⟩ := bind_eq_ok.1 ha
    obtain ⟨next, hnext, ha⟩ := bind_eq_ok.1 ha
    obtain ⟨-, rfl⟩ := Define.make_eq_ok.1 hd
    obtain ⟨-, rfl⟩ := Defines.add_eq_ok.1 hnext
    refine ih (List.forall_mem_append.2 ⟨h, ?_⟩) ha
    simp

namespace Assembler

variable {asm : Assembler} {name text : Bytes} {a : Assembly}

/-- The defines of a program besides the initial ones are made by the lines that are written as
define directives, one by one and in their order, and there is one for the place of each. They go
together with the lines that are define directives in the end exactly if all of these are written as
such. -/
theorem parse_define_lines {e : Option Error} (h : (asm.parse name text).result = .ok (a, e)) :
    ∃ initial made, asm.initialDefines = .ok initial ∧ (∀ d ∈ initial.entries, d.site = none) ∧
      a.defines.entries = initial.entries ++ made ∧
      List.Forall₂ Line.Writes (a.lines.filter Line.writesDefine) made ∧
      (∀ l ∈ a.lines, l.writesDefine = true →
        ∃! d, d ∈ a.defines.entries ∧ d.site = some l.site) ∧
      (List.Forall₂ Line.Makes (a.lines.filter Line.isDefine) made ↔
        ∀ l ∈ a.lines, l.isDefine = true → l.writesDefine = true) := by
  obtain ⟨initial, extent, hd, hreads, -, hdefines, hlines⟩ := exists_reads_of_parse h
  obtain ⟨pairs, hadd⟩ := exists_addDefines hd
  have hsites : ∀ d ∈ initial.entries, d.site = none := site_of_addDefines (by simp) hadd
  have hbuilt := (Defines.Built.empty asm.defineLimit).addDefines hadd
  have hkeyed : Defines.Keyed a.defines.entries := by
    rw [hdefines]
    exact (hreads.kept Defines.keptByLines_built hbuilt rfl).keyed
  have hmade : Made a.lines initial a.defines := by
    rw [hdefines]
    exact (hreads.made hbuilt rfl).of_bare hlines
  obtain ⟨made, hentries, hmade⟩ := hmade
  rw [hentries] at hkeyed ⊢
  exact ⟨initial, made, hd, hsites, rfl, hmade,
    fun l hl hwrites => existsUnique_site hmade hkeyed hsites hl hwrites,
    forall₂_isDefine_iff hmade⟩

/-- Defines before any source, of an included document, and of a line that changes. -/
def definingAssembler : Assembler :=
  { source := some { files := [("lib", "#define Q P+2 ; note")] }, predefines := [("P", "1")] }

/-- A define before an include, and one behind a label; the included document makes one between
them. -/
def definingText : Bytes := "#define K Q\n.include lib\nlbl: .DEFINE M K+Q\nDAT M"

theorem defining_parse_define_lines :
    ∃ a e made, (definingAssembler.parse "m" definingText).result = .ok (a, e) ∧
      (∀ l ∈ a.lines, l.isDefine = true → l.writesDefine = true) ∧
      a.defines.entries = ⟨"P", "1", none⟩ :: made ∧ made.map (·.key) = ["K", "Q", "M"] ∧
      List.Forall₂ Line.Makes (a.lines.filter Line.isDefine) made := by
  have hinitial : definingAssembler.initialDefines = .ok ⟨0, [⟨"P", "1", none⟩]⟩ := by
    decide +kernel
  obtain ⟨⟨a, e⟩, ha, hp⟩ := exists_ok (x := (definingAssembler.parse "m" definingText).result)
    (p := fun r => r.1.lines.all (fun l => !l.isDefine || l.writesDefine) &&
      r.1.defines.entries.map (·.key) == ["P", "K", "Q", "M"]) (by decide +kernel)
  obtain ⟨hlines, hkeys⟩ := Bool.and_eq_true_iff.1 hp
  have hwrites : ∀ l ∈ a.lines, l.isDefine = true → l.writesDefine = true := by
    intro l hl hlast
    simpa [hlast] using List.all_eq_true.1 hlines l hl
  obtain ⟨initial, made, hd, -, hentries, -, -, hiff⟩ := parse_define_lines ha
  obtain rfl := Except.ok.inj (hinitial.symm.trans hd)
  have hmade : ("P" : Bytes) :: made.map (·.key) = ["P", "K", "Q", "M"] := by
    rw [← eq_of_beq hkeys, hentries]
    rfl
  exact ⟨a, e, made, ha, hwrites, hentries, (List.cons.inj hmade).2, hiff.2 hwrites⟩

/-- A line that becomes a define directive by substitution makes no define. -/
theorem substituted_define_makes_none :
    ∃ a e l, (parse {} "m" "#define NEW #define\nNEW K 5").result = .ok (a, e) ∧ l ∈ a.lines ∧
      l.directive = some ⟨.define, "#define", "K 5"⟩ ∧
      a.defines.entries.map (·.key) = ["NEW"] ∧ ∀ d ∈ a.defines.entries, ¬l.Makes d := by
  obtain ⟨⟨a, e⟩, ha, hp⟩ := exists_ok (x := (parse {} "m" "#define NEW #define\nNEW K 5").result)
    (p := fun r => (r.1.lines[1]?).any (·.directive == some ⟨.define, "#define", "K 5"⟩) &&
      r.1.defines.entries.map (·.key) == ["NEW"]) (by decide +kernel)
  obtain ⟨hline, hkeys⟩ := Bool.and_eq_true_iff.1 hp
  obtain ⟨l, hl, hdirective⟩ := (Option.any_eq_true _ _).1 hline
  have hdirective := eq_of_beq hdirective
  refine ⟨a, e, l, ha, List.mem_of_getElem? hl, hdirective, eq_of_beq hkeys, fun d hd hmakes => ?_⟩
  have hkey : d.key = "NEW" := by
    have := List.mem_map_of_mem (f := (·.key)) hd
    rw [eq_of_beq hkeys] at this
    exact List.mem_singleton.1 this
  obtain ⟨word, params, parts, hlast, hparts, hfound⟩ := hmakes.key_eq
  obtain ⟨-, -, rfl⟩ := Directive.mk.inj (Option.some.inj (hdirective.symm.trans hlast))
  have hcut := (Define.cut_of_split hparts).key_eq
  rw [hfound, hkey] at hcut
  revert hcut
  decide +kernel

end Assembler

end Asm16
