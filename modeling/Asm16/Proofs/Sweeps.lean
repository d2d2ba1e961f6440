import Asm16.Proofs.Alike
import Asm16.Proofs.Cycles
import Asm16.Proofs.Words

/-!
# Defines that need one sweep

The replacement text of a define is expanded with the defines before it when the define is made. If
no define stands in its own replacement text, no key stands in the replacement text of a later
define either (`Defines.Layered`, which every line keeps). A sweep in the order of definition then
takes the keys out one after another and none of them comes back (`not_mem_words_sweep`), so a
second sweep finds nothing to do (`settle_eq`) and expansion never fails.
-/

namespace Asm16

/-- A define stands in its own replacement text. -/
def Define.Recurs (d : Define) : Prop := d.key ∈ words d.value

instance (d : Define) : Decidable d.Recurs := inferInstanceAs (Decidable (_ ∈ _))

/-! ## One sweep -/

theorem Define.not_mem_words_replace {d : Define} (hd : IsWord d.key) {key s : Bytes}
    (hvalue : key ∉ words d.value) (hs : key = d.key ∨ key ∉ words s) :
    key ∉ words (d.replace s) := by
  rw [replace, words_replaceWord hd]
  intro hmem
  obtain ⟨w, hw, hkey⟩ := List.mem_flatMap.1 hmem
  split at hkey
  · exact hvalue hkey
  · rename_i hne
    obtain rfl := List.mem_singleton.1 hkey
    exact hs.elim hne fun hnot => hnot hw

namespace Defines

/-- Keys are words, and none stands in the replacement text of its own define or of a later one. -/
structure Ordered (entries : List Define) : Prop where
  isWord : ∀ d ∈ entries, IsWord d.key
  self : ∀ d ∈ entries, ¬d.Recurs
  later : entries.Pairwise fun d e => d.key ∉ words e.value

/-- The keys `gone` were taken out of a text and do not come back; the others are taken out. -/
theorem not_mem_words_sweep {entries : List Define} (h : Ordered entries) {gone : List Bytes}
    {s : Bytes} (hgone : ∀ key ∈ gone, key ∉ words s ∧ ∀ d ∈ entries, key ∉ words d.value) :
    ∀ key ∈ gone ++ entries.map (·.key), key ∉ words (sweep entries s) := by
  induction entries generalizing gone s with
  | nil =>
    intro key hkey
    rw [List.map_nil, List.append_nil] at hkey
    exact (hgone key hkey).1
  | cons d rest ih =>
    obtain ⟨hd, hrest⟩ := List.forall_mem_cons.1 h.isWord
    obtain ⟨hself, hselves⟩ := List.forall_mem_cons.1 h.self
    obtain ⟨hlater, hpairwise⟩ := List.pairwise_cons.1 h.later
    have hnext : ∀ key ∈ gone ++ [d.key],
        key ∉ words (d.replace s) ∧ ∀ e ∈ rest, key ∉ words e.value := by
      refine List.forall_mem_append.2 ⟨fun key hkey => ?_, ?_⟩
      · obtain ⟨hs, hvalues⟩ := hgone key hkey
        obtain ⟨hvalue, hvalues⟩ := List.forall_mem_cons.1 hvalues
        exact ⟨d.not_mem_words_replace hd hvalue (.inr hs), hvalues⟩
      · intro key hkey
        obtain rfl := List.mem_singleton.1 hkey
        exact ⟨d.not_mem_words_replace hd hself (.inl rfl), hlater⟩
    have := ih ⟨hrest, hselves, hpairwise⟩ hnext
    rwa [List.append_assoc] at this

/-- A sweep leaves no key in a text. -/
theorem Ordered.not_mem_sweep {entries : List Define} (h : Ordered entries) (s : Bytes) :
    ∀ d ∈ entries, d.key ∉ words (sweep entries s) := by
  intro d hd
  have hnone : ∀ key ∈ ([] : List Bytes), key ∉ words s ∧ ∀ d ∈ entries, key ∉ words d.value := by
    simp
  exact not_mem_words_sweep h hnone d.key (List.mem_map_of_mem hd)

/-- No replacement text holds a key that is defined before it, or its own. -/
theorem Ordered.key_not_mem {entries : List Define} (h : Ordered entries) {i j : Nat} {d e : Define}
    (hij : i ≤ j) (hd : entries[i]? = some d) (he : entries[j]? = some e) :
    d.key ∉ words e.value := by
  obtain ⟨hi, rfl⟩ := List.getElem?_eq_some_iff.1 hd
  obtain ⟨hj, rfl⟩ := List.getElem?_eq_some_iff.1 he
  rcases Nat.lt_or_eq_of_le hij with hlt | rfl
  · exact List.pairwise_iff_getElem.1 h.later i j hi hj hlt
  · exact h.self _ (List.getElem_mem hi)

/-- There is nothing to do in a text without keys. -/
theorem sweep_of_not_mem {entries : List Define} {s : Bytes} (hw : ∀ d ∈ entries, IsWord d.key)
    (h : ∀ d ∈ entries, d.key ∉ words s) : sweep entries s = s := by
  induction entries with
  | nil => rfl
  | cons d rest ih =>
    obtain ⟨hd, hwords⟩ := List.forall_mem_cons.1 hw
    obtain ⟨hs, hkeys⟩ := List.forall_mem_cons.1 h
    have hreplace : d.replace s = s := replaceWord_of_not_mem hd hs
    rw [sweep, List.foldl_cons, hreplace]
    exact ih hwords hkeys

theorem settle_eq {entries : List Define} (h : Ordered entries) (n : Nat) (s : Bytes) :
    settle entries (n + 1) s false = some (sweep entries s, decide (sweep entries s ≠ s)) := by
  have hsettled : sweep entries (sweep entries s) = sweep entries s :=
    sweep_of_not_mem h.isWord (h.not_mem_sweep s)
  have hagain : settle entries n (sweep entries s) true = some (sweep entries s, true) := by
    rw [settle.eq_def]
    exact if_pos hsettled
  rw [settle]
  by_cases hs : sweep entries s = s
  · simp [hs]
  · simp [hs, hagain]

theorem exists_sweeps_eq (ds : Defines) : ∃ n, ds.sweeps = n + 1 := by
  refine Nat.exists_eq_succ_of_ne_zero ?_
  unfold sweeps defaultLimit
  split <;> omega

/-- One sweep expands a text, whatever the limit is. -/
theorem Ordered.expand_eq {entries : List Define} (h : Ordered entries) (limit : Int) (s : Bytes) :
    expand ⟨limit, entries⟩ s = .ok (sweep entries s, decide (sweep entries s ≠ s)) := by
  obtain ⟨n, hn⟩ := exists_sweeps_eq ⟨limit, entries⟩
  rw [expand, hn, settle_eq h]

end Defines

/-! ## One line -/

/-- A define is made with a replacement text that was expanded, and goes to the end of the table. -/
structure Defines.Gains (ds : Defines) (d : Define) (ds' : Defines) : Prop where
  isDefineKey : isDefineKey d.key = true
  expanded : ∃ text value changed, ds.expand text = .ok (value, changed) ∧ d.value = trim value
  eq_append : ds' = { ds with entries := ds.entries ++ [d] }

/-- A line makes at most one define. -/
theorem applyDefines_gains {site : Site} {ds ds' : Defines} {r : Reading}
    (h : (applyDefines site ds).result = .ok (r, ds')) : ds' = ds ∨ ∃ d, ds.Gains d ds' := by
  cases applyDefines_eq_ok.1 h with
  | define hdirective hparts hexpand hd hadd =>
    obtain ⟨hkey, rfl⟩ := Define.make_eq_ok.1 hd
    exact .inr ⟨_, hkey, ⟨_, _, _, hexpand, rfl⟩, (Defines.add_eq_ok.1 hadd).2⟩
  | inclusion | plain => exact .inl rfl

/-- Expansion is all that can be endless. -/
theorem expand_of_applyDefines {site : Site} {ds : Defines} {text : Bytes}
    (h : (applyDefines site ds).result = .error (.atLine site (.define (.endless text)))) :
    ds.expand text = .error (.endless text) := by
  have hexpand {s : Bytes} (h : ds.expand s = .error (.endless text)) :
      ds.expand text = .error (.endless text) := by
    obtain rfl : s = text := by
      unfold Defines.expand at h
      split at h
      · cases h
      · exact DefineError.endless.inj (Except.error.inj h)
    exact h
  unfold applyDefines at h
  simp only at h
  split at h
  · split at h
    · cases h
    · rename_i e hread
      obtain rfl : e = .endless text := Fault.define.inj (Error.atLine.inj (Except.error.inj h)).2
      unfold readDefine at hread
      rcases bind_eq_error.1 hread with hsplit | ⟨parts, -, hread⟩
      · simp only [Define.split] at hsplit
        split at hsplit <;> cases hsplit
      rcases bind_eq_error.1 hread with hfail | ⟨value, -, hread⟩
      · exact hexpand hfail
      rcases bind_eq_error.1 hread with hmake | ⟨d, -, hread⟩
      · unfold Define.make at hmake
        split at hmake <;> cases hmake
      rcases bind_eq_error.1 hread with hadd | ⟨ds', -, hread⟩
      · unfold Defines.add at hadd
        split at hadd <;> cases hadd
      · cases hread
  · cases h
  · split at h
    · cases h
    · rename_i e hread
      obtain rfl : e = .endless text := Fault.define.inj (Error.atLine.inj (Except.error.inj h)).2
      unfold readPlain at hread
      rcases bind_eq_error.1 hread with hfail | ⟨value, -, hread⟩
      · exact hexpand hfail
      · cases hread

/-! ## All lines -/

/-- Keys are words, and none stands in the replacement text of a later define unless a define stands
in its own. -/
structure Defines.Layered (ds : Defines) : Prop where
  isWord : ∀ d ∈ ds.entries, IsWord d.key
  ordered : (∀ d ∈ ds.entries, ¬d.Recurs) → Ordered ds.entries

namespace Defines

theorem layered_nil (limit : Int) : Layered ⟨limit, []⟩ :=
  ⟨by simp, fun _ => ⟨by simp, by simp, .nil⟩⟩

theorem Layered.gains {ds ds' : Defines} {d : Define} (h : ds.Layered) (hd : ds.Gains d ds') :
    ds'.Layered := by
  obtain ⟨hkey, ⟨text, value, changed, hexpand, hvalue⟩, rfl⟩ := hd
  have hwords : ∀ e ∈ ds.entries ++ [d], IsWord e.key :=
    List.forall_mem_append.2 ⟨h.isWord, by simpa using isWord_of_isDefineKey hkey⟩
  refine ⟨hwords, fun hself => ⟨hwords, hself, ?_⟩⟩
  have hordered := h.ordered (List.forall_mem_append.1 hself).1
  refine List.pairwise_append.2 ⟨hordered.later, List.pairwise_singleton _ _, ?_⟩
  intro e he d' hd'
  obtain rfl := List.mem_singleton.1 hd'
  obtain ⟨rfl, -⟩ := Prod.mk.inj (Except.ok.inj ((hordered.expand_eq _ text).symm.trans hexpand))
  rw [hvalue, words_trim]
  exact hordered.not_mem_sweep text e he

theorem keptByLines_layered : KeptByLines fun p => p.defines.Layered := by
  intro doc number raw p line q hline hp
  obtain ⟨r, ds, happly, -, -, rfl⟩ := readLine_eq_ok.1 hline
  obtain rfl | ⟨d, hd⟩ := applyDefines_gains happly
  · exact hp
  · exact hp.gains hd

end Defines

/-! ## Programs -/

/-- An error of a define is found at a line that reading comes to. -/
theorem Reads.exists_refuses {source : Option Source} {root s : Place} {r : Except Error Extent}
    {site : Site} {cause : DefineError} (hr : Reads source s r) (h : Reaches source root s)
    (he : r = .error (.atLine site (.define cause))) :
    ∃ last, Reaches source root last ∧ last.Refuses (.atLine site (.define cause)) := by
  induction hr with
  | done | tooLong => cases he
  | @refused s e hrefused => exact ⟨s, h, Except.error.inj he ▸ hrefused⟩
  | plain ht hi _ ih => exact ih (.next h ht hi) (map_eq_error.1 he)
  | missing | cycle => cases he
  | inner ht hi hc _ ih => exact ih (.into h ht hi hc) he
  | within ht hi hc hin _ _ ih => exact ih (.behind h ht hi hc hin) (map_eq_error.1 he)

theorem Place.Refuses.expand_eq {s : Place} {site : Site} {text : Bytes}
    (h : s.Refuses (.atLine site (.define (.endless text)))) :
    s.progress.defines.expand text = .error (.endless text) := by
  obtain ⟨raw, rest, -, hline⟩ := h
  rw [result_readLine] at hline
  rcases bind_eq_error.1 hline with hbare | ⟨⟨line, ds⟩, -, hline⟩
  · have happly := map_eq_error.1 hbare
    obtain ⟨cause, he⟩ := applyDefines_error happly
    obtain ⟨rfl, -⟩ := Error.atLine.inj he
    exact expand_of_applyDefines happly
  · simp only at hline
    split at hline
    · rename_i fault hfault
      obtain ⟨-, rfl⟩ := Error.atLine.inj (Except.error.inj hline)
      obtain ⟨_, _, hdup⟩ := enterLabels_error hfault
      cases hdup
    · cases hline

namespace Assembler

variable {asm : Assembler} {name text : Bytes}

theorem initialDefines_of_nil (h : asm.predefines = []) :
    asm.initialDefines = .ok ⟨asm.defineLimit, []⟩ := by
  simp [initialDefines, h, addDefines]

theorem ComesBy.layered (hp : asm.predefines = []) {s : Place} (h : asm.ComesBy name text s) :
    s.progress.defines.Layered := by
  obtain ⟨defines, hd, hreaches⟩ := h
  rw [initialDefines_of_nil hp] at hd
  obtain rfl := Except.ok.inj hd
  exact hreaches.kept Defines.keptByLines_layered (Defines.layered_nil _)

/-- An error of a define on a line is found while the program is read. -/
theorem exists_refuses_of_parse {site : Site} {cause : DefineError}
    (h : (asm.parse name text).result = .error (.atLine site (.define cause))) :
    ∃ s, asm.ComesBy name text s ∧ s.Refuses (.atLine site (.define cause)) := by
  rcases parse_error h with ⟨cause, he⟩ | ⟨defines, hd, hread | ⟨program, hresolved⟩⟩
  · cases he
  · rw [result_readProgram] at hread
    have hreads := (reads_iff (asm.opening_inReach name text defines)).2 (map_eq_error.1 hread)
    obtain ⟨s, hs, hrefuses⟩ := hreads.exists_refuses .refl rfl
    exact ⟨s, ⟨defines, hd, hs⟩, hrefuses⟩
  · rcases Assembly.resolved_error hresolved with ⟨l, -, offset, fault, hm, he⟩ | ⟨_, _, he⟩
    · obtain ⟨-, rfl⟩ := Error.atLine.inj he
      rcases Line.measure_error hm with ⟨_, _, hf⟩ | ⟨_, _, _, hf⟩ | ⟨_, _, hf⟩ <;> cases hf
    · cases he

/-- Reading a program comes by the defines it has in the end. -/
theorem exists_comesBy_of_parse {a : Assembly} {e : Option Error}
    (h : (asm.parse name text).result = .ok (a, e)) :
    ∃ s, asm.ComesBy name text s ∧ s.progress.defines = a.defines := by
  obtain ⟨defines, extent, hd, hreads, -, hdefines, -⟩ := exists_reads_of_parse h
  obtain ⟨s, hs, hprogress⟩ := hreads.exists_reaches .refl rfl
  exact ⟨s, ⟨defines, hd, hs⟩, by rw [hprogress, hdefines]⟩

/-- Wherever reading comes by in a program without predefines, a text is expanded in one sweep and
no key is left in it, unless a define stands in its own replacement text. Only such a define makes
an expansion endless. -/
theorem expand_eq_sweep {asm : Assembler} (hp : asm.predefines = []) (name text : Bytes) :
    (∀ s, asm.ComesBy name text s → (∀ d ∈ s.progress.defines.entries, ¬d.Recurs) →
      (∀ (i j : Nat) (d e : Define), i ≤ j → s.progress.defines.entries[i]? = some d →
        s.progress.defines.entries[j]? = some e → d.key ∉ words e.value) ∧
      ∀ (limit : Int) (t : Bytes),
        { s.progress.defines with limit }.expand t =
          .ok (Defines.sweep s.progress.defines.entries t,
            decide (Defines.sweep s.progress.defines.entries t ≠ t)) ∧
        ∀ d ∈ s.progress.defines.entries,
          d.key ∉ words (Defines.sweep s.progress.defines.entries t)) ∧
    ∀ site t, (asm.parse name text).result = .error (.atLine site (.define (.endless t))) →
      ∃ s, asm.ComesBy name text s ∧ s.Refuses (.atLine site (.define (.endless t))) ∧
        ∃ d ∈ s.progress.defines.entries, d.Recurs := by
  constructor
  · intro s hs hself
    have hordered := (hs.layered hp).ordered hself
    refine ⟨fun i j d e hij hd he => hordered.key_not_mem hij hd he, fun limit t => ⟨?_, ?_⟩⟩
    · exact hordered.expand_eq limit t
    · exact hordered.not_mem_sweep t
  · intro site t h
    obtain ⟨s, hs, hrefuses⟩ := exists_refuses_of_parse h
    refine ⟨s, hs, hrefuses, ?_⟩
    by_contra hself
    have hordered := (hs.layered hp).ordered fun d hd hrecurs => hself ⟨d, hd, hrecurs⟩
    cases (hordered.expand_eq _ t).symm.trans hrefuses.expand_eq

/-- An assembler that allows one sweep for a text. -/
def hastyAssembler : Assembler := { defineLimit := 1 }

/-- A key that stands in an earlier replacement text is taken out by the same sweep. A define that
stands in its own replacement text makes an expansion endless. -/
theorem sample_expand_eq_sweep :
    (∃ s, hastyAssembler.ComesBy "main" "#define A B+B\n#define B 2\nDAT A" s ∧
      s.progress.defines.entries.map (·.value) = ["B+B", "2"] ∧
      s.progress.defines.expand "A*B" = .ok ("2+2*2", true)) ∧
    ∃ s, hastyAssembler.ComesBy "main" "#define A (A)\nDAT A" s ∧
      ∃ d ∈ s.progress.defines.entries, d.Recurs := by
  have hp : hastyAssembler.predefines = [] := rfl
  constructor
  · have hdefines : ((hastyAssembler.parse "main"
        "#define A B+B\n#define B 2\nDAT A").result.map (·.1.defines)) =
          .ok ⟨1, [⟨"A", "B+B", some ⟨"main", 1, "#define A B+B"⟩⟩,
            ⟨"B", "2", some ⟨"main", 2, "#define B 2"⟩⟩]⟩ := by decide +kernel
    obtain ⟨⟨a, e⟩, ha, hdefines⟩ := map_eq_ok.1 hdefines
    obtain ⟨s, hs, heq⟩ := exists_comesBy_of_parse ha
    rw [hdefines] at heq
    obtain ⟨hsweep, -⟩ := expand_eq_sweep hp "main" "#define A B+B\n#define B 2\nDAT A"
    obtain ⟨-, hexpand⟩ := hsweep s hs (by rw [heq]; decide +kernel)
    have hlimit := (hexpand 1 "A*B").1
    rw [heq] at hlimit
    refine ⟨s, hs, by rw [heq]; rfl, ?_⟩
    rw [heq]
    exact hlimit.trans (by decide +kernel)
  · have hendless : ((hastyAssembler.parse "main" "#define A (A)\nDAT A").result.map fun _ => ()) =
        .error (.atLine ⟨"main", 2, "DAT A"⟩ (.define (.endless "DAT A"))) := by decide +kernel
    obtain ⟨-, hself⟩ := expand_eq_sweep hp "main" "#define A (A)\nDAT A"
    obtain ⟨s, hs, -, hrecurs⟩ := hself _ _ (map_eq_error.1 hendless)
    exact ⟨s, hs, hrecurs⟩

end Assembler

end Asm16
