import Asm16.Proofs.Lexing

/-!
# What the defines make of a line

A define line gets its replacement text expanded and adds a define, an include line stays as it is
written, and any other line is expanded as a whole. `Applied` has a case for each, with all that is
found on the way, and `applyDefines_eq_ok` says that these are the lines that are not refused.
-/

namespace Asm16

/-! ## The parameters of a define -/

namespace Define

/-- The key at the front of the parameters, behind white space. -/
def keyOf (params : Bytes) : Bytes := (params.dropWhile isGap).takeWhile isWordByte

/-- All of the parameters behind the key. -/
def textOf (params : Bytes) : Bytes := (params.dropWhile isGap).dropWhile isWordByte

/-- The replacement text ends before such a byte, inside quotes as well as outside. -/
def isBreak (c : UInt8) : Bool := c = byte ';' || c = byte '\r' || c = byte '\n'

/-- Where the parameters are cut. -/
structure Cut (params : Bytes) (parts : Parts) : Prop where
  isDefineKey : isDefineKey parts.key = true
  key_eq : parts.key = keyOf params
  front_eq : parts.front = params.takeWhile isGap ++ parts.key ++ (textOf params).takeWhile isGap
  text_eq : (textOf params).dropWhile isGap = parts.value ++ parts.back
  value_eq : ∃ blank, ((textOf params).dropWhile isGap).takeWhile (!isBreak ·) =
    parts.value ++ blank ∧ ∀ c ∈ blank, isBlank c = true

theorem cut_of_split {params : Bytes} {parts : Parts} (h : split params = .ok parts) :
    Cut params parts := by
  have hdrop : (params.dropWhile isGap).drop
      ((params.dropWhile isGap).takeWhile isWordByte).length = textOf params :=
    List.append_cancel_left ((List.prefix_iff_eq_append.1 (List.takeWhile_prefix isWordByte)).trans
      List.takeWhile_append_dropWhile.symm)
  have hbreak : (fun c => c != byte ';' && c != byte '\r' && c != byte '\n') = (!isBreak ·) := by
    funext c
    grind [isBreak]
  simp only [split, hdrop, hbreak] at h
  split at h
  · rename_i hkey
    obtain rfl := Except.ok.inj h
    obtain ⟨blank, hblank, hb⟩ := Lexer.exists_dropEnd_append
      (fun c => c = byte ' ' || c = byte '\t')
      (((textOf params).dropWhile isGap).takeWhile (!isBreak ·))
    refine ⟨hkey, rfl, rfl, ?_, blank, hblank, fun c hc => ?_⟩
    · exact (List.prefix_iff_eq_append.1
        ((Lexer.isPrefix_dropEnd _ _).trans (List.takeWhile_prefix _))).symm
    · rcases by simpa using hb c hc with rfl | rfl <;> rfl
  · cases h

/-- The parts are all of the parameters. -/
theorem Cut.params_eq {params : Bytes} {parts : Parts} (h : Cut params parts) :
    params = parts.front ++ parts.value ++ parts.back := by
  rw [h.front_eq, List.append_assoc, ← h.text_eq, List.append_assoc, List.append_assoc,
    List.takeWhile_append_dropWhile, h.key_eq, keyOf, textOf, List.takeWhile_append_dropWhile,
    List.takeWhile_append_dropWhile]

theorem Cut.front_ne_nil {params : Bytes} {parts : Parts} (h : Cut params parts) :
    parts.front ≠ [] := by
  intro hnil
  rw [h.front_eq] at hnil
  simp only [List.append_eq_nil_iff] at hnil
  have := h.isDefineKey
  rw [hnil.1.2] at this
  cases this

end Define

/-! ## Lines -/

theorem Define.make_eq_ok {key value : Bytes} {site : Option Site} {d : Define} :
    make key value site = .ok d ↔ isDefineKey key = true ∧ d = ⟨key, trim value, site⟩ := by
  unfold make
  split
  · rename_i hkey
    simp [hkey, eq_comm]
  · rename_i hkey
    simp [hkey]

theorem Defines.add_eq_ok {ds ds' : Defines} {d : Define} : ds.add d = .ok ds' ↔
    (∀ e ∈ ds.entries, e.key ≠ d.key) ∧ ds' = { ds with entries := ds.entries ++ [d] } := by
  have hnone : (ds.lookup? d.key).isSome = false ↔ ∀ e ∈ ds.entries, e.key ≠ d.key := by
    simp [lookup?]
  unfold add
  rw [← hnone]
  cases (ds.lookup? d.key).isSome <;> simp [eq_comm]

/-- A line as it is written or, if that has changed, as it has become. -/
def Reading.rewritten (raw text : Bytes) (changed : Bool) : Reading :=
  if changed then .ofText .reprocess text else .ofText .initial raw

/-- The text of a define line after its replacement text has become `value`. -/
def Define.Parts.rewrite (parts : Parts) (raw params value : Bytes) : Bytes :=
  let base := parameterStart (lex .initial raw)
  raw.take base ++ parts.front ++ value ++ parts.back ++ raw.drop (base + params.length)

theorem readDefine_eq_ok {site : Site} {ds ds' : Defines} {params : Bytes} {r : Reading}
    {d : Define} :
    readDefine site ds (.ofText .initial site.raw) params = .ok (r, ds', d) ↔
      ∃ parts value changed, Define.split params = .ok parts ∧
        ds.expand parts.value = .ok (value, changed) ∧
        Define.make parts.key value (some site) = .ok d ∧ ds.add d = .ok ds' ∧
        r = .rewritten site.raw (parts.rewrite site.raw params value) changed := by
  unfold readDefine
  constructor
  · intro h
    obtain ⟨parts, hparts, h⟩ := bind_eq_ok.1 h
    obtain ⟨⟨value, changed⟩, hexpand, h⟩ := bind_eq_ok.1 h
    obtain ⟨d', hd, h⟩ := bind_eq_ok.1 h
    obtain ⟨ds'', hadd, h⟩ := bind_eq_ok.1 h
    obtain ⟨rfl, rfl, rfl⟩ := by simpa only [Except.ok.injEq, Prod.mk.injEq] using h
    exact ⟨parts, value, changed, hparts, hexpand, hd, hadd, rfl⟩
  · rintro ⟨parts, value, changed, hparts, hexpand, hd, hadd, rfl⟩
    simp only [hparts, hexpand, hd, hadd, ok_bind]
    rfl

theorem readPlain_eq_ok {ds : Defines} {raw : Bytes} {r : Reading} :
    readPlain ds (.ofText .initial raw) = .ok r ↔
      ∃ text changed, ds.expand raw = .ok (text, changed) ∧ r = .rewritten raw text changed := by
  unfold readPlain
  constructor
  · intro h
    obtain ⟨⟨text, changed⟩, hexpand, h⟩ := bind_eq_ok.1 h
    exact ⟨text, changed, hexpand, (Except.ok.inj h).symm⟩
  · rintro ⟨text, changed, hexpand, rfl⟩
    exact bind_eq_ok.2 ⟨(text, changed), hexpand, rfl⟩

/-- What is found in a line, and the defines after it. -/
inductive Applied (site : Site) (ds : Defines) : Reading → Defines → Prop
  | define {word params value : Bytes} {parts : Define.Parts} {changed : Bool} {d : Define}
      {ds' : Defines}
      (hdirective : (Reading.ofText .initial site.raw).directive = some ⟨.define, word, params⟩)
      (hparts : Define.split params = .ok parts)
      (hexpand : ds.expand parts.value = .ok (value, changed))
      (hd : Define.make parts.key value (some site) = .ok d) (hadd : ds.add d = .ok ds') :
      Applied site ds (.rewritten site.raw (parts.rewrite site.raw params value) changed) ds'
  | inclusion {word params : Bytes}
      (hdirective :
        (Reading.ofText .initial site.raw).directive = some ⟨.inclusion, word, params⟩) :
      Applied site ds (.ofText .initial site.raw) ds
  | plain {text : Bytes} {changed : Bool}
      (hdefine : (Reading.ofText .initial site.raw).directive.map (·.kind) ≠ some .define)
      (hinclusion : (Reading.ofText .initial site.raw).directive.map (·.kind) ≠ some .inclusion)
      (hexpand : ds.expand site.raw = .ok (text, changed)) :
      Applied site ds (.rewritten site.raw text changed) ds

/-- The lines that are not refused. -/
theorem applyDefines_eq_ok {site : Site} {ds ds' : Defines} {r : Reading} :
    (applyDefines site ds).result = .ok (r, ds') ↔ Applied site ds r ds' := by
  unfold applyDefines
  constructor
  · intro h
    simp only at h
    split at h
    · rename_i word params hdirective
      cases hread : readDefine site ds (.ofText .initial site.raw) params with
      | error e => simp [hread] at h
      | ok t =>
        obtain ⟨rfl, rfl⟩ : t.1 = r ∧ t.2.1 = ds' := by simpa [hread] using h
        obtain ⟨parts, value, changed, hparts, hexpand, hd, hadd, hr⟩ := readDefine_eq_ok.1 hread
        rw [hr]
        exact .define hdirective hparts hexpand hd hadd
    · rename_i hdirective
      obtain ⟨rfl, rfl⟩ := Prod.mk.inj (Except.ok.inj h)
      exact .inclusion hdirective
    · rename_i hdefine hinclusion
      cases hread : readPlain ds (.ofText .initial site.raw) with
      | error e => simp [hread] at h
      | ok r' =>
        obtain ⟨rfl, rfl⟩ : r' = r ∧ ds = ds' := by simpa [hread] using h
        obtain ⟨text, changed, hexpand, rfl⟩ := readPlain_eq_ok.1 hread
        refine .plain ?_ ?_ hexpand
        · intro hk
          obtain ⟨⟨kind, word, params⟩, hd, rfl⟩ := Option.map_eq_some_iff.1 hk
          exact hdefine word params hd
        · intro hk
          obtain ⟨⟨kind, word, params⟩, hd, rfl⟩ := Option.map_eq_some_iff.1 hk
          exact hinclusion word params hd
  · intro h
    cases h with
    | define hdirective hparts hexpand hd hadd =>
      simp only [hdirective, readDefine_eq_ok.2 ⟨_, _, _, hparts, hexpand, hd, hadd, rfl⟩]
    | inclusion hdirective =>
      simp only [hdirective]
      rfl
    | plain hdefine hinclusion hexpand =>
      simp only
      split
      · rename_i hdirective
        rw [hdirective] at hdefine
        exact absurd rfl hdefine
      · rename_i hdirective
        rw [hdirective] at hinclusion
        exact absurd rfl hinclusion
      · rw [readPlain_eq_ok.2 ⟨_, _, hexpand, rfl⟩]
        rfl

namespace Applied

variable {site : Site} {ds ds' : Defines} {r : Reading}

theorem of_define {word params : Bytes} (h : Applied site ds r ds')
    (hdirective : (Reading.ofText .initial site.raw).directive = some ⟨.define, word, params⟩) :
    ∃ parts value changed, Define.split params = .ok parts ∧
      ds.expand parts.value = .ok (value, changed) ∧
      r = .rewritten site.raw (parts.rewrite site.raw params value) changed ∧
      ds' = { ds with entries := ds.entries ++ [⟨parts.key, trim value, some site⟩] } := by
  cases h with
  | @define _ params' value parts changed _ _ hdefine hparts hexpand hd hadd =>
    obtain ⟨-, -, rfl⟩ := Directive.mk.inj (Option.some.inj (hdirective.symm.trans hdefine))
    obtain ⟨-, rfl⟩ := Define.make_eq_ok.1 hd
    exact ⟨parts, value, changed, hparts, hexpand, rfl, (Defines.add_eq_ok.1 hadd).2⟩
  | inclusion hinclusion => cases hinclusion.symm.trans hdirective
  | plain hdefine => exact absurd (by rw [hdirective]; rfl) hdefine

end Applied

end Asm16
