import Asm16.Proofs.Applied
import Asm16.Proofs.Leading
import Asm16.Proofs.Scopes

/-!
# Lines wherever they stand

Where a line stands, its document and its number, is found in messages and in what they quote, and
decides nothing. Lines are compared without it (`Line.placeless`), and so are defines. Reading is
then the same after progress that is `Alike` : the same defines, the same scope and labels of the
same names (`readLine_alike`).

An include line makes no define, since a define line is never an include, whatever its replacement
text becomes (`applyDefines_defines_eq`). If it defines no label, it leaves the progress as it was
(`readLine_include_alike`).
-/

namespace Asm16

/-! ## Without the place -/

/-- A line apart from where it stands. -/
def Line.placeless (l : Line) : Line := { l with document := ⟨[], []⟩, number := 0 }

namespace Line

@[simp] theorem placeless_raw (l : Line) : l.placeless.raw = l.raw := rfl

@[simp] theorem placeless_tokens (l : Line) : l.placeless.tokens = l.tokens := rfl

@[simp] theorem placeless_directive (l : Line) : l.placeless.directive = l.directive := rfl

@[simp] theorem placeless_offset (l : Line) : l.placeless.offset = l.offset := rfl

@[simp] theorem placeless_measure (l : Line) (offset : Int) :
    l.placeless.measure offset = l.measure offset := rfl

@[simp] theorem placeless_encode (l : Line) : l.placeless.encode = l.encode := rfl

end Line

/-- A define apart from where it is made. -/
def Define.placeless (d : Define) : Define := { d with site := none }

/-- Defines apart from where they are made. -/
def Defines.placeless (ds : Defines) : Defines :=
  { ds with entries := ds.entries.map Define.placeless }

namespace Defines

theorem sweep_placeless (entries : List Define) (s : Bytes) :
    sweep (entries.map Define.placeless) s = sweep entries s := by
  rw [sweep, List.foldl_map]
  rfl

theorem settle_placeless (entries : List Define) (n : Nat) (s : Bytes) (changed : Bool) :
    settle (entries.map Define.placeless) n s changed = settle entries n s changed := by
  induction n generalizing s changed with
  | zero =>
    unfold settle
    simp only [sweep_placeless]
  | succ n ih =>
    unfold settle
    simp only [sweep_placeless, ih]

theorem expand_placeless (ds : Defines) (s : Bytes) : ds.placeless.expand s = ds.expand s := by
  unfold expand
  rw [show ds.placeless.entries = ds.entries.map Define.placeless from rfl, settle_placeless]
  rfl

theorem add_placeless (ds : Defines) (d : Define) :
    ds.placeless.add d.placeless = (ds.add d).map placeless := by
  have hfind : (ds.placeless.lookup? d.key).isSome = (ds.lookup? d.key).isSome := by
    simp [lookup?, placeless, List.find?_map, Function.comp_def, Define.placeless]
  unfold add
  rw [show d.placeless.key = d.key from rfl, hfind]
  split
  · rfl
  · simp [placeless, Except.map]

end Defines

section Alike

variable {ds ds₀ : Defines}

theorem expand_eq (h : ds₀.placeless = ds.placeless) (s : Bytes) : ds₀.expand s = ds.expand s := by
  rw [← Defines.expand_placeless, h, Defines.expand_placeless]

theorem exists_add {d d₀ : Define} {ds' : Defines} (h : ds₀.placeless = ds.placeless)
    (hd : d₀.placeless = d.placeless) (hadd : ds.add d = .ok ds') :
    ∃ ds₀', ds₀.add d₀ = .ok ds₀' ∧ ds₀'.placeless = ds'.placeless := by
  have hmap : (ds₀.add d₀).map Defines.placeless = .ok ds'.placeless := by
    rw [← Defines.add_placeless, h, hd, Defines.add_placeless, hadd]
    rfl
  exact map_eq_ok.1 hmap

theorem exists_make {key value : Bytes} {site : Option Site} {d : Define}
    (h : Define.make key value site = .ok d) (site₀ : Option Site) :
    ∃ d₀, Define.make key value site₀ = .ok d₀ ∧ d₀.placeless = d.placeless := by
  obtain ⟨hkey, rfl⟩ := Define.make_eq_ok.1 h
  exact ⟨_, Define.make_eq_ok.2 ⟨hkey, rfl⟩, rfl⟩

/-- A line is read alike wherever it stands. -/
theorem exists_applyDefines {site site₀ : Site} {r : Reading} {ds' : Defines}
    (h : ds₀.placeless = ds.placeless) (hraw : site₀.raw = site.raw)
    (happly : (applyDefines site ds).result = .ok (r, ds')) :
    ∃ ds₀', (applyDefines site₀ ds₀).result = .ok (r, ds₀') ∧
      ds₀'.placeless = ds'.placeless := by
  simp only [applyDefines_eq_ok] at happly ⊢
  cases happly with
  | define hdirective hparts hexpand hd hadd =>
    obtain ⟨d₀, hd₀, hdd⟩ := exists_make hd (some site₀)
    obtain ⟨ds₀', hadd₀, hds⟩ := exists_add h hdd hadd
    rw [← hraw] at hdirective ⊢
    exact ⟨ds₀', .define hdirective hparts (by rwa [expand_eq h]) hd₀ hadd₀, hds⟩
  | inclusion hdirective =>
    rw [← hraw] at hdirective ⊢
    exact ⟨ds₀, .inclusion hdirective, h⟩
  | plain hdefine hinclusion hexpand =>
    rw [← hraw] at hdefine hinclusion hexpand ⊢
    exact ⟨ds₀, .plain hdefine hinclusion (by rwa [expand_eq h]), h⟩

end Alike

/-! ## Define lines stay define lines -/

/-- With another replacement text a define line is still a define line. -/
theorem exists_directive_rewrite {raw word params : Bytes} {parts : Define.Parts}
    (hdirective : (Reading.ofText .initial raw).directive = some ⟨.define, word, params⟩)
    (hparts : Define.split params = .ok parts) :
    ∃ x y, raw = x ++ params ++ y ∧ params = Lexer.parametersOf (params ++ y) ∧
      (∀ c, y.head? = some c → isBlank c = true ∨ c = byte ';') ∧
      ∀ value, (Reading.ofText .reprocess (parts.rewrite raw params value)).directive =
        some ⟨.define, word, Lexer.parametersOf (parts.front ++ value ++ parts.back ++ y)⟩ := by
  have hcut := Define.cut_of_split hparts
  have hne : params ≠ [] := by
    rw [hcut.params_eq]
    simp [hcut.front_ne_nil]
  have hst : ({} : Lexer.State).stage = .line := rfl
  obtain ⟨x, ⟨⟨y, hraw, hy⟩, hagain⟩, hstart⟩ := Lexer.exists_leads hst hdirective hne
  refine ⟨x, y, hraw, ?_, hy, fun value => ?_⟩
  · have hsame := hagain (params ++ y) .initial 0 (Lexer.head?_of_ne_nil hne rfl y).symm
    rw [← List.append_assoc, ← hraw] at hsame
    exact congrArg Directive.params (Option.some.inj (hdirective.symm.trans hsame))
  · have hbase : parameterStart (lex .initial raw) = x.length := by
      rw [← Nat.zero_add x.length]
      exact hstart
    have htext : parts.rewrite raw params value =
        x ++ (parts.front ++ value ++ parts.back ++ y) := by
      have hy : (x ++ params ++ y).drop (x.length + params.length) = y := by
        rw [← List.length_append, List.drop_left]
      have hx : (x ++ params ++ y).take x.length = x := by
        rw [List.append_assoc, List.take_left]
      simp only [Define.Parts.rewrite, hbase]
      rw [hraw, hx, hy]
      simp only [List.append_assoc]
    rw [htext]
    refine hagain _ .reprocess 0 ?_
    rw [hcut.params_eq]
    cases hf : parts.front with
    | nil => exact absurd hf hcut.front_ne_nil
    | cons c more => rfl

/-- An include line makes no define. -/
theorem applyDefines_defines_eq {site : Site} {ds ds' : Defines} {r : Reading}
    (h : (applyDefines site ds).result = .ok (r, ds')) (hi : included? r.directive ≠ none) :
    ds' = ds := by
  cases applyDefines_eq_ok.1 h with
  | @define word params value parts changed d ds' hdirective hparts hexpand hd hadd =>
    obtain ⟨-, y, -, -, -, hrewrite⟩ := exists_directive_rewrite hdirective hparts
    refine absurd ?_ hi
    cases changed with
    | false =>
      rw [Reading.rewritten, if_neg Bool.false_ne_true, hdirective]
      rfl
    | true =>
      rw [Reading.rewritten, if_pos rfl, hrewrite]
      rfl
  | inclusion | plain => rfl

/-! ## Progress -/

/-- What the next lines find is the same. -/
structure Progress.Alike (p q : Progress) : Prop where
  defines_eq : p.defines.placeless = q.defines.placeless
  scope_eq : p.scope = q.scope
  caseFold_eq : p.symbols.caseFold = q.symbols.caseFold
  names_eq : p.symbols.labels.map (·.name) = q.symbols.labels.map (·.name)

/-- Whether names clash is decided by the names alone. -/
theorem clash?_eq_none_congr {key : Bytes → Bytes} {known known' labels labels' : List Label}
    (hknown : known.map (·.name) = known'.map (·.name))
    (hlabels : labels.map (·.name) = labels'.map (·.name)) (h : clash? key known labels = none) :
    clash? key known' labels' = none := by
  induction labels generalizing known known' labels' with
  | nil =>
    obtain rfl : labels' = [] := by simpa using hlabels.symm
    rfl
  | cons l rest ih =>
    obtain ⟨l', rest', rfl, hl, hrest⟩ : ∃ l' rest', labels' = l' :: rest' ∧ l.name = l'.name ∧
        rest.map (·.name) = rest'.map (·.name) := by
      cases labels' with
      | nil => cases hlabels
      | cons l' rest' =>
        obtain ⟨hl, hrest⟩ := List.cons.inj hlabels
        exact ⟨l', rest', rfl, hl, hrest⟩
    have hfind (known : List Label) : (known.find? fun m => key m.name == key l.name) = none ↔
        ∀ n ∈ known.map (·.name), key n ≠ key l.name := by
      simp
    rw [clash?] at h
    split at h
    · cases h
    · rename_i hnone
      rw [clash?, ← hl, (hfind known').2 (hknown ▸ (hfind known).1 hnone)]
      refine ih ?_ hrest h
      rw [List.map_append, List.map_append, hknown, List.map_singleton, List.map_singleton, hl]

theorem enterLabels_eq_ok {site : Site} {index : Nat} {symbols : SymbolTable} {scope : Bytes}
    {ts : List Token} {r : List Token × SymbolTable × Bytes} :
    enterLabels site index symbols scope ts = .ok r ↔
      clash? symbols.key symbols.labels (definitionsOf site index (nameTokens scope ts)) = none ∧
        r = (nameTokens scope ts, symbols.extend (definitionsOf site index (nameTokens scope ts))
          (usesOf site (nameTokens scope ts)), scopeAfter scope ts) := by
  rw [enterLabels_eq, SymbolTable.enter]
  cases clash? symbols.key symbols.labels (definitionsOf site index (nameTokens scope ts)) with
  | none => simp [Except.map, eq_comm]
  | some pair => simp [Except.map]

theorem map_name_definitionsOf (site : Site) (index : Nat) (ts : List Token) :
    (definitionsOf site index ts).map (·.name) =
      (ts.filter (·.kind == .labelDef)).map (·.symbol) := by
  simp [definitionsOf, Function.comp_def]

section Lines

variable {doc : Document} {number : Nat} {raw : Bytes} {p p₀ q : Progress} {l : Line}

/-- Reading a line : defines are applied to it, its labels get their full names, and none of them is
known yet. -/
theorem readLine_eq_ok : (readLine doc number raw p).result = .ok (l, q) ↔
    ∃ r ds, (applyDefines ⟨doc.name, number, raw⟩ p.defines).result = .ok (r, ds) ∧
      clash? p.symbols.key p.symbols.labels (definitionsOf ⟨doc.name, number, raw⟩ p.count
        (nameTokens p.scope r.tokens)) = none ∧
      l = ⟨doc, number, raw, r.text, nameTokens p.scope r.tokens, r.directive, 0, 0, none⟩ ∧
      q = ⟨ds, p.symbols.extend
          (definitionsOf ⟨doc.name, number, raw⟩ p.count (nameTokens p.scope r.tokens))
          (usesOf ⟨doc.name, number, raw⟩ (nameTokens p.scope r.tokens)),
        scopeAfter p.scope r.tokens, p.count + 1, p.lexErrors ++ l.lexErrors⟩ := by
  have hlex (r : Reading) : (⟨doc, number, raw, r.text, nameTokens p.scope r.tokens, r.directive,
        0, 0, none⟩ : Line).lexErrors =
      (⟨doc, number, raw, r.text, r.tokens, r.directive, 0, 0, none⟩ : Line).lexErrors :=
    Line.lexErrors_nameTokens p.scope ⟨doc, number, raw, r.text, r.tokens, r.directive, 0, 0, none⟩
  rw [result_readLine, bareLine]
  constructor
  · intro h
    obtain ⟨⟨line, ds⟩, hbare, h⟩ := bind_eq_ok.1 h
    obtain ⟨⟨r, ds'⟩, happly, hline⟩ := map_eq_ok.1 hbare
    obtain ⟨rfl, rfl⟩ := Prod.mk.inj hline
    simp only at h
    split at h
    · cases h
    · rename_i tokens symbols scope henter
      obtain ⟨hclash, hresult⟩ := enterLabels_eq_ok.1 henter
      cases hresult
      obtain ⟨rfl, rfl⟩ := Prod.mk.inj (Except.ok.inj h)
      refine ⟨r, _, happly, hclash, rfl, ?_⟩
      rw [hlex]
      rfl
  · rintro ⟨r, ds, happly, hclash, rfl, rfl⟩
    rw [happly]
    simp only [Except.map, ok_bind, Line.site, enterLabels_eq_ok.2 ⟨hclash, rfl⟩]
    rw [hlex]
    rfl

/-- After progress that is alike a line is read alike, wherever it stands. -/
theorem readLine_alike (h : p₀.Alike p) (hread : (readLine doc number raw p).result = .ok (l, q))
    (doc₀ : Document) (number₀ : Nat) :
    ∃ l₀ q₀, (readLine doc₀ number₀ raw p₀).result = .ok (l₀, q₀) ∧
      l₀.placeless = l.placeless ∧ q₀.Alike q := by
  obtain ⟨r, ds, happly, hclash, rfl, rfl⟩ := readLine_eq_ok.1 hread
  have hraw : (⟨doc₀.name, number₀, raw⟩ : Site).raw = (⟨doc.name, number, raw⟩ : Site).raw := rfl
  obtain ⟨ds₀, happly₀, hds⟩ := exists_applyDefines h.defines_eq hraw happly
  have hkey : p₀.symbols.key = p.symbols.key := by
    funext n
    simp only [SymbolTable.key, h.caseFold_eq]
  have hclash₀ : clash? p₀.symbols.key p₀.symbols.labels (definitionsOf ⟨doc₀.name, number₀, raw⟩
      p₀.count (nameTokens p₀.scope r.tokens)) = none := by
    rw [hkey, h.scope_eq]
    refine clash?_eq_none_congr h.names_eq.symm ?_ hclash
    rw [map_name_definitionsOf, map_name_definitionsOf]
  refine ⟨_, _, readLine_eq_ok.2 ⟨r, ds₀, happly₀, hclash₀, rfl, rfl⟩, ?_, hds, ?_,
    h.caseFold_eq, ?_⟩
  · simp only [Line.placeless, h.scope_eq]
  · rw [h.scope_eq]
  · simp only [SymbolTable.extend_labels, List.map_append, map_name_definitionsOf, h.names_eq,
      h.scope_eq]

theorem exists_mem_nameTokens {scope : Bytes} {ts : List Token} {t : Token} (ht : t ∈ ts) :
    ∃ u ∈ nameTokens scope ts, u.kind = t.kind := by
  have hmem : t.bare ∈ (nameTokens scope ts).map Token.bare := by
    rw [map_bare_nameTokens]
    exact List.mem_map_of_mem ht
  obtain ⟨u, hu, hbare⟩ := List.mem_map.1 hmem
  exact ⟨u, hu, by rw [← Token.bare_kind, hbare, Token.bare_kind]⟩

/-- An include line without label definitions leaves the progress as it was. -/
theorem readLine_include_alike (h : p₀.Alike p)
    (hread : (readLine doc number raw p).result = .ok (l, q)) (hi : included? l.directive ≠ none)
    (hl : ∀ t ∈ l.tokens, t.kind ≠ .labelDef) : p₀.Alike q := by
  obtain ⟨r, ds, happly, -, rfl, rfl⟩ := readLine_eq_ok.1 hread
  obtain rfl := applyDefines_defines_eq happly hi
  have hdefinitions : (nameTokens p.scope r.tokens).filter (·.kind == .labelDef) = [] := by
    refine List.filter_eq_nil_iff.2 fun t ht => ?_
    simpa using hl t ht
  have hopens : r.tokens.filter Token.opensScope = [] := by
    refine List.filter_eq_nil_iff.2 fun t ht hopens => ?_
    obtain ⟨u, hu, hkind⟩ := exists_mem_nameTokens ht
    have hdef : t.kind = .labelDef := beq_iff_eq.1 (Bool.and_eq_true_iff.1 hopens).1
    exact hl u hu (hkind.trans hdef)
  refine ⟨h.defines_eq, ?_, h.caseFold_eq, ?_⟩
  · simp only [scopeAfter_eq, hopens, h.scope_eq]
    rfl
  · simp only [SymbolTable.extend_labels, List.map_append, map_name_definitionsOf, hdefinitions,
      List.map_nil, List.append_nil, h.names_eq]

end Lines

end Asm16
