import Asm16.Command.Run
import Asm16.Proofs.Applied
import Mathlib.Data.List.Nodup

/-!
# Defines made before any source is read

The defines of the settings and those of the options are maps, and so are the ones an assembler has
been given : the entries of a map have no order of their own. `Enumerates` says which lists are a
map gone through in some order. Any two of them are permutations of each other
(`Enumerates.perm_iff`), and no two entries have the same key, so sorted by their keys they are one
list (`Enumerates.mergeSort_eq`).

That list decides the table a program starts with. Sorted keys are refused in the order of their
bytes, so the least key that is no name is the one in the error (`exists_least_invalid`); without
such a key there is a define for each key, since none comes twice (`exists_isTable`). The orders of
the maps do not show in the table, nor in anything that is read or assembled with it
(`Command.predefines_independent_of_order`).
-/

namespace Asm16

/-! ## Byte order -/

namespace Bytes

/-- Byte order is the lexicographic one. -/
theorem le_iff {s t : Bytes} : le s t = true ↔ List.le s t := by
  induction s generalizing t with
  | nil => exact iff_of_true rfl (List.nil_le t)
  | cons a s ih =>
    cases t with
    | nil => exact iff_of_false (by simp [le]) (by simp)
    | cons b t =>
      refine Iff.trans ?_ List.cons_le_cons_iff.symm
      rw [le]
      by_cases h : a = b
      · simpa [h] using ih
      · simp [h]

theorem le_refl (s : Bytes) : le s s = true := le_iff.2 (List.le_refl s)

theorem le_trans {s t u : Bytes} (h : le s t = true) (h' : le t u = true) : le s u = true :=
  le_iff.2 (List.le_trans (le_iff.1 h) (le_iff.1 h'))

theorem le_antisymm {s t : Bytes} (h : le s t = true) (h' : le t s = true) : s = t :=
  List.le_antisymm (le_iff.1 h) (le_iff.1 h')

theorem le_total (s t : Bytes) : (le s t || le t s) = true := by
  rw [Bool.or_eq_true, le_iff, le_iff]
  exact List.le_total s t

end Bytes

theorem pairwise_mergeSort (pairs : List (Bytes × Bytes)) :
    (pairs.mergeSort fun x y => Bytes.le x.1 y.1).Pairwise fun x y => Bytes.le x.1 y.1 = true := by
  have htrans : ∀ x y z : Bytes × Bytes, Bytes.le x.1 y.1 = true → Bytes.le y.1 z.1 = true →
      Bytes.le x.1 z.1 = true := fun _ _ _ => Bytes.le_trans
  exact List.pairwise_mergeSort htrans (fun x y => Bytes.le_total x.1 y.1) pairs

/-! ## Maps and the orders of their entries -/

/-- The value a key is given last. -/
def lastValue? (pairs : List (Bytes × Bytes)) (key : Bytes) : Option Bytes :=
  pairs.reverse.lookup key

/-- A map gone through in some order. The map is made by giving the values of `pairs` to their keys,
one after another : every key stands there once, with the value it is given last. -/
structure Enumerates (pairs order : List (Bytes × Bytes)) : Prop where
  nodup : (order.map Prod.fst).Nodup
  mem_iff : ∀ key value, (key, value) ∈ order ↔ lastValue? pairs key = some value

theorem enumerates_nil : Enumerates [] [] := ⟨List.nodup_nil, by simp [lastValue?]⟩

theorem lastValue?_append (pairs more : List (Bytes × Bytes)) (key : Bytes) :
    lastValue? (pairs ++ more) key = (lastValue? more key).or (lastValue? pairs key) := by
  rw [lastValue?, List.reverse_append, List.lookup_append]
  rfl

theorem lastValue?_singleton (key value k : Bytes) :
    lastValue? [(key, value)] k = if k = key then some value else none := by
  by_cases hk : k = key
  · simp [lastValue?, hk]
  · have hne : (k == key) = false := beq_eq_false_iff_ne.2 hk
    simp [lastValue?, List.lookup_cons, hne, hk]

/-- If no key is given a value twice, each has the one value that it is given. -/
theorem lastValue?_eq_some {order : List (Bytes × Bytes)} (h : (order.map Prod.fst).Nodup)
    {key value : Bytes} : lastValue? order key = some value ↔ (key, value) ∈ order := by
  rw [lastValue?, List.lookup_eq_some_iff, ← List.mem_reverse]
  constructor
  · rintro ⟨front, back, heq, -⟩
    simp [heq]
  · intro hmem
    obtain ⟨front, back, heq⟩ := List.append_of_mem hmem
    refine ⟨front, back, heq, fun p hp => bne_iff_ne.2 ?_⟩
    rintro rfl
    -- another entry with the key would be a second one
    have hnodup : (order.reverse.map Prod.fst).Nodup := by
      rwa [List.map_reverse, List.nodup_reverse]
    rw [heq, List.map_append, List.nodup_append] at hnodup
    exact hnodup.2.2 p.1 (List.mem_map_of_mem hp) p.1 (by simp) rfl

namespace Enumerates

variable {pairs pairs' order order' : List (Bytes × Bytes)}

theorem congr (h : Enumerates pairs order)
    (heq : ∀ key, lastValue? pairs key = lastValue? pairs' key) : Enumerates pairs' order :=
  ⟨h.nodup, fun key value => by rw [h.mem_iff, heq]⟩

theorem lastValue?_eq (h : Enumerates pairs order) (key : Bytes) :
    lastValue? order key = lastValue? pairs key := by
  ext value
  rw [lastValue?_eq_some h.nodup, h.mem_iff]

/-- One map after another, in whatever orders, gives the keys the values they have in the end. -/
theorem lastValue?_append_eq (h : Enumerates pairs order) (h' : Enumerates pairs' order')
    (key : Bytes) : lastValue? (order ++ order') key = lastValue? (pairs ++ pairs') key := by
  rw [lastValue?_append, lastValue?_append, h.lastValue?_eq, h'.lastValue?_eq]

theorem isSome_iff (h : Enumerates pairs order) {key : Bytes} :
    (lastValue? pairs key).isSome = true ↔ ∃ p ∈ order, p.1 = key := by
  rw [Option.isSome_iff_exists]
  constructor
  · rintro ⟨value, hvalue⟩
    exact ⟨(key, value), (h.mem_iff key value).2 hvalue, rfl⟩
  · rintro ⟨⟨key, value⟩, hp, rfl⟩
    exact ⟨value, (h.mem_iff key value).1 hp⟩

/-- The orders of a map are the permutations of one of them. -/
theorem perm_iff (h : Enumerates pairs order) : Enumerates pairs order' ↔ order'.Perm order := by
  constructor
  · intro h'
    refine (List.perm_ext_iff_of_nodup h'.nodup.of_map h.nodup.of_map).2 ?_
    rintro ⟨key, value⟩
    rw [h'.mem_iff, h.mem_iff]
  · intro hperm
    refine ⟨(hperm.map Prod.fst).nodup_iff.2 h.nodup, fun key value => ?_⟩
    rw [hperm.mem_iff, h.mem_iff]

/-- In whatever order a map is gone through, its entries sorted by their keys are the same. -/
theorem mergeSort_eq (h : Enumerates pairs order) (h' : Enumerates pairs order') :
    order.mergeSort (fun x y => Bytes.le x.1 y.1) =
      order'.mergeSort (fun x y => Bytes.le x.1 y.1) := by
  have hperm : order.Perm order' := h'.perm_iff.1 h
  refine List.Perm.eq_of_pairwise (fun x y hx hy hxy hyx => ?_) (pairwise_mergeSort order)
    (pairwise_mergeSort order')
    (((List.mergeSort_perm order _).trans hperm).trans (List.mergeSort_perm order' _).symm)
  have hx' : x ∈ order' := hperm.mem_iff.1 (List.mem_mergeSort.1 hx)
  exact List.inj_on_of_nodup_map h'.nodup hx' (List.mem_mergeSort.1 hy) (Bytes.le_antisymm hxy hyx)

end Enumerates

namespace Assembler

/-! ## Making defines one after another -/

/-- Makes some defines, a later one in place of an earlier one with its key. -/
def predefineAll (a : Assembler) (pairs : List (Bytes × Bytes)) : Assembler :=
  pairs.foldl (fun a (key, value) => a.predefine key value) a

theorem enumerates_predefine {pairs : List (Bytes × Bytes)} {a : Assembler}
    (h : Enumerates pairs a.predefines) (key value : Bytes) :
    Enumerates (pairs ++ [(key, value)]) (a.predefine key value).predefines where
  nodup := by
    simp only [predefine, List.map_append, List.map_singleton, List.nodup_append]
    refine ⟨(List.filter_sublist.map Prod.fst).nodup h.nodup, List.nodup_singleton key, ?_⟩
    intro k hk k' hk'
    obtain rfl := List.mem_singleton.1 hk'
    obtain ⟨p, hp, rfl⟩ := List.mem_map.1 hk
    exact bne_iff_ne.1 (List.mem_filter.1 hp).2
  mem_iff k v := by
    rw [lastValue?_append, lastValue?_singleton, predefine, List.mem_append, List.mem_singleton,
      List.mem_filter, h.mem_iff]
    by_cases hk : k = key
    · simp [hk, eq_comm]
    · simp [hk]

theorem enumerates_predefineAll {pairs : List (Bytes × Bytes)} {a : Assembler}
    (h : Enumerates pairs a.predefines) (more : List (Bytes × Bytes)) :
    Enumerates (pairs ++ more) (a.predefineAll more).predefines := by
  induction more generalizing pairs a with
  | nil => rwa [List.append_nil]
  | cons pair more ih =>
    have hstep := ih (enumerates_predefine h pair.1 pair.2)
    rwa [List.append_assoc, List.singleton_append] at hstep

theorem exists_enumerates (pairs : List (Bytes × Bytes)) : ∃ order, Enumerates pairs order := by
  have h := enumerates_predefineAll (a := {}) enumerates_nil pairs
  exact ⟨_, h⟩

/-- Making defines changes nothing else about an assembler. -/
theorem predefineAll_eq (a : Assembler) (pairs : List (Bytes × Bytes)) :
    a.predefineAll pairs = { a with predefines := (a.predefineAll pairs).predefines } := by
  induction pairs generalizing a with
  | nil => rfl
  | cons pair pairs ih => exact ih (a.predefine pair.1 pair.2)

/-! ## The table a program starts with -/

theorem addDefines_append (ds : Defines) (pairs more : List (Bytes × Bytes)) :
    addDefines ds (pairs ++ more) = addDefines ds pairs >>= fun ds => addDefines ds more := by
  induction pairs generalizing ds with
  | nil => rfl
  | cons pair pairs ih =>
    rw [List.cons_append, addDefines, addDefines]
    cases Define.make pair.1 pair.2 with
    | error e => rfl
    | ok d =>
      simp only [ok_bind]
      cases ds.add d with
      | error e => rfl
      | ok ds' => exact ih ds'

theorem addDefines_of_valid {ds : Defines} {pairs : List (Bytes × Bytes)}
    (hvalid : ∀ p ∈ pairs, isDefineKey p.1 = true)
    (hnodup : (ds.entries.map Define.key ++ pairs.map Prod.fst).Nodup) : addDefines ds pairs =
      .ok { ds with entries := ds.entries ++ pairs.map fun p => ⟨p.1, trim p.2, none⟩ } := by
  induction pairs generalizing ds with
  | nil => rw [addDefines, List.map_nil, List.append_nil]
  | cons pair pairs ih =>
    obtain ⟨key, value⟩ := pair
    obtain ⟨hkey, hvalid⟩ := List.forall_mem_cons.1 hvalid
    have hmake : Define.make key value = .ok ⟨key, trim value, none⟩ :=
      Define.make_eq_ok.2 ⟨hkey, rfl⟩
    have hadd : ds.add ⟨key, trim value, none⟩ =
        .ok { ds with entries := ds.entries ++ [⟨key, trim value, none⟩] } := by
      refine Defines.add_eq_ok.2 ⟨fun e he heq => ?_, rfl⟩
      rw [List.nodup_append] at hnodup
      exact hnodup.2.2 e.key (List.mem_map_of_mem he) key (by simp) heq
    rw [addDefines, hmake, ok_bind, hadd, ok_bind, ih hvalid (by simpa using hnodup),
      List.map_cons, List.append_assoc, List.singleton_append]

/-- The first key that is no name is the one in the error. -/
theorem addDefines_of_invalid {ds : Defines} {front back : List (Bytes × Bytes)}
    {bad : Bytes × Bytes} (hfront : ∀ p ∈ front, isDefineKey p.1 = true)
    (hbad : isDefineKey bad.1 = false)
    (hnodup : (ds.entries.map Define.key ++ front.map Prod.fst).Nodup) :
    addDefines ds (front ++ bad :: back) = .error (.format bad.1) := by
  have hmake : Define.make bad.1 bad.2 = .error (.format bad.1) := by
    rw [Define.make, if_neg (by simp [hbad])]
  rw [addDefines_append, addDefines_of_valid hfront hnodup, ok_bind, addDefines, hmake, error_bind]

/-- The table of the defines that keys are given : one for each key, in the order of the keys, with
the value trimmed. -/
structure IsTable (given : Bytes → Option Bytes) (ds : Defines) : Prop where
  ascending : ds.entries.Pairwise fun d e => Bytes.le d.key e.key = true ∧ d.key ≠ e.key
  mem_iff : ∀ key value site, ⟨key, value, site⟩ ∈ ds.entries ↔
    site = none ∧ ∃ text, given key = some text ∧ value = trim text

/-- The defines that were made, in the order of their keys. -/
def sorted (a : Assembler) : List (Bytes × Bytes) :=
  a.predefines.mergeSort fun x y => Bytes.le x.1 y.1

theorem initialDefines_eq (a : Assembler) :
    a.initialDefines = (addDefines ⟨a.defineLimit, []⟩ a.sorted).mapError .predefine := by
  rw [initialDefines, sorted]
  cases addDefines ⟨a.defineLimit, []⟩ (a.predefines.mergeSort fun x y => Bytes.le x.1 y.1) with
  | error e => rfl
  | ok ds => rfl

section Table

variable {a : Assembler} {pairs : List (Bytes × Bytes)} (h : Enumerates pairs a.predefines)
include h

theorem enumerates_sorted : Enumerates pairs a.sorted :=
  h.perm_iff.2 (List.mergeSort_perm _ _)

theorem exists_isTable
    (hvalid : ∀ key, (lastValue? pairs key).isSome = true → isDefineKey key = true) :
    ∃ ds, a.initialDefines = .ok ds ∧ ds.limit = a.defineLimit ∧ IsTable (lastValue? pairs) ds := by
  have hsorted := enumerates_sorted h
  have hkeys : ∀ p ∈ a.sorted, isDefineKey p.1 = true := fun p hp =>
    hvalid p.1 (hsorted.isSome_iff.2 ⟨p, hp, rfl⟩)
  have hadd : addDefines ⟨a.defineLimit, []⟩ a.sorted =
      .ok ⟨a.defineLimit, a.sorted.map fun p => ⟨p.1, trim p.2, none⟩⟩ :=
    addDefines_of_valid hkeys hsorted.nodup
  refine ⟨_, by rw [initialDefines_eq, hadd, mapError_ok], rfl, ?_, ?_⟩
  · exact List.pairwise_map.2
      ((pairwise_mergeSort a.predefines).and (List.pairwise_map.1 hsorted.nodup))
  · intro key value site
    simp only [List.mem_map, Define.mk.injEq, Prod.exists, hsorted.mem_iff]
    constructor
    · rintro ⟨k, text, hgiven, rfl, rfl, rfl⟩
      exact ⟨rfl, text, hgiven, rfl⟩
    · rintro ⟨rfl, text, hgiven, rfl⟩
      exact ⟨key, text, hgiven, rfl, rfl, rfl⟩

theorem exists_least_invalid {bad : Bytes} (hgiven : (lastValue? pairs bad).isSome = true)
    (hbad : isDefineKey bad = false) :
    ∃ key, ((lastValue? pairs key).isSome = true ∧ isDefineKey key = false) ∧
      (∀ k, (lastValue? pairs k).isSome = true → isDefineKey k = false → Bytes.le key k = true) ∧
      a.initialDefines = .error (.predefine (.format key)) := by
  have hsorted := enumerates_sorted h
  obtain ⟨p, hp, rfl⟩ := hsorted.isSome_iff.1 hgiven
  -- of the keys that are no names, the first one in the sorted list is the least
  cases hfind : a.sorted.find? (fun p => !isDefineKey p.1) with
  | none => simpa [hbad] using List.find?_eq_none.1 hfind p hp
  | some least =>
    obtain ⟨hleast, front, back, heq, hfront⟩ := List.find?_eq_some_iff_append.1 hfind
    have hvalid : ∀ q ∈ front, isDefineKey q.1 = true := fun q hq => by simpa using hfront q hq
    have hinvalid : isDefineKey least.1 = false := by simpa using hleast
    have hnodup := hsorted.nodup
    have hascending : a.sorted.Pairwise fun x y => Bytes.le x.1 y.1 = true :=
      pairwise_mergeSort a.predefines
    rw [heq] at hnodup hascending
    refine ⟨least.1, ⟨hsorted.isSome_iff.2 ⟨least, by simp [heq], rfl⟩, hinvalid⟩, ?_, ?_⟩
    · intro k hk hkbad
      obtain ⟨q, hq, rfl⟩ := hsorted.isSome_iff.1 hk
      rw [heq, List.mem_append, List.mem_cons] at hq
      rcases hq with hq | rfl | hq
      · simp [hvalid q hq] at hkbad
      · exact Bytes.le_refl q.1
      · exact List.rel_of_pairwise_cons (List.pairwise_append.1 hascending).2.1 hq
    · rw [List.map_append, List.nodup_append] at hnodup
      have hadd : addDefines ⟨a.defineLimit, []⟩ (front ++ least :: back) =
          .error (.format least.1) := addDefines_of_invalid hvalid hinvalid hnodup.1
      rw [initialDefines_eq, heq, hadd, mapError_error]

end Table

end Assembler

namespace Command

open Assembler

/-- The value of a key before any source is read : that of the last option for it, or else the one
in the settings. -/
def predefined? (s : Settings) (options : List (Bytes × Bytes)) (key : Bytes) : Option Bytes :=
  (lastValue? options key).or (lastValue? s.defines key)

/-- A key that has a value and is no name. -/
def Misnamed (s : Settings) (options : List (Bytes × Bytes)) (key : Bytes) : Prop :=
  (predefined? s options key).isSome = true ∧ isDefineKey key = false

theorem assembler_eq (s : Settings) (source : Source) (options : List (Bytes × Bytes)) :
    assembler s source options =
      ⟨some source, !s.labelsCaseSensitive, s.defineLimit,
        (assembler s source options).predefines⟩ :=
  predefineAll_eq _ (Pairs.chain [s.defines, options])

theorem enumerates_assembler (s : Settings) (source : Source) (options : List (Bytes × Bytes)) :
    Enumerates (s.defines ++ options) (assembler s source options).predefines := by
  have hchain : Pairs.chain [s.defines, options] = s.defines ++ options := by simp [Pairs.chain]
  have hall : Enumerates ([] ++ Pairs.chain [s.defines, options])
      (assembler s source options).predefines := enumerates_predefineAll enumerates_nil _
  rwa [List.nil_append, hchain] at hall

/-- What the settings and options of a project may come to, by the orders in which three maps are
gone through : the settings' and the options', whose defines are made one after another, and the map
of these. -/
inductive Gathered (s : Settings) (source : Source) (options : List (Bytes × Bytes)) :
    Assembler → Prop
  | intro {ofSettings ofOptions order : List (Bytes × Bytes)}
      (hs : Enumerates s.defines ofSettings) (ho : Enumerates options ofOptions)
      (horder :
        order.Perm (assembler { s with defines := ofSettings } source ofOptions).predefines) :
      Gathered s source options
        { assembler { s with defines := ofSettings } source ofOptions with predefines := order }

namespace Gathered

variable {s : Settings} {source : Source} {options : List (Bytes × Bytes)} {a : Assembler}

/-- However the maps are gone through, the last one has the same entries. -/
theorem enumerates (h : Gathered s source options a) :
    Enumerates (s.defines ++ options) a.predefines := by
  obtain ⟨hs, ho, horder⟩ := h
  have hchained := (enumerates_assembler _ _ _).perm_iff.2 horder
  exact hchained.congr (hs.lastValue?_append_eq ho)

/-- The command goes through the maps in orders of its own. -/
theorem of_assembler (s : Settings) (source : Source) (options : List (Bytes × Bytes)) :
    Gathered s source options (assembler s source options) := by
  obtain ⟨ofSettings, hs⟩ := exists_enumerates s.defines
  obtain ⟨ofOptions, ho⟩ := exists_enumerates options
  have horder : Enumerates (ofSettings ++ ofOptions) (assembler s source options).predefines :=
    (enumerates_assembler s source options).congr fun key => (hs.lastValue?_append_eq ho key).symm
  have h := Gathered.intro hs ho ((enumerates_assembler _ source _).perm_iff.1 horder)
  rw [assembler_eq] at h
  rwa [assembler_eq]

theorem eq_assembler (h : Gathered s source options a) :
    a = { assembler s source options with predefines := a.predefines } := by
  obtain ⟨-, -, -⟩ := h
  rw [assembler_eq, assembler_eq s]

theorem initialDefines_eq (h : Gathered s source options a) :
    a.initialDefines = (assembler s source options).initialDefines := by
  have hsorted := h.enumerates.mergeSort_eq (enumerates_assembler s source options)
  rw [h.eq_assembler, initialDefines, initialDefines, hsorted]

theorem parseContents_eq (h : Gathered s source options a) :
    a.parseContents = (assembler s source options).parseContents := by
  have hdefines := h.initialDefines_eq
  rw [h.eq_assembler] at hdefines ⊢
  funext name contents
  simp only [parseContents, readProgram, start, hdefines]

theorem parse_eq (h : Gathered s source options a) (name text : Bytes) :
    a.parse name text = (assembler s source options).parse name text := by
  rw [parse, parse, h.parseContents_eq]

theorem load_eq (h : Gathered s source options a) (name : Bytes) :
    a.load name = (assembler s source options).load name := by
  have hsource : a.source = (assembler s source options).source := by rw [h.eq_assembler]
  simp only [load, hsource, h.parseContents_eq]

end Gathered

/-- The orders in which maps are gone through, those of the command among them, do not show. The
table a program starts with is the union of settings and options, where an option wins over the
settings and the last option for a key over those before it, sorted by keys; if a key is no name,
the least such key is refused. So the program and its image are the same in any case. -/
theorem predefines_independent_of_order {s : Settings} {source : Source}
    {options : List (Bytes × Bytes)} {a : Assembler} (h : Gathered s source options a) :
    Gathered s source options (assembler s source options) ∧
      a.initialDefines = (assembler s source options).initialDefines ∧
      ((∀ key, ¬Misnamed s options key) → ∃ ds, a.initialDefines = .ok ds ∧
        ds.limit = s.defineLimit ∧ IsTable (predefined? s options) ds) ∧
      ((∃ key, Misnamed s options key) → ∃ key, Misnamed s options key ∧
        (∀ k, Misnamed s options k → Bytes.le key k = true) ∧
        ∀ name text, a.parse name text = .fail (.predefine (.format key))) ∧
      (∀ name, a.load name = (assembler s source options).load name) ∧
      ∀ name text, a.parse name text = (assembler s source options).parse name text ∧
        ∀ img, (a.parse name text).result.map (·.1.assemble img) =
          ((assembler s source options).parse name text).result.map (·.1.assemble img) := by
  have hgiven : lastValue? (s.defines ++ options) = predefined? s options :=
    funext (lastValue?_append s.defines options)
  refine ⟨.of_assembler s source options, h.initialDefines_eq, fun hvalid => ?_, ?_, h.load_eq,
    fun name text => ⟨h.parse_eq name text, fun img => by rw [h.parse_eq]⟩⟩
  · rw [← hgiven]
    obtain ⟨ds, hds, hlimit, htable⟩ := exists_isTable h.enumerates fun key hkey => by
      simpa [Misnamed, ← hgiven, hkey] using hvalid key
    refine ⟨ds, hds, ?_, htable⟩
    rw [hlimit, h.eq_assembler, assembler_eq]
  · rintro ⟨bad, hbad⟩
    simp only [Misnamed, ← hgiven] at hbad ⊢
    obtain ⟨key, hkey, hleast, hdefines⟩ := exists_least_invalid h.enumerates hbad.1 hbad.2
    refine ⟨key, hkey, fun k hk => hleast k hk.1 hk.2, fun name text => ?_⟩
    rw [parse, parseContents, hdefines]
    rfl

/-- Settings with two defines. -/
def twoDefines : Settings := { defines := [("A", "1"), ("B", "x")] }

/-- Options that replace one of the defines, and replace it again. -/
def threeOptions : List (Bytes × Bytes) := [("B", "y"), ("B", " 2 "), ("C", "3")]

/-- What they come to. -/
def threeDefines : List (Bytes × Bytes) := [("A", "1"), ("B", " 2 "), ("C", "3")]

/-- All maps are gone through from behind. -/
def backward : Assembler :=
  { assembler { twoDefines with defines := twoDefines.defines.reverse } ⟨[], [], []⟩
      [("C", "3"), ("B", " 2 ")] with
    predefines := threeDefines.reverse }

theorem backward_predefines_independent_of_order :
    Gathered twoDefines ⟨[], [], []⟩ threeOptions backward ∧
      backward.initialDefines =
        .ok ⟨32, [⟨"A", "1", none⟩, ⟨"B", "2", none⟩, ⟨"C", "3", none⟩]⟩ := by
  have hsettings := enumerates_predefineAll (a := {}) enumerates_nil twoDefines.defines
  have hoptions := enumerates_predefineAll (a := {}) enumerates_nil threeOptions
  have hgathered : Gathered twoDefines ⟨[], [], []⟩ threeOptions backward :=
    .intro (hsettings.perm_iff.2 (by decide +kernel)) (hoptions.perm_iff.2 (by decide +kernel))
      (by decide +kernel)
  obtain ⟨-, hdefines, -⟩ := predefines_independent_of_order hgathered
  have hpredefines :
      (assembler twoDefines ⟨[], [], []⟩ threeOptions).predefines = threeDefines := by
    decide +kernel
  have hsorted : (assembler twoDefines ⟨[], [], []⟩ threeOptions).sorted = threeDefines := by
    rw [Assembler.sorted, hpredefines]
    exact List.mergeSort_of_pairwise (by decide +kernel)
  have hadd : addDefines ⟨32, []⟩ threeDefines =
      .ok ⟨32, [⟨"A", "1", none⟩, ⟨"B", "2", none⟩, ⟨"C", "3", none⟩]⟩ := by decide +kernel
  refine ⟨hgathered, hdefines.trans ?_⟩
  rw [Assembler.initialDefines_eq, hsorted]
  exact congrArg (Except.mapError _) hadd

end Command

end Asm16
