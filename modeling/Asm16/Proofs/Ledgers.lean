import Asm16.Label
import Asm16.Log
import Mathlib.Data.List.Induction
import Mathlib.Data.List.Nodup
import Mathlib.Data.List.TakeWhile

/-!
# Symbol tables as ledgers

A `Ledger` is a symbol table in its plainest form : the labels in one list and the uses in another.
Names are looked up by searching the labels, and resolution searches the uses for the first one
that has no definition.

A `SymbolTable` keeps its definitions by key as well, and its uses by key only. It is a function of
the ledger (`Ledger.table`), and every operation on the table is the operation on the ledger
(`define_table`, `use_table`, `resolve_table`). What is lost is the order between uses of different
keys; nothing shows it, since resolution goes by keys in the order of first use. Every table comes
from a ledger (`SymbolTable.table_ledger`).
-/

namespace Asm16

/-! ## First occurrences -/

section FirstOccurrences

variable {α : Type} (r : α → α → Bool)

private theorem eraseDupsBy_loop_concat (xs kept : List α) (x : α) :
    List.eraseDupsBy.loop r (xs ++ [x]) kept =
      if (List.eraseDupsBy.loop r xs kept).any (r x) then List.eraseDupsBy.loop r xs kept
      else List.eraseDupsBy.loop r xs kept ++ [x] := by
  induction xs generalizing kept with
  | nil => cases hx : kept.any (r x) <;> simp [List.eraseDupsBy.loop, hx]
  | cons y ys ih => cases hy : kept.any (r y) <;> simp [List.eraseDupsBy.loop, hy, ih]

/-- One more element is kept if nothing that is kept already is like it. -/
theorem eraseDupsBy_concat (xs : List α) (x : α) :
    (xs ++ [x]).eraseDupsBy r =
      if (xs.eraseDupsBy r).any (r x) then xs.eraseDupsBy r else xs.eraseDupsBy r ++ [x] :=
  eraseDupsBy_loop_concat r xs [] x

theorem pairwise_eraseDupsBy (xs : List α) :
    (xs.eraseDupsBy r).Pairwise fun x y => r y x = false := by
  induction xs using List.reverseRecOn with
  | nil => exact .nil
  | append_singleton xs x ih =>
    rw [eraseDupsBy_concat]
    split
    · exact ih
    · rename_i hany
      refine List.pairwise_append.2 ⟨ih, List.pairwise_singleton _ x, fun y hy z hz => ?_⟩
      obtain rfl := List.mem_singleton.1 hz
      simpa using fun hzy => hany (List.any_eq_true.2 ⟨y, hy, hzy⟩)

end FirstOccurrences

section Keys

variable {α : Type} [BEq α] [LawfulBEq α]

theorem nodup_eraseDups (xs : List α) : xs.eraseDups.Nodup :=
  (pairwise_eraseDupsBy (· == ·) xs).imp fun h heq => by simp [heq] at h

theorem eraseDups_concat_of_mem {xs : List α} {x : α} (h : x ∈ xs) :
    (xs ++ [x]).eraseDups = xs.eraseDups := by
  rw [List.eraseDups_append, List.removeAll, List.filter_cons_of_neg (by simpa using h)]
  simp

theorem eraseDups_concat_of_not_mem {xs : List α} {x : α} (h : x ∉ xs) :
    (xs ++ [x]).eraseDups = xs.eraseDups ++ [x] := by
  rw [List.eraseDups_append, List.removeAll, List.filter_cons_of_pos (by simpa using h)]
  simp [List.eraseDups_cons]

theorem eraseDups_of_forall_eq {xs : List α} {x : α} (hne : xs ≠ []) (h : ∀ y ∈ xs, y = x) :
    xs.eraseDups = [x] := by
  cases xs with
  | nil => exact absurd rfl hne
  | cons y ys =>
    obtain ⟨rfl, hys⟩ := List.forall_mem_cons.1 h
    rw [List.eraseDups_cons, List.filter_eq_nil_iff.2 fun z hz => by simp [hys z hz]]
    rfl

theorem eraseDups_map {β : Type} [BEq β] [LawfulBEq β] {f : α → β} {xs : List α}
    (hf : ∀ x ∈ xs, ∀ y ∈ xs, f x = f y → x = y) : (xs.map f).eraseDups = xs.eraseDups.map f := by
  induction xs using List.reverseRecOn with
  | nil => rfl
  | append_singleton xs x ih =>
    obtain ih := ih fun y hy z hz => hf y (by simp [hy]) z (by simp [hz])
    rw [List.map_append, List.map_singleton]
    by_cases hx : x ∈ xs
    · rw [eraseDups_concat_of_mem (List.mem_map_of_mem hx), eraseDups_concat_of_mem hx, ih]
    · have hfx : f x ∉ xs.map f := by
        rintro hmem
        obtain ⟨y, hy, hyx⟩ := List.mem_map.1 hmem
        exact hx (hf y (by simp [hy]) x (by simp) hyx ▸ hy)
      rw [eraseDups_concat_of_not_mem hfx, eraseDups_concat_of_not_mem hx, ih, List.map_append,
        List.map_singleton]

theorem find?_eraseDups (p : α → Bool) (xs : List α) : xs.eraseDups.find? p = xs.find? p := by
  induction xs using List.reverseRecOn with
  | nil => rfl
  | append_singleton xs x ih =>
    by_cases hx : x ∈ xs
    · rw [eraseDups_concat_of_mem hx, ih, List.find?_append]
      cases hp : xs.find? p with
      | some y => rfl
      | none => simp [List.find?_eq_none.1 hp x hx]
    · rw [eraseDups_concat_of_not_mem hx, List.find?_append, List.find?_append, ih]

theorem takeWhile_eraseDups (p : α → Bool) (xs : List α) :
    xs.eraseDups.takeWhile p = (xs.takeWhile p).eraseDups := by
  have hfront : ∀ y ∈ (xs.takeWhile p).eraseDups, p y = true := fun y hy =>
    List.mem_takeWhile_imp (List.mem_eraseDups.1 hy)
  have hsplit : xs.eraseDups = (xs.takeWhile p).eraseDups ++
      ((xs.dropWhile p).removeAll (xs.takeWhile p)).eraseDups := by
    rw [← List.eraseDups_append, List.takeWhile_append_dropWhile]
  rw [hsplit, List.takeWhile_append_of_pos hfront]
  cases hdrop : xs.dropWhile p with
  | nil => simp [List.removeAll]
  | cons y ys =>
    have hy : ¬p y = true := by
      have := List.head?_dropWhile_not p xs
      simpa [hdrop] using this
    have hnew : y ∉ xs.takeWhile p := fun hmem => hy (List.mem_takeWhile_imp hmem)
    rw [List.removeAll, List.filter_cons_of_pos (by simpa using hnew), List.eraseDups_cons,
      List.takeWhile_cons_of_neg hy, List.append_nil]

end Keys

/-! ## Keys in a map -/

namespace Keyed

variable {α : Type} {ks : List Bytes} {k : Bytes}

theorem lookup_map_of_mem (f : Bytes → α) (h : k ∈ ks) :
    (ks.map fun k => (k, f k)).lookup k = some (f k) := by
  induction ks with
  | nil => cases h
  | cons j ks ih =>
    rw [List.map_cons, List.lookup_cons]
    by_cases hj : k = j
    · simp [hj]
    · rw [beq_false_of_ne hj]
      exact ih ((List.mem_cons.1 h).resolve_left hj)

theorem lookup_map_of_not_mem (f : Bytes → α) (h : k ∉ ks) :
    (ks.map fun k => (k, f k)).lookup k = none :=
  lookup_eq_none.2 (by simpa using h)

theorem getD_lookup_map (f : Bytes → List α) (hf : k ∉ ks → f k = []) :
    ((ks.map fun k => (k, f k)).lookup k).getD [] = f k := by
  by_cases h : k ∈ ks
  · rw [lookup_map_of_mem f h, Option.getD_some]
  · rw [lookup_map_of_not_mem f h, Option.getD_none, hf h]

/-- A value in place of another changes that one alone. -/
theorem set_map_of_mem (f : Bytes → α) (hks : ks.Nodup) (h : k ∈ ks) (v : α) :
    set k v (ks.map fun k => (k, f k)) = ks.map fun j => (j, if j = k then v else f j) := by
  induction ks with
  | nil => cases h
  | cons j ks ih =>
    obtain ⟨hj, hks⟩ := List.nodup_cons.1 hks
    rw [List.map_cons, List.map_cons, set]
    by_cases hjk : j = k
    · subst hjk
      rw [if_pos rfl, if_pos rfl]
      refine congrArg _ (List.map_congr_left fun i hi => ?_)
      have hij : i ≠ j := fun hij => hj (hij ▸ hi)
      rw [if_neg hij]
    · rw [if_neg hjk, if_neg hjk, ih hks ((List.mem_cons.1 h).resolve_left (Ne.symm hjk))]

end Keyed

/-! ## Ledgers -/

/-- Label definitions and uses, both in order. -/
structure Ledger where
  /-- Names that differ only in letter case are the same. -/
  caseFold : Bool := false
  labels : List Label := []
  uses : List Use := []

namespace Ledger

variable (l : Ledger)

/-- What names are compared by. -/
def key (name : Bytes) : Bytes := nameKey l.caseFold name

/-- The definition with a key. -/
def labelAt? (k : Bytes) : Option Label := l.labels.find? fun label => l.key label.name == k

/-- The definition of a name. -/
def lookup? (name : Bytes) : Option Label := l.labelAt? (l.key name)

/-- Adds a definition; if its key is taken, the error is the definition that has it. -/
def define (label : Label) : Except Label Ledger :=
  match l.lookup? label.name with
  | some existing => .error existing
  | none => .ok { l with labels := l.labels ++ [label] }

/-- Adds a use. -/
def use (u : Use) : Ledger := { l with uses := l.uses ++ [u] }

/-- The uses with a key. -/
def usesAt (k : Bytes) : List Use := l.uses.filter fun u => l.key u.name == k

/-- The keys of the uses, each once, in the order of first use. -/
def usedKeys : List Bytes := (l.uses.map fun u => l.key u.name).eraseDups

/-- The address of a name's definition. -/
def offset? (name : Bytes) : Option Int := (l.lookup? name).map (·.offset)

/-- Whether a key has a definition. -/
def isDefined (k : Bytes) : Bool := (l.labelAt? k).isSome

/-- Gives a use the address of its definition. -/
def bind (u : Use) : Use := (l.offset? u.name).elim u u.resolve

/-- Gives the uses of the keys `done` the addresses of their definitions. -/
def settle (done : List Bytes) : Ledger :=
  { l with uses := l.uses.map fun u => if l.key u.name ∈ done then l.bind u else u }

/-- Gives every use the address of its definition. At a use without a definition it stops and
returns that one; only the uses of keys that are used before it get an address. -/
def resolve : Ledger × Option Use :=
  match l.uses.find? fun u => !l.isDefined (l.key u.name) with
  | none => ({ l with uses := l.uses.map l.bind }, none)
  | some missing =>
    let earlier := l.uses.takeWhile fun u => l.isDefined (l.key u.name)
    (l.settle (earlier.map fun u => l.key u.name), some missing)

/-- Gives every definition the address `offset` has for its line. -/
def locate (offset : Nat → Int) : Ledger :=
  { l with labels := l.labels.map (Label.locate offset) }

variable {l} in
theorem key_of_mem_usesAt {k : Bytes} {u : Use} (h : u ∈ l.usesAt k) : l.key u.name = k :=
  beq_iff_eq.1 (List.mem_filter.1 h).2

theorem mem_usedKeys {k : Bytes} : k ∈ l.usedKeys ↔ ∃ u ∈ l.uses, l.key u.name = k := by
  rw [usedKeys, List.mem_eraseDups, List.mem_map]

theorem usesAt_ne_nil {k : Bytes} (h : k ∈ l.usedKeys) : l.usesAt k ≠ [] := by
  obtain ⟨u, hu, rfl⟩ := l.mem_usedKeys.1 h
  exact List.ne_nil_of_mem (List.mem_filter.2 ⟨hu, beq_self_eq_true _⟩)

theorem usesAt_eq_nil {k : Bytes} (h : k ∉ l.usedKeys) : l.usesAt k = [] := by
  refine List.filter_eq_nil_iff.2 fun u hu hk => h ?_
  exact l.mem_usedKeys.2 ⟨u, hu, beq_iff_eq.1 hk⟩

theorem inStep : InStep (nameKey l.caseFold) (l.labels.map fun label => (l.key label.name, label))
    l.labels (l.usedKeys.map fun k => (k, l.usesAt k)) l.usedKeys := by
  refine ⟨rfl, ?_, nodup_eraseDups _, fun e he => ?_, fun e he u hu => ?_⟩
  · rw [List.map_map]
    exact (List.map_id _).symm
  · obtain ⟨k, hk, rfl⟩ := List.mem_map.1 he
    exact l.usesAt_ne_nil hk
  · obtain ⟨k, -, rfl⟩ := List.mem_map.1 he
    exact key_of_mem_usesAt hu

/-- The table with the labels and the uses of a ledger. -/
def table : SymbolTable where
  caseFold := l.caseFold
  defs := l.labels.map fun label => (l.key label.name, label)
  labels := l.labels
  useLists := l.usedKeys.map fun k => (k, l.usesAt k)
  names := l.usedKeys
  inStep := l.inStep

@[simp] theorem table_caseFold : l.table.caseFold = l.caseFold := rfl

@[simp] theorem table_labels : l.table.labels = l.labels := rfl

end Ledger

/-- The lists determine the maps, and the map of uses its keys. -/
theorem SymbolTable.eq_of_lists {s t : SymbolTable} (hcase : s.caseFold = t.caseFold)
    (hlabels : s.labels = t.labels) (huses : s.useLists = t.useLists) : s = t := by
  obtain ⟨_, _, _, _, _, hs⟩ := s
  obtain ⟨_, _, _, _, _, ht⟩ := t
  obtain rfl : _ = _ := hcase
  obtain rfl : _ = _ := hlabels
  obtain rfl : _ = _ := huses
  obtain rfl := hs.defs_eq.trans ht.defs_eq.symm
  obtain rfl := hs.names_eq.trans ht.names_eq.symm
  rfl

/-! ## Operations on tables and on ledgers -/

namespace SymbolTable

variable (t : SymbolTable) (name : Bytes)

/-- A table finds the definition that searching its labels finds. -/
theorem lookup_defs (k : Bytes) : t.defs.lookup k = t.labels.find? fun l => t.key l.name == k := by
  rw [t.inStep.defs_eq]
  induction t.labels with
  | nil => rfl
  | cons l rest ih =>
    rw [List.map_cons, List.lookup_cons, List.find?_cons, ih, Bool.beq_comm]
    rfl

theorem lookup?_eq_find? :
    t.lookup? name = t.labels.find? fun l => t.key l.name == t.key name :=
  t.lookup_defs (t.key name)

variable {t} {l : Label}

theorem define_of_some {existing : Label} (h : t.lookup? l.name = some existing) :
    t.define l = .error existing := by
  unfold define
  split
  · rename_i found hfound
    rw [Option.some.inj (hfound.symm.trans h)]
  · rename_i hnone
    cases hnone.symm.trans h

theorem exists_define_of_none (h : t.lookup? l.name = none) :
    ∃ t', t.define l = .ok t' ∧ t'.caseFold = t.caseFold ∧ t'.labels = t.labels ++ [l] ∧
      t'.useLists = t.useLists := by
  unfold define
  split
  · rename_i found hfound
    cases hfound.symm.trans h
  · exact ⟨_, rfl, rfl, rfl, rfl⟩

end SymbolTable

namespace Ledger

variable (l : Ledger)

theorem lookup?_table (name : Bytes) : l.table.lookup? name = l.lookup? name :=
  l.table.lookup?_eq_find? name

theorem offset?_table (name : Bytes) : l.table.offset? name = l.offset? name := by
  rw [SymbolTable.offset?, lookup?_table, offset?]

theorem lookup_useLists (k : Bytes) : (l.table.useLists.lookup k).getD [] = l.usesAt k :=
  Keyed.getD_lookup_map l.usesAt l.usesAt_eq_nil

theorem usesOf_table (name : Bytes) : l.table.usesOf name = l.usesAt (l.key name) :=
  l.lookup_useLists (l.key name)

theorem define_table (label : Label) : l.table.define label = (l.define label).map table := by
  have hlookup := l.lookup?_table label.name
  rw [define]
  cases h : l.lookup? label.name with
  | some existing => exact SymbolTable.define_of_some (hlookup.trans h)
  | none =>
    obtain ⟨t, ht, hcase, hlabels, huses⟩ := SymbolTable.exists_define_of_none (hlookup.trans h)
    rw [ht]
    exact congrArg Except.ok (SymbolTable.eq_of_lists hcase hlabels huses)

theorem usedKeys_use (u : Use) : (l.use u).usedKeys =
    if l.key u.name ∈ l.usedKeys then l.usedKeys else l.usedKeys ++ [l.key u.name] := by
  have hkeys : (l.use u).usedKeys =
      ((l.uses.map fun u => l.key u.name) ++ [l.key u.name]).eraseDups := by
    simp [usedKeys, use, key]
  rw [hkeys]
  split
  · rename_i h
    exact eraseDups_concat_of_mem (List.mem_eraseDups.1 h)
  · rename_i h
    exact eraseDups_concat_of_not_mem (mt List.mem_eraseDups.2 h)

theorem usesAt_use (u : Use) (k : Bytes) :
    (l.use u).usesAt k = if k = l.key u.name then l.usesAt k ++ [u] else l.usesAt k := by
  have hkey : (l.use u).key = l.key := rfl
  rw [usesAt, hkey, use, List.filter_append]
  split
  · rename_i h
    rw [List.filter_cons_of_pos (by simp [h])]
    rfl
  · rename_i h
    rw [List.filter_cons_of_neg (by simpa using Ne.symm h), List.filter_nil, List.append_nil]
    rfl

theorem use_table (u : Use) : l.table.use u = (l.use u).table := by
  refine SymbolTable.eq_of_lists rfl rfl ?_
  show Keyed.set (l.key u.name) ((l.table.useLists.lookup (l.key u.name)).getD [] ++ [u])
    (l.usedKeys.map fun k => (k, l.usesAt k)) =
      (l.use u).usedKeys.map fun k => (k, (l.use u).usesAt k)
  rw [lookup_useLists, usedKeys_use]
  by_cases h : l.key u.name ∈ l.usedKeys
  · rw [Keyed.set_map_of_mem l.usesAt l.inStep.nodup h, if_pos h]
    refine List.map_congr_left fun k _ => ?_
    rw [usesAt_use]
    by_cases hk : k = l.key u.name
    · rw [if_pos hk, if_pos hk, hk]
    · rw [if_neg hk, if_neg hk]
  · rw [Keyed.set_of_not_mem (by simpa using h), if_neg h, List.map_append, List.map_singleton,
      usesAt_use, if_pos rfl]
    refine congrArg (· ++ _) (List.map_congr_left fun k hk => ?_)
    have hku : k ≠ l.key u.name := fun hku => h (hku ▸ hk)
    rw [usesAt_use, if_neg hku]

theorem locate_table (offset : Nat → Int) : l.table.locate offset = (l.locate offset).table :=
  SymbolTable.eq_of_lists rfl rfl rfl

/-! ## Resolution -/

theorem name_bind (u : Use) : (l.bind u).name = u.name := by
  unfold bind
  cases l.offset? u.name <;> rfl

theorem bind_bind (u : Use) : l.bind (l.bind u) = l.bind u := by
  rw [bind, name_bind, bind]
  cases l.offset? u.name <;> rfl

/-- The ledger with other values in its uses. -/
def mapUses (f : Use → Use) : Ledger := { l with uses := l.uses.map f }

section MapUses

variable {f : Use → Use} (hf : ∀ u, (f u).name = u.name)
include hf

theorem usedKeys_mapUses : (l.mapUses f).usedKeys = l.usedKeys := by
  have hkeys : ((l.uses.map f).map fun u => l.key u.name) = l.uses.map fun u => l.key u.name := by
    simp only [List.map_map, Function.comp_def, hf]
  exact congrArg List.eraseDups hkeys

theorem usesAt_mapUses (k : Bytes) : (l.mapUses f).usesAt k = (l.usesAt k).map f := by
  have hkey : ((fun u : Use => l.key u.name == k) ∘ f) = fun u => l.key u.name == k := by
    funext u
    rw [Function.comp_apply, hf]
  exact List.filter_map.trans (congrArg (fun p => (l.uses.filter p).map f) hkey)

end MapUses

theorem settle_eq (done : List Bytes) :
    l.settle done = l.mapUses fun u => if l.key u.name ∈ done then l.bind u else u := rfl

theorem name_settled (done : List Bytes) (u : Use) :
    (if l.key u.name ∈ done then l.bind u else u).name = u.name := by
  split
  · exact l.name_bind u
  · rfl

theorem usesAt_settle (done : List Bytes) (k : Bytes) :
    (l.settle done).usesAt k = if k ∈ done then (l.usesAt k).map l.bind else l.usesAt k := by
  rw [settle_eq, usesAt_mapUses l (l.name_settled done)]
  split
  · rename_i hk
    exact List.map_congr_left fun u hu => if_pos (key_of_mem_usesAt hu ▸ hk)
  · rename_i hk
    refine (List.map_congr_left fun u hu => ?_).trans (List.map_id _)
    exact if_neg (key_of_mem_usesAt hu ▸ hk)

theorem settle_congr {done done' : List Bytes} (h : ∀ u ∈ l.uses,
    l.key u.name ∈ done ↔ l.key u.name ∈ done') : l.settle done = l.settle done' := by
  have huses : (l.settle done).uses = (l.settle done').uses :=
    List.map_congr_left fun u hu => by simp only [h u hu]
  rw [settle, settle, Ledger.mk.injEq]
  exact ⟨rfl, rfl, huses⟩

theorem settle_nil : l.settle [] = l := by
  rw [settle]
  simp

theorem settle_settle (done more : List Bytes) :
    (l.settle done).settle more = l.settle (done ++ more) := by
  have hbind : (l.settle done).bind = l.bind := rfl
  have hkey : (l.settle done).key = l.key := rfl
  rw [settle, hkey, hbind, settle_eq, settle_eq, mapUses, mapUses, Ledger.mk.injEq]
  refine ⟨rfl, rfl, ?_⟩
  rw [List.map_map]
  refine List.map_congr_left fun u _ => ?_
  rw [Function.comp_apply, name_settled]
  by_cases hdone : l.key u.name ∈ done <;> by_cases hmore : l.key u.name ∈ more <;>
    simp [hdone, hmore, bind_bind]

/-- Giving the uses of a key the address of its definition is settling that key. -/
theorem patch_table {k : Bytes} {label : Label} (h : l.labelAt? k = some label) :
    l.table.patch k label.offset = (l.settle [k]).table := by
  refine SymbolTable.eq_of_lists rfl rfl ?_
  have hkeys : (l.settle [k]).usedKeys = l.usedKeys := l.usedKeys_mapUses (l.name_settled [k])
  show (l.usedKeys.map fun j => (j, l.usesAt j)).map _ =
    (l.settle [k]).usedKeys.map fun j => (j, (l.settle [k]).usesAt j)
  rw [hkeys, List.map_map]
  refine List.map_congr_left fun j _ => ?_
  rw [Function.comp_apply, usesAt_settle]
  simp only [List.mem_singleton]
  by_cases hj : j = k
  · rw [if_pos hj, if_pos hj]
    refine congrArg _ (List.map_congr_left fun u hu => ?_)
    rw [bind, offset?, lookup?, key_of_mem_usesAt hu, hj, h]
    rfl
  · rw [if_neg hj, if_neg hj]

/-- Resolution of keys, one after another, settles them up to the first that has no definition, and
stops at its first use. -/
theorem resolveKeys_table (ks : List Bytes) : l.table.resolveKeys ks =
    ((l.settle (ks.takeWhile l.isDefined)).table,
      (ks.find? (!l.isDefined ·)).bind fun k => (l.usesAt k).head?) := by
  induction ks generalizing l with
  | nil => rw [SymbolTable.resolveKeys, List.takeWhile_nil, settle_nil]; rfl
  | cons k ks ih =>
    have hdefs : l.table.defs.lookup k = l.labelAt? k := l.table.lookup_defs k
    rw [SymbolTable.resolveKeys, hdefs]
    cases h : l.labelAt? k with
    | none =>
      have hk : l.isDefined k = false := by rw [isDefined, h]; rfl
      rw [List.takeWhile_cons_of_neg (by simp [hk]), List.find?_cons_of_pos (by simp [hk]),
        settle_nil]
      exact congrArg (fun us => (l.table, List.head? us)) (l.lookup_useLists k)
    | some label =>
      have hk : l.isDefined k = true := by rw [isDefined, h]; rfl
      have hsame : (l.settle [k]).isDefined = l.isDefined := rfl
      rw [List.takeWhile_cons_of_pos hk, List.find?_cons_of_neg (by simp [hk])]
      simp only [l.patch_table h, ih (l.settle [k]), hsame, settle_settle]
      refine Prod.ext rfl ?_
      show (ks.find? _).bind _ = (ks.find? _).bind _
      cases hfind : ks.find? (!l.isDefined ·) with
      | none => rfl
      | some j =>
        -- the key has no definition, so it is another one than `k`
        have hj : j ≠ k := by
          rintro rfl
          simpa [hk] using List.find?_some hfind
        simp only [Option.bind_some, usesAt_settle, List.mem_singleton, if_neg hj]

/-- The first use of the first key that `p` picks is the first use whose key it picks. -/
theorem bind_find?_usedKeys (p : Bytes → Bool) :
    (l.usedKeys.find? p).bind (fun k => (l.usesAt k).head?) =
      l.uses.find? fun u => p (l.key u.name) := by
  have hkeys : l.usedKeys.find? p = (l.uses.find? fun u => p (l.key u.name)).map
      fun u => l.key u.name := by
    rw [usedKeys, find?_eraseDups, List.find?_map]
    rfl
  rw [hkeys]
  cases hu : l.uses.find? fun u => p (l.key u.name) with
  | none => rfl
  | some u =>
    obtain ⟨hp, before, after, huses, hbefore⟩ := List.find?_eq_some_iff_append.1 hu
    rw [Option.map_some, Option.bind_some, usesAt, List.head?_filter, huses]
    refine List.find?_eq_some_iff_append.2 ⟨beq_self_eq_true _, before, after, rfl, fun v hv => ?_⟩
    -- an earlier use of the key would be picked as well
    have hv := hbefore v hv
    rw [Bool.not_eq_true'] at hv ⊢
    exact beq_false_of_ne fun hkey => by rw [hkey, hp] at hv; cases hv

theorem resolve_snd : l.resolve.2 = l.uses.find? fun u => !l.isDefined (l.key u.name) := by
  unfold resolve
  split
  · rename_i h
    exact h.symm
  · rename_i h
    exact h.symm

/-- If every use has a definition, each of them is bound to it. -/
theorem resolve_of_snd_eq_none {l : Ledger} (h : l.resolve.2 = none) :
    l.resolve = (l.mapUses l.bind, none) := by
  unfold resolve at h ⊢
  split at h
  · rfl
  · cases h

theorem resolve_fst : l.resolve.1 = l.settle (l.usedKeys.takeWhile l.isDefined) := by
  have hdone : l.settle (l.usedKeys.takeWhile l.isDefined) =
      l.settle ((l.uses.takeWhile fun u => l.isDefined (l.key u.name)).map
        fun u => l.key u.name) := by
    refine l.settle_congr fun u _ => ?_
    rw [usedKeys, takeWhile_eraseDups, List.mem_eraseDups, List.takeWhile_map]
    rfl
  rw [hdone, resolve]
  cases h : l.uses.find? fun u => !l.isDefined (l.key u.name) with
  | some missing => rfl
  | none =>
    have hall : ∀ u ∈ l.uses, l.isDefined (l.key u.name) = true := by
      simpa using List.find?_eq_none.1 h
    rw [List.takeWhile_eq_self_iff.2 hall, settle, Ledger.mk.injEq]
    refine ⟨rfl, rfl, List.map_congr_left fun u hu => ?_⟩
    rw [if_pos (List.mem_map.2 ⟨u, hu, rfl⟩)]

theorem resolve_table : l.table.resolve = (l.resolve.1.table, l.resolve.2) := by
  have hnames : l.table.names = l.usedKeys := rfl
  rw [SymbolTable.resolve, hnames, resolveKeys_table, bind_find?_usedKeys, ← resolve_fst,
    ← resolve_snd]

/-- The use that resolution of a table stops at is the first of the ledger without a definition. -/
theorem resolve_table_snd :
    l.table.resolve.2 = l.uses.find? fun u => !(l.table.lookup? u.name).isSome := by
  rw [resolve_table, resolve_snd]
  simp only [lookup?_table]
  rfl

end Ledger

/-! ## Every table comes from a ledger -/

namespace Keyed

variable {α : Type} {key : α → Bytes} {m : Keyed (List α)}

/-- The keys of a map are those of its values, in the order of first occurrence. -/
theorem eraseDups_keys (hm : (m.map (·.1)).Nodup) (hne : ∀ e ∈ m, e.2 ≠ [])
    (hkey : ∀ e ∈ m, ∀ x ∈ e.2, key x = e.1) :
    ((m.flatMap (·.2)).map key).eraseDups = m.map (·.1) := by
  induction m using List.reverseRecOn with
  | nil => rfl
  | append_singleton m e ih =>
    rw [List.map_append, List.nodup_append] at hm
    obtain ⟨hm, -, hnew⟩ := hm
    obtain ⟨hkey, hkeye⟩ := List.forall_mem_append.1 hkey
    obtain ⟨hne, hnee⟩ := List.forall_mem_append.1 hne
    have hkeye := hkeye e (List.mem_singleton_self e)
    have hsame : ∀ k ∈ e.2.map key, k = e.1 := by
      intro k hk
      obtain ⟨x, hx, rfl⟩ := List.mem_map.1 hk
      exact hkeye x hx
    -- no value before has the key of the last entry
    have hfresh : (e.2.map key).removeAll ((m.flatMap (·.2)).map key) = e.2.map key := by
      refine List.filter_eq_self.2 fun k hk => ?_
      rw [hsame k hk]
      simp only [Bool.not_eq_true', List.elem_eq_mem, decide_eq_false_iff_not, List.mem_map,
        List.mem_flatMap]
      rintro ⟨x, ⟨d, hd, hx⟩, hxe⟩
      exact hnew d.1 (List.mem_map_of_mem hd) e.1 (by simp) ((hkey d hd x hx).symm.trans hxe)
    have hne' : e.2.map key ≠ [] := mt List.map_eq_nil_iff.1 (hnee e (List.mem_singleton_self e))
    rw [List.flatMap_append, List.map_append, List.eraseDups_append, ih hm hne hkey]
    simp only [List.flatMap_singleton, hfresh, eraseDups_of_forall_eq hne' hsame, List.map_append,
      List.map_singleton]

/-- The values with a key are those kept under it. -/
theorem filter_flatMap (hm : (m.map (·.1)).Nodup) (hkey : ∀ e ∈ m, ∀ x ∈ e.2, key x = e.1)
    {e : Bytes × List α} (he : e ∈ m) : (m.flatMap (·.2)).filter (key · == e.1) = e.2 := by
  induction m with
  | nil => cases he
  | cons d m ih =>
    obtain ⟨hd, hm⟩ := List.nodup_cons.1 hm
    obtain ⟨hkeyd, hkeym⟩ := List.forall_mem_cons.1 hkey
    rw [List.flatMap_cons, List.filter_append]
    rcases List.mem_cons.1 he with rfl | he
    · have hall : e.2.filter (key · == e.1) = e.2 :=
        List.filter_eq_self.2 fun x hx => beq_iff_eq.2 (hkeyd x hx)
      have hrest : (m.flatMap (·.2)).filter (key · == e.1) = [] := by
        refine List.filter_eq_nil_iff.2 fun x hx hk => hd ?_
        obtain ⟨c, hc, hx⟩ := List.mem_flatMap.1 hx
        exact List.mem_map.2 ⟨c, hc, (hkeym c hc x hx).symm.trans (beq_iff_eq.1 hk)⟩
      rw [hall, hrest, List.append_nil]
    · have hnone : d.2.filter (key · == e.1) = [] := by
        refine List.filter_eq_nil_iff.2 fun x hx hk => hd ?_
        exact List.mem_map.2 ⟨e, he, (beq_iff_eq.1 hk).symm.trans (hkeyd x hx)⟩
      rw [hnone, ih hm hkeym he, List.nil_append]

end Keyed

namespace SymbolTable

/-- The uses, key by key. -/
def uses (t : SymbolTable) : List Use := t.useLists.flatMap (·.2)

/-- The labels and the uses of a table. -/
def ledger (t : SymbolTable) : Ledger := ⟨t.caseFold, t.labels, t.uses⟩

theorem table_ledger (t : SymbolTable) : t.ledger.table = t := by
  have hnodup : (t.useLists.map (·.1)).Nodup := t.inStep.names_eq ▸ t.inStep.nodup
  have hkeys : t.ledger.usedKeys = t.useLists.map (·.1) :=
    Keyed.eraseDups_keys hnodup t.inStep.ne_nil t.inStep.keyed
  refine eq_of_lists rfl rfl ?_
  show t.ledger.usedKeys.map (fun k => (k, t.ledger.usesAt k)) = t.useLists
  rw [hkeys, List.map_map]
  refine (List.map_congr_left fun e he => ?_).trans (List.map_id _)
  exact Prod.ext rfl (Keyed.filter_flatMap hnodup t.inStep.keyed he)

theorem offset?_ledger (t : SymbolTable) (name : Bytes) :
    t.ledger.offset? name = t.offset? name := by
  rw [← Ledger.offset?_table, table_ledger]

variable {t : SymbolTable} {name : Bytes} {l : Label}

theorem mem_of_lookup? (h : t.lookup? name = some l) :
    l ∈ t.labels ∧ t.key l.name = t.key name := by
  rw [lookup?_eq_find?] at h
  exact ⟨List.mem_of_find?_eq_some h, by simpa using List.find?_some h⟩

theorem lookup?_isSome : (t.lookup? name).isSome ↔ ∃ l ∈ t.labels, t.key l.name = t.key name := by
  simp [lookup?_eq_find?, List.find?_isSome]

theorem resolve_eq (t : SymbolTable) :
    t.resolve = (t.ledger.resolve.1.table, t.ledger.resolve.2) := by
  rw [← Ledger.resolve_table, table_ledger]

/-- The use that resolution stops at is the first without a definition. -/
theorem resolve_snd (t : SymbolTable) :
    t.resolve.2 = t.uses.find? fun u => !(t.lookup? u.name).isSome := by
  have := t.ledger.resolve_table_snd
  rwa [table_ledger] at this

theorem resolve_labels (t : SymbolTable) : t.resolve.1.labels = t.labels := by
  rw [resolve_eq, Ledger.resolve_fst]
  rfl

theorem resolve_caseFold (t : SymbolTable) : t.resolve.1.caseFold = t.caseFold := by
  rw [resolve_eq, Ledger.resolve_fst]
  rfl

theorem lookup?_resolve (t : SymbolTable) (name : Bytes) :
    t.resolve.1.lookup? name = t.lookup? name := by
  simp only [lookup?_eq_find?, key, resolve_labels, resolve_caseFold]

end SymbolTable

namespace Ledger

variable (l : Ledger)

theorem uses_table : l.table.uses = l.usedKeys.flatMap l.usesAt := List.flatMap_map ..

/-- A table has the uses of its ledger. -/
theorem mem_uses_table {u : Use} : u ∈ l.table.uses ↔ u ∈ l.uses := by
  rw [uses_table, List.mem_flatMap]
  constructor
  · rintro ⟨k, -, hu⟩
    exact (List.mem_filter.1 hu).1
  · intro hu
    exact ⟨l.key u.name, l.mem_usedKeys.2 ⟨u, hu, rfl⟩,
      List.mem_filter.2 ⟨hu, beq_self_eq_true _⟩⟩

theorem uses_table_mapUses {f : Use → Use} (hf : ∀ u, (f u).name = u.name) :
    (l.mapUses f).table.uses = l.table.uses.map f := by
  rw [uses_table, uses_table, usedKeys_mapUses l hf, List.map_flatMap]
  exact congrArg (l.usedKeys.flatMap ·) (funext (l.usesAt_mapUses hf))

/-- What names are used by key is a matter of the names that are used. -/
theorem names_uses_table {l m : Ledger} (hcase : l.caseFold = m.caseFold)
    (h : l.uses.map (·.name) = m.uses.map (·.name)) :
    l.table.uses.map (·.name) = m.table.uses.map (·.name) := by
  have hkey : l.key = m.key := by
    funext n
    rw [key, key, hcase]
  have hkeys (l : Ledger) : l.usedKeys = ((l.uses.map (·.name)).map l.key).eraseDups := by
    rw [usedKeys, List.map_map]
    rfl
  have hnames (l : Ledger) (k : Bytes) :
      (l.usesAt k).map (·.name) = (l.uses.map (·.name)).filter (l.key · == k) := by
    rw [List.filter_map]
    rfl
  simp only [uses_table, List.map_flatMap, hkeys, hnames, h, hkey]

end Ledger

/-- Uses that are resolved have the addresses of their definitions. -/
theorem SymbolTable.uses_resolve {t : SymbolTable} (h : t.resolve.2 = none) :
    t.resolve.1.uses = t.uses.map t.ledger.bind := by
  rw [resolve_eq] at h ⊢
  rw [Ledger.resolve_of_snd_eq_none h, Ledger.uses_table_mapUses _ t.ledger.name_bind,
    table_ledger]

end Asm16
