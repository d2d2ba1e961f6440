import Asm16.Proofs.Ledgers
import Mathlib.Data.List.Forall2

/-!
# Symbol tables over any sequence of operations

A table is changed by three operations : it takes a definition, takes a use, or resolves its uses.
`SymbolTable.after` runs a sequence of them from the empty table, in any order and with any
repetition; a definition whose key is taken changes nothing.

One operation on the table of a ledger is the same operation on the ledger (`Ledger.call_table`),
and so is a whole sequence (`Ledger.after_table`). What a ledger holds is a function of the sequence
(`Records`) : the labels are the attempted definitions less those whose key an earlier one has, and
the uses are the uses of the sequence, up to their cells. The maps of the table, and its list of
used keys, follow from the ledger.

Resolution goes through the used keys in the order of first use and settles the uses of each, up to
the first key that has no label (`Settles`). `table_after_calls` puts the two together.
-/

namespace Asm16

/-! ## Operations -/

/-- A use as it is entered, with nothing in its cell. -/
def Use.blank (u : Use) : Use := { u with value := .pending }

namespace SymbolTable

/-- An operation on a table. -/
inductive Call where
  | define (l : Label)
  | use (u : Use)
  | resolve
  deriving DecidableEq, Repr

/-- The label that an operation tries to define. -/
def Call.label? : Call → Option Label
  | .define l => some l
  | _ => none

/-- The use that an operation enters. -/
def Call.use? : Call → Option Use
  | .use u => some u
  | _ => none

/-- The table after an operation. -/
def call (t : SymbolTable) : Call → SymbolTable
  | .define l =>
    match t.define l with
    | .ok t' => t'
    | .error _ => t
  | .use u => t.use u
  | .resolve => t.resolve.1

/-- The table after a sequence of operations, the first of them on the empty table. -/
def after (caseFold : Bool) (calls : List Call) : SymbolTable :=
  calls.foldl call (.empty caseFold)

/-- The keys of the labels, in order. -/
def labelKeys (t : SymbolTable) : List Bytes := t.labels.map fun l => t.key l.name

/-- Two labels have one key. -/
def sameKey (t : SymbolTable) (l m : Label) : Bool := t.key l.name == t.key m.name

/-- A table has one more label than another one, and all else is the same. -/
structure AddsLabel (t : SymbolTable) (l : Label) (t' : SymbolTable) : Prop where
  caseFold_eq : t'.caseFold = t.caseFold
  defs_eq : t'.defs = t.defs ++ [(t.key l.name, l)]
  labels_eq : t'.labels = t.labels ++ [l]
  useLists_eq : t'.useLists = t.useLists
  names_eq : t'.names = t.names

variable {t : SymbolTable} {name : Bytes} {l : Label}

theorem lookup?_isSome_iff_mem : (t.lookup? name).isSome ↔ t.key name ∈ t.labelKeys := by
  rw [lookup?_isSome, labelKeys, List.mem_map]

/-- With distinct keys, the label of a name is the one that has its key. -/
theorem lookup?_eq_some_iff (hkeys : t.labelKeys.Nodup) :
    t.lookup? name = some l ↔ l ∈ t.labels ∧ t.key l.name = t.key name := by
  refine ⟨mem_of_lookup?, fun ⟨hl, hkey⟩ => ?_⟩
  obtain ⟨m, hm⟩ := Option.isSome_iff_exists.1 (lookup?_isSome.2 ⟨l, hl, hkey⟩)
  obtain ⟨hmem, hmkey⟩ := mem_of_lookup? hm
  rw [hm, List.inj_on_of_nodup_map hkeys hmem hl (hmkey.trans hkey.symm)]

theorem define_eq_error {e : Label} : t.define l = .error e ↔ t.lookup? l.name = some e := by
  cases h : t.lookup? l.name with
  | some existing => rw [define_of_some h, Except.error.injEq, Option.some.injEq]
  | none =>
    obtain ⟨t', ht, -⟩ := exists_define_of_none h
    rw [ht]
    exact iff_of_false nofun nofun

theorem define_eq_ok {t' : SymbolTable} :
    t.define l = .ok t' ↔ t.key l.name ∉ t.labelKeys ∧ t.AddsLabel l t' := by
  rw [← lookup?_isSome_iff_mem]
  cases h : t.lookup? l.name with
  | some existing =>
    rw [define_of_some h]
    exact iff_of_false nofun fun hnew => hnew.1 rfl
  | none =>
    obtain ⟨s, hs, hcase, hlabels, huses⟩ := exists_define_of_none h
    rw [hs, Except.ok.injEq]
    constructor
    · rintro rfl
      refine ⟨nofun, hcase, ?_, hlabels, huses, ?_⟩
      · rw [s.inStep.defs_eq, t.inStep.defs_eq, hlabels, hcase, List.map_append]
        rfl
      · rw [s.inStep.names_eq, t.inStep.names_eq, huses]
    · rintro ⟨-, hadds⟩
      exact eq_of_lists (hcase.trans hadds.caseFold_eq.symm) (hlabels.trans hadds.labels_eq.symm)
        (huses.trans hadds.useLists_eq.symm)

theorem call_define_of_mem (h : t.key l.name ∈ t.labelKeys) : t.call (.define l) = t := by
  obtain ⟨e, he⟩ := Option.isSome_iff_exists.1 (lookup?_isSome_iff_mem.2 h)
  rw [call, define_eq_error.2 he]

end SymbolTable

/-! ## Operations on ledgers -/

namespace Ledger

open SymbolTable (Call)

variable (l : Ledger)

/-- The ledger after an operation. -/
def call : Call → Ledger
  | .define label =>
    match l.define label with
    | .ok l' => l'
    | .error _ => l
  | .use u => l.use u
  | .resolve => l.resolve.1

/-- The ledger after a sequence of operations. -/
def after (caseFold : Bool) (calls : List Call) : Ledger := calls.foldl call { caseFold }

theorem call_table (c : Call) : l.table.call c = (l.call c).table := by
  cases c with
  | define label =>
    rw [SymbolTable.call, define_table, call]
    cases l.define label <;> rfl
  | use u => exact l.use_table u
  | resolve => exact congrArg Prod.fst l.resolve_table

theorem after_table (caseFold : Bool) (calls : List Call) :
    SymbolTable.after caseFold calls = (after caseFold calls).table := by
  induction calls using List.reverseRecOn with
  | nil => rfl
  | append_singleton calls c ih =>
    rw [SymbolTable.after, List.foldl_append, after, List.foldl_append]
    show (SymbolTable.after caseFold calls).call c = ((after caseFold calls).call c).table
    rw [ih, call_table]

/-- A ledger holds what a sequence of operations put into it. -/
structure Records (caseFold : Bool) (calls : List Call) : Prop where
  caseFold_eq : l.caseFold = caseFold
  labels_eq : l.labels = (calls.filterMap Call.label?).eraseDupsBy l.table.sameKey
  uses_eq : l.uses.map Use.blank = (calls.filterMap Call.use?).map Use.blank

variable {l} {caseFold : Bool} {calls : List Call}

/-- Resolution changes nothing but the cells of uses. -/
theorem map_blank_resolve : l.resolve.1.uses.map Use.blank = l.uses.map Use.blank := by
  have hblank (u : Use) : (l.bind u).blank = u.blank := by
    unfold bind
    cases l.offset? u.name <;> rfl
  rw [resolve_fst, settle_eq, mapUses, List.map_map]
  refine List.map_congr_left fun u _ => ?_
  rw [Function.comp_apply]
  split
  · exact hblank u
  · rfl

theorem Records.define (h : l.Records caseFold calls) (label : Label) :
    (l.call (.define label)).Records caseFold (calls ++ [.define label]) := by
  obtain ⟨hfold, hlabels, huses⟩ := h
  have huses' : l.uses.map Use.blank =
      ((calls ++ [Call.define label]).filterMap Call.use?).map Use.blank := by
    simpa [List.filterMap_cons, Call.use?] using huses
  have hdefined : (calls ++ [Call.define label]).filterMap Call.label? =
      calls.filterMap Call.label? ++ [label] := by
    simp [Call.label?]
  have hany : ((calls.filterMap Call.label?).eraseDupsBy l.table.sameKey).any
      (l.table.sameKey label) = (l.lookup? label.name).isSome := by
    rw [← hlabels, lookup?, labelAt?, List.isSome_find?]
    exact congrArg l.labels.any (funext fun m => Bool.beq_comm)
  -- a second definition of a key is dropped by the ledger and by `eraseDupsBy` alike
  rw [call, Ledger.define]
  cases hlookup : l.lookup? label.name with
  | some existing =>
    refine ⟨hfold, ?_, huses'⟩
    rw [hdefined, eraseDupsBy_concat, hany, hlookup, Option.isSome_some, if_pos rfl, ← hlabels]
  | none =>
    refine ⟨hfold, ?_, huses'⟩
    show l.labels ++ [label] = List.eraseDupsBy l.table.sameKey _
    rw [hdefined, eraseDupsBy_concat, hany, hlookup, Option.isSome_none,
      if_neg Bool.false_ne_true, ← hlabels]

theorem Records.call (h : l.Records caseFold calls) (c : Call) :
    (l.call c).Records caseFold (calls ++ [c]) := by
  cases c with
  | define label => exact h.define label
  | use u =>
    refine ⟨h.caseFold_eq, ?_, ?_⟩
    · show l.labels = List.eraseDupsBy l.table.sameKey _
      simpa [List.filterMap_cons, Call.label?] using h.labels_eq
    · simp [Ledger.call, Ledger.use, Call.use?, h.uses_eq]
  | resolve =>
    have hlabels : l.resolve.1.labels = l.labels := by rw [resolve_fst]; rfl
    have hfold : l.resolve.1.caseFold = l.caseFold := by rw [resolve_fst]; rfl
    refine ⟨hfold.trans h.caseFold_eq, ?_, ?_⟩
    · have hkey : l.resolve.1.table.sameKey = l.table.sameKey := by rw [resolve_fst]; rfl
      rw [Ledger.call, hlabels, hkey]
      simpa [List.filterMap_cons, Call.label?] using h.labels_eq
    · rw [Ledger.call, map_blank_resolve]
      simpa [List.filterMap_cons, Call.use?] using h.uses_eq

theorem records_after (caseFold : Bool) (calls : List Call) :
    (after caseFold calls).Records caseFold calls := by
  induction calls using List.reverseRecOn with
  | nil => exact ⟨rfl, rfl, rfl⟩
  | append_singleton calls c ih =>
    rw [after, List.foldl_append]
    exact ih.call c

theorem Records.nodup_labelKeys (h : l.Records caseFold calls) : l.table.labelKeys.Nodup := by
  rw [SymbolTable.labelKeys, table_labels, h.labels_eq]
  refine List.pairwise_map.2 ((pairwise_eraseDupsBy l.table.sameKey _).imp fun hne heq => ?_)
  simp [SymbolTable.sameKey, heq] at hne

/-- The uses of a name are those of the sequence that have its key. -/
theorem Records.usesOf_eq (h : l.Records caseFold calls) (name : Bytes) :
    (l.table.usesOf name).map Use.blank = ((calls.filterMap Call.use?).filter fun u =>
      l.table.key u.name == l.table.key name).map Use.blank := by
  have hblank (us : List Use) : (us.filter fun u => l.key u.name == l.key name).map Use.blank =
      (us.map Use.blank).filter fun u => l.key u.name == l.key name := by
    rw [List.filter_map]
    rfl
  rw [usesOf_table, usesAt, hblank, h.uses_eq, ← hblank]
  rfl

/-- The names of the table are the used keys of the sequence. -/
theorem Records.names_eq (h : l.Records caseFold calls) : l.table.names =
    ((calls.filterMap Call.use?).map fun u => l.table.key u.name).eraseDups := by
  have hblank (us : List Use) :
      us.map (fun u => l.key u.name) = (us.map Use.blank).map fun u => l.key u.name := by
    rw [List.map_map]
    rfl
  show l.usedKeys = _
  rw [usedKeys, hblank, h.uses_eq, ← hblank]
  rfl

end Ledger

/-! ## Resolution by keys -/

namespace SymbolTable

/-- A use after resolution has settled the keys `done` : it has the address of its definition if
its key is one of them, and is as before otherwise. -/
def SettledUse (t : SymbolTable) (done : List Bytes) (before now : Use) : Prop :=
  (t.key before.name ∈ done → ∃ l ∈ t.labels, t.key l.name = t.key before.name ∧
    now = { before with value := .resolved l.offset }) ∧
  (t.key before.name ∉ done → now = before)

/-- Resolution has settled the uses whose keys are in `done`, and changed nothing else. -/
structure Settles (t : SymbolTable) (done : List Bytes) (t' : SymbolTable) : Prop where
  caseFold_eq : t'.caseFold = t.caseFold
  defs_eq : t'.defs = t.defs
  labels_eq : t'.labels = t.labels
  names_eq : t'.names = t.names
  uses : ∀ name, List.Forall₂ (t.SettledUse done) (t.usesOf name) (t'.usesOf name)

end SymbolTable

namespace Ledger

variable (l : Ledger)

theorem isDefined_iff_mem {k : Bytes} : l.isDefined k = true ↔ k ∈ l.table.labelKeys := by
  rw [isDefined, labelAt?, List.find?_isSome, SymbolTable.labelKeys, List.mem_map]
  simp only [beq_iff_eq]
  rfl

/-- A use with a label for its key is bound to that label. -/
theorem settledUse_bind {done : List Bytes} {u : Use} (hu : l.key u.name ∈ done)
    (hdone : ∀ k ∈ done, k ∈ l.table.labelKeys) : l.table.SettledUse done u (l.bind u) := by
  refine ⟨fun _ => ?_, absurd hu⟩
  obtain ⟨label, hlabel⟩ :=
    Option.isSome_iff_exists.1 (SymbolTable.lookup?_isSome_iff_mem.2 (hdone _ hu))
  obtain ⟨hmem, hkey⟩ := SymbolTable.mem_of_lookup? hlabel
  rw [lookup?_table] at hlabel
  refine ⟨label, hmem, hkey, ?_⟩
  rw [bind, offset?, hlabel]
  rfl

/-- Settling keys that have labels. -/
theorem settles_settle {done : List Bytes} (hdone : ∀ k ∈ done, k ∈ l.table.labelKeys) :
    l.table.Settles done (l.settle done).table := by
  refine ⟨rfl, rfl, rfl, l.usedKeys_mapUses (l.name_settled done), fun name => ?_⟩
  have hsame : (l.settle done).key = l.key := rfl
  rw [usesOf_table, usesOf_table, hsame, usesAt_settle]
  split
  · rename_i hname
    refine List.forall₂_map_right_iff.2 (List.forall₂_same.2 fun u hu => ?_)
    exact l.settledUse_bind (key_of_mem_usesAt hu ▸ hname) hdone
  · rename_i hname
    refine List.forall₂_same.2 fun u hu => ⟨fun hmem => ?_, fun _ => rfl⟩
    exact absurd (key_of_mem_usesAt hu ▸ hmem : l.key name ∈ done) hname

theorem resolve_table_eq : l.table.resolve = ((l.settle (l.usedKeys.takeWhile l.isDefined)).table,
    (l.usedKeys.find? (!l.isDefined ·)).bind fun k => (l.usesAt k).head?) :=
  l.resolveKeys_table l.usedKeys

/-- Every used key has a use. -/
theorem exists_head?_usesAt {k : Bytes} (h : k ∈ l.usedKeys) :
    ∃ u, (l.usesAt k).head? = some u := by
  cases hu : l.usesAt k with
  | nil => exact absurd hu (l.usesAt_ne_nil h)
  | cons u rest => exact ⟨u, rfl⟩

theorem resolve_snd_eq_none_iff :
    l.table.resolve.2 = none ↔ ∀ k ∈ l.table.names, k ∈ l.table.labelKeys := by
  have hnames : l.table.names = l.usedKeys := rfl
  simp only [resolve_table_eq, hnames, ← isDefined_iff_mem]
  cases hfind : l.usedKeys.find? (!l.isDefined ·) with
  | none => exact iff_of_true rfl (by simpa using List.find?_eq_none.1 hfind)
  | some k =>
    obtain ⟨u, hu⟩ := l.exists_head?_usesAt (List.mem_of_find?_eq_some hfind)
    have hk : l.isDefined k = false := by simpa using List.find?_some hfind
    refine iff_of_false (by rw [Option.bind_some, hu]; nofun) fun hall => ?_
    rw [hall k (List.mem_of_find?_eq_some hfind)] at hk
    cases hk

/-- Resolution that comes to its end settles every used key. -/
theorem settles_of_snd_eq_none (h : l.table.resolve.2 = none) :
    l.table.Settles l.table.names l.table.resolve.1 := by
  have hdefined := l.resolve_snd_eq_none_iff.1 h
  have hall : ∀ k ∈ l.usedKeys, l.isDefined k = true := fun k hk =>
    l.isDefined_iff_mem.2 (hdefined k hk)
  have hfst : l.table.resolve.1 = (l.settle l.usedKeys).table := by
    rw [resolve_table_eq, List.takeWhile_eq_self_iff.2 hall]
  rw [hfst]
  exact l.settles_settle hdefined

/-- Resolution that stops has settled the keys before the first one without a label, and returns
the first use of that key. -/
theorem settles_of_snd_eq_some {u : Use} (h : l.table.resolve.2 = some u) :
    ∃ done rest, l.table.names = done ++ l.table.key u.name :: rest ∧
      (∀ k ∈ done, k ∈ l.table.labelKeys) ∧ l.table.key u.name ∉ l.table.labelKeys ∧
      (l.table.usesOf u.name).head? = some u ∧ l.table.Settles done l.table.resolve.1 := by
  rw [resolve_table_eq] at h
  obtain ⟨k, hk, hu⟩ := Option.bind_eq_some_iff.1 h
  have hkey : l.table.key u.name = k := key_of_mem_usesAt (List.mem_of_head? hu)
  obtain ⟨hundefined, done, rest, hkeys, hdone⟩ := List.find?_eq_some_iff_append.1 hk
  have hdefined : ∀ j ∈ done, l.isDefined j = true := by simpa using hdone
  have hnot : ¬l.isDefined k = true := by simpa using hundefined
  -- the keys before this one are those that resolution has gone through
  have hfst : l.table.resolve.1 = (l.settle done).table := by
    rw [resolve_table_eq, hkeys, List.takeWhile_append_of_pos hdefined,
      List.takeWhile_cons_of_neg hnot, List.append_nil]
  have hlabels : ∀ j ∈ done, j ∈ l.table.labelKeys := fun j hj =>
    l.isDefined_iff_mem.1 (hdefined j hj)
  have hfirst : (l.table.usesOf u.name).head? = some u := by
    rw [usesOf_table, ← hu, ← hkey]
    rfl
  refine ⟨done, rest, ?_, hlabels, ?_, hfirst, ?_⟩
  · rw [hkey]
    exact hkeys
  · rw [hkey]
    exact mt l.isDefined_iff_mem.2 hnot
  · rw [hfst]
    exact l.settles_settle hlabels

end Ledger

/-! ## Any sequence of operations -/

namespace SymbolTable

/-- After any sequence of operations the labels have distinct keys and are found by them, and are
the definitions that came first, in order; the uses of a name are those of the sequence, in order,
and the used keys are listed once each, by first use. A definition fails exactly if its key is
taken, by the label that has it. Resolution succeeds exactly if every used key has a label; if it
fails it names the first key that has none at its first use, the uses of keys before it are
resolved and all others are as they were. -/
theorem table_after_calls (caseFold : Bool) (calls : List Call) :
    let t := after caseFold calls
    (t.labelKeys.Nodup ∧
      (∀ name l, t.lookup? name = some l ↔ l ∈ t.labels ∧ t.key l.name = t.key name) ∧
      t.labels = (calls.filterMap Call.label?).eraseDupsBy t.sameKey) ∧
    ((∀ name, (t.usesOf name).map Use.blank =
        ((calls.filterMap Call.use?).filter fun u => t.key u.name == t.key name).map Use.blank) ∧
      t.names.Nodup ∧
      t.names = ((calls.filterMap Call.use?).map fun u => t.key u.name).eraseDups) ∧
    (∀ l,
      (∀ e, t.define l = .error e ↔ e ∈ t.labels ∧ t.key e.name = t.key l.name) ∧
      (∀ t', t.define l = .ok t' ↔ t.key l.name ∉ t.labelKeys ∧ t.AddsLabel l t') ∧
      (t.key l.name ∈ t.labelKeys → after caseFold (calls ++ [.define l]) = t)) ∧
    (t.resolve.2 = none ↔ ∀ k ∈ t.names, k ∈ t.labelKeys) ∧
    (t.resolve.2 = none → t.Settles t.names t.resolve.1) ∧
    (∀ u, t.resolve.2 = some u →
      ∃ done rest, t.names = done ++ t.key u.name :: rest ∧ (∀ k ∈ done, k ∈ t.labelKeys) ∧
        t.key u.name ∉ t.labelKeys ∧ (t.usesOf u.name).head? = some u ∧
        t.Settles done t.resolve.1) := by
  intro t
  have hledger : t = (Ledger.after caseFold calls).table := Ledger.after_table caseFold calls
  have hrecords := Ledger.records_after caseFold calls
  have hkeys : t.labelKeys.Nodup := hledger ▸ hrecords.nodup_labelKeys
  refine ⟨⟨hkeys, fun name l => lookup?_eq_some_iff hkeys, ?_⟩, ⟨?_, t.inStep.nodup, ?_⟩,
    fun l => ⟨fun e => ?_, fun t' => define_eq_ok, fun hmem => ?_⟩, ?_, ?_, ?_⟩
  · rw [hledger]
    exact hrecords.labels_eq
  · rw [hledger]
    exact hrecords.usesOf_eq
  · rw [hledger]
    exact hrecords.names_eq
  · rw [define_eq_error, lookup?_eq_some_iff hkeys]
  · rw [after, List.foldl_append]
    exact call_define_of_mem hmem
  · rw [hledger]
    exact (Ledger.after caseFold calls).resolve_snd_eq_none_iff
  · rw [hledger]
    exact (Ledger.after caseFold calls).settles_of_snd_eq_none
  · rw [hledger]
    exact fun u => (Ledger.after caseFold calls).settles_of_snd_eq_some

end SymbolTable

end Asm16
