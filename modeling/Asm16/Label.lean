import Asm16.Site
import Asm16.Text.Folding
import Asm16.Token

/-!
# Labels

A label names the address of its line. A local label, marked by a dot, belongs to the global label
before it : its full name is the global name followed by its own (`qualify`).

A `SymbolTable` collects definitions and uses. Names are compared by `key`, which folds letter case
if the table says so. Definitions are found by key and kept in order, uses are kept by key, and the
keys that are used are kept by first use; the four containers are always in step (`InStep`).
`resolve` gives every use the address of its definition, key after key.
-/

namespace Asm16

/-- The full name of the label a lexeme defines or uses, and the global label in force after it. -/
def qualify (scope : Bytes) (l : Lexeme) : Bytes × Bytes :=
  if l.isLocal then (scope ++ l.name, scope)
  else (l.name, if l.kind = .labelDef then l.name else scope)

/-- A label definition. -/
structure Label where
  name : Bytes
  isLocal : Bool
  site : Site
  /-- The position of its line among all lines. -/
  line : Nat := 0
  /-- The address of its line, once it is known. -/
  offset : Int := 0
  deriving DecidableEq, Repr

/-- Gives a definition the address `offset` has for its line. -/
def Label.locate (offset : Nat → Int) (l : Label) : Label := { l with offset := offset l.line }

/-- A label use. -/
structure Use where
  name : Bytes
  site : Site
  value : Cell := .pending
  deriving DecidableEq, Repr

/-- Gives a use an address. -/
def Use.resolve (n : Int) (u : Use) : Use := { u with value := .resolved n }

/-! ## Maps -/

/-- A map from keys, as pairs in the order in which the keys came into it. -/
abbrev Keyed (α : Type) := List (Bytes × α)

namespace Keyed

variable {α : Type} {k : Bytes} {v : α}

/-- Gives a key a value, in place of the one it has. -/
def set (k : Bytes) (v : α) : Keyed α → Keyed α
  | [] => [(k, v)]
  | e :: rest => if e.1 = k then (k, v) :: rest else e :: set k v rest

/-- A key that is new comes to the end. -/
theorem set_of_not_mem {m : Keyed α} (h : k ∉ m.map (·.1)) : set k v m = m ++ [(k, v)] := by
  induction m with
  | nil => rfl
  | cons e rest ih =>
    rw [List.map_cons, List.mem_cons, not_or] at h
    rw [set, if_neg (Ne.symm h.1), ih h.2, List.cons_append]

theorem keys_set_of_mem {m : Keyed α} (h : k ∈ m.map (·.1)) :
    (set k v m).map (·.1) = m.map (·.1) := by
  induction m with
  | nil => cases h
  | cons e rest ih =>
    by_cases he : e.1 = k
    · rw [set, if_pos he, List.map_cons, List.map_cons, he]
    · rw [List.map_cons, List.mem_cons] at h
      rw [set, if_neg he, List.map_cons, List.map_cons, ih (h.resolve_left (Ne.symm he))]

theorem mem_of_mem_set {m : Keyed α} {e : Bytes × α} (h : e ∈ set k v m) :
    e = (k, v) ∨ e ∈ m := by
  induction m with
  | nil => exact .inl (List.mem_singleton.1 h)
  | cons d rest ih =>
    by_cases hd : d.1 = k
    · rw [set, if_pos hd, List.mem_cons] at h
      exact h.imp_right (List.mem_cons_of_mem d)
    · rw [set, if_neg hd, List.mem_cons] at h
      rcases h with rfl | h
      · exact .inr List.mem_cons_self
      · exact (ih h).imp_right (List.mem_cons_of_mem d)

theorem lookup_eq_none {m : Keyed α} : m.lookup k = none ↔ k ∉ m.map (·.1) := by
  rw [List.lookup_eq_none_iff, List.mem_map]
  constructor
  · rintro h ⟨e, he, rfl⟩
    exact ne_of_beq_false (Bool.not_eq_true' _ ▸ h e he) rfl
  · intro h e he
    exact bne_iff_ne.2 fun hk => h ⟨e, he, hk.symm⟩

theorem mem_of_lookup {m : Keyed α} (h : m.lookup k = some v) : (k, v) ∈ m := by
  obtain ⟨front, back, rfl, -⟩ := List.lookup_eq_some_iff.1 h
  exact List.mem_append_right front List.mem_cons_self

end Keyed

/-! ## Symbol tables -/

/-- What label names are compared by. -/
def nameKey (caseFold : Bool) (name : Bytes) : Bytes := if caseFold then foldText name else name

/-- The containers of a table are in step : a definition is found by its key exactly if it is in the
list, every key that is used is listed once, and its uses are there, under it alone. -/
structure InStep (key : Bytes → Bytes) (defs : Keyed Label) (labels : List Label)
    (useLists : Keyed (List Use)) (names : List Bytes) : Prop where
  defs_eq : defs = labels.map fun l => (key l.name, l)
  names_eq : names = useLists.map (·.1)
  nodup : names.Nodup
  ne_nil : ∀ e ∈ useLists, e.2 ≠ []
  keyed : ∀ e ∈ useLists, ∀ u ∈ e.2, key u.name = e.1

namespace InStep

variable {key : Bytes → Bytes} {defs : Keyed Label} {labels : List Label}
  {useLists : Keyed (List Use)} {names : List Bytes}

theorem nil : InStep key [] [] [] [] :=
  ⟨rfl, rfl, List.nodup_nil, fun _ h => absurd h List.not_mem_nil,
    fun _ h => absurd h List.not_mem_nil⟩

theorem mem_names (h : InStep key defs labels useLists names) (k : Bytes) :
    useLists.lookup k = none ↔ k ∉ names := by
  rw [Keyed.lookup_eq_none, h.names_eq]

theorem define (h : InStep key defs labels useLists names) {l : Label}
    (hl : defs.lookup (key l.name) = none) :
    InStep key (Keyed.set (key l.name) l defs) (labels ++ [l]) useLists names := by
  refine ⟨?_, h.names_eq, h.nodup, h.ne_nil, h.keyed⟩
  rw [Keyed.set_of_not_mem (Keyed.lookup_eq_none.1 hl), h.defs_eq, List.map_append,
    List.map_singleton]

theorem use (h : InStep key defs labels useLists names) (u : Use) :
    let list := useLists.lookup (key u.name)
    InStep key defs labels (Keyed.set (key u.name) (list.getD [] ++ [u]) useLists)
      (if list.isNone then names ++ [key u.name] else names) := by
  intro list
  have hkeyed : ∀ v ∈ list.getD [], key v.name = key u.name := by
    cases hlist : useLists.lookup (key u.name) with
    | none =>
      intro v hv
      rw [show list = none from hlist, Option.getD_none] at hv
      exact absurd hv List.not_mem_nil
    | some us =>
      rw [show list = some us from hlist, Option.getD_some]
      exact h.keyed _ (Keyed.mem_of_lookup hlist)
  refine ⟨h.defs_eq, ?_, ?_, fun e he => ?_, fun e he => ?_⟩
  · by_cases hlist : useLists.lookup (key u.name) = none
    · rw [show list = none from hlist, Option.isNone_none, if_pos rfl,
        Keyed.set_of_not_mem (Keyed.lookup_eq_none.1 hlist), List.map_append, h.names_eq,
        List.map_singleton]
    · rw [if_neg (by rwa [Option.isNone_iff_eq_none]),
        Keyed.keys_set_of_mem (Decidable.not_not.1 (mt Keyed.lookup_eq_none.2 hlist)), h.names_eq]
  · split
    · rename_i hlist
      have hnew := (h.mem_names _).1 (Option.isNone_iff_eq_none.1 hlist)
      refine List.nodup_append.2 ⟨h.nodup, List.pairwise_singleton _ _, fun a ha b hb => ?_⟩
      rw [List.mem_singleton.1 hb]
      exact fun hab => hnew (hab ▸ ha)
    · exact h.nodup
  · rcases Keyed.mem_of_mem_set he with rfl | he
    · exact List.append_ne_nil_of_right_ne_nil _ (List.cons_ne_nil u [])
    · exact h.ne_nil e he
  · rcases Keyed.mem_of_mem_set he with rfl | he
    · intro v hv
      rcases List.mem_append.1 hv with hv | hv
      · exact hkeyed v hv
      · rw [List.mem_singleton.1 hv]
    · exact h.keyed e he

theorem patch (h : InStep key defs labels useLists names) (k : Bytes) (n : Int) :
    InStep key defs labels
      (useLists.map fun e => (e.1, if e.1 = k then e.2.map (Use.resolve n) else e.2)) names := by
  refine ⟨h.defs_eq, ?_, h.nodup, fun e he => ?_, fun e he u hu => ?_⟩
  · rw [h.names_eq, List.map_map]
    rfl
  · obtain ⟨d, hd, rfl⟩ := List.mem_map.1 he
    by_cases hk : d.1 = k
    · rw [if_pos hk]
      exact mt List.map_eq_nil_iff.1 (h.ne_nil d hd)
    · rw [if_neg hk]
      exact h.ne_nil d hd
  · obtain ⟨d, hd, rfl⟩ := List.mem_map.1 he
    by_cases hk : d.1 = k
    · rw [if_pos hk] at hu
      obtain ⟨v, hv, rfl⟩ := List.mem_map.1 hu
      exact h.keyed d hd v hv
    · rw [if_neg hk] at hu
      exact h.keyed d hd u hu

theorem locate (h : InStep key defs labels useLists names) (offset : Nat → Int) :
    InStep key (defs.map fun e => (e.1, e.2.locate offset)) (labels.map (Label.locate offset))
      useLists names := by
  refine ⟨?_, h.names_eq, h.nodup, h.ne_nil, h.keyed⟩
  rw [h.defs_eq, List.map_map, List.map_map]
  rfl

end InStep

/-- Label definitions and uses. -/
structure SymbolTable where
  /-- Names that differ only in letter case are the same. -/
  caseFold : Bool
  /-- The definitions, by key. -/
  defs : Keyed Label
  /-- The definitions, in order. -/
  labels : List Label
  /-- The uses of each key, in order. -/
  useLists : Keyed (List Use)
  /-- The keys that are used, in the order of first use. -/
  names : List Bytes
  inStep : InStep (nameKey caseFold) defs labels useLists names
  deriving DecidableEq, Repr

namespace SymbolTable

/-- A table without definitions and uses. -/
def empty (caseFold : Bool) : SymbolTable := ⟨caseFold, [], [], [], [], .nil⟩

/-- What names are compared by. -/
def key (t : SymbolTable) (name : Bytes) : Bytes := nameKey t.caseFold name

/-- The definition of a name. -/
def lookup? (t : SymbolTable) (name : Bytes) : Option Label := t.defs.lookup (t.key name)

/-- Adds a definition; if its key is taken, the error is the definition that has it. -/
def define (t : SymbolTable) (l : Label) : Except Label SymbolTable :=
  match h : t.defs.lookup (t.key l.name) with
  | some existing => .error existing
  | none =>
    .ok { t with
      defs := Keyed.set (t.key l.name) l t.defs
      labels := t.labels ++ [l]
      inStep := t.inStep.define h }

/-- Adds a use; a key that was not used before comes to the end of the names. -/
def use (t : SymbolTable) (u : Use) : SymbolTable :=
  let list := t.useLists.lookup (t.key u.name)
  { t with
    useLists := Keyed.set (t.key u.name) (list.getD [] ++ [u]) t.useLists
    names := if list.isNone then t.names ++ [t.key u.name] else t.names
    inStep := t.inStep.use u }

/-- The uses of a name. -/
def usesOf (t : SymbolTable) (name : Bytes) : List Use :=
  (t.useLists.lookup (t.key name)).getD []

/-- The address of a name's definition. -/
def offset? (t : SymbolTable) (name : Bytes) : Option Int := (t.lookup? name).map (·.offset)

/-- Gives the uses of a key an address. -/
def patch (t : SymbolTable) (k : Bytes) (n : Int) : SymbolTable :=
  { t with
    useLists := t.useLists.map fun e => (e.1, if e.1 = k then e.2.map (Use.resolve n) else e.2)
    inStep := t.inStep.patch k n }

/-- Gives the uses of keys the addresses of their definitions, key after key. At a key without a
definition it stops and returns the first use of it; uses of that key and of later ones stay as they
were. -/
def resolveKeys (t : SymbolTable) : List Bytes → SymbolTable × Option Use
  | [] => (t, none)
  | k :: rest =>
    match t.defs.lookup k with
    | none => (t, ((t.useLists.lookup k).getD []).head?)
    | some l => (t.patch k l.offset).resolveKeys rest

/-- Resolves the uses of all keys, in the order of first use. -/
def resolve (t : SymbolTable) : SymbolTable × Option Use := t.resolveKeys t.names

/-- Gives every definition the address `offset` has for its line. -/
def locate (t : SymbolTable) (offset : Nat → Int) : SymbolTable :=
  { t with
    defs := t.defs.map fun e => (e.1, e.2.locate offset)
    labels := t.labels.map (Label.locate offset)
    inStep := t.inStep.locate offset }

end SymbolTable

end Asm16
