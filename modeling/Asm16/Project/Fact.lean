import Asm16.Project.Item
import Asm16.Text.Composed

/-!
# Facts of a project file

A project file is read as a list of facts : at a path of labels stands a value, or there is a
structure or a list with more below. The file `a: {b: 1}` says that there is a structure at the top
and one at `a`, and that `1` stands at `a`, `b`. A file may state a fact more than once; facts about
one path have to agree, so structures that are given in several places are merged.
-/

namespace Asm16.Project

/-- A step of a path. -/
inductive Label where
  | field (name : Bytes)
  /-- A field with a name of its own kind, which is not part of the data. -/
  | hidden (name : Bytes)
  | index (n : Nat)
  deriving DecidableEq, Repr

/-- The label an item spells. A quoted name counts in its composed form, a word as it is. -/
def Label.ofItem? : Item → Option Label
  | .text name => some (.field (Composed.text name))
  | .word name =>
    if name.head? = some (byte '#') then some (.hidden name)
    else if name.head? = some (byte '_') then
      match name.drop 1 with
      | [] => none
      | c :: _ => if c = byte '_' then none else some (.hidden name)
    else some (.field name)
  | _ => none

/-- What stands at a path. -/
inductive Leaf where
  | null
  | bool (b : Bool)
  | int (n : Int)
  /-- `digits` divided by ten to the power of `places`. -/
  | fraction (digits : Int) (places : Nat)
  | text (contents : Bytes)
  | struct
  | list (size : Nat)
  deriving DecidableEq, Repr

/-- The value an item spells. -/
def Leaf.ofItem? : Item → Option Leaf
  | .int n => some (.int n)
  | .fraction digits places => some (.fraction digits places)
  | .text contents => some (.text contents)
  | .word name =>
    if name = "true" then some (.bool true)
    else if name = "false" then some (.bool false)
    else if name = "null" then some .null
    else none
  | .mark _ => none

/-- A value at a path. -/
structure Fact where
  path : List Label
  leaf : Leaf
  deriving DecidableEq, Repr

/-- A number with signs before it. -/
def signed? (sign : Int) : List Item → Option (Leaf × List Item)
  | .mark '-' :: rest => signed? (-sign) rest
  | .mark '+' :: rest => signed? sign rest
  | .int n :: rest => some (.int (sign * n), rest)
  | .fraction digits places :: rest => some (.fraction (sign * digits) places, rest)
  | _ => none

theorem signed?_rest {sign : Int} {s rest : List Item} {leaf : Leaf}
    (h : signed? sign s = some (leaf, rest)) : rest.length < s.length := by
  fun_induction signed? sign s <;> grind

/-- What follows the mark at the front. -/
def after? (c : Char) (s : List Item) : Option { r : List Item // r.length < s.length } :=
  match s with
  | .mark d :: rest => if d = c then some ⟨rest, by simp⟩ else none
  | _ => none

/-- How an entry stands among others. -/
inductive Role where
  | field
  | hidden
  /-- A value without a label. -/
  | value
  deriving DecidableEq, Repr

/-- The role of an entry with a label. -/
def Label.role : Label → Role
  | hidden _ => .hidden
  | _ => .field

/-- Entries one after another : the role of each, and the facts of all. -/
structure Entries where
  roles : List Role
  facts : List Fact

/-- The facts of entries in braces at `path`. There is a structure, unless values stand there and at
most hidden fields beside them; what stands at `path` is then those values. -/
def Entries.braced (es : Entries) (path : List Label) : List Fact :=
  if es.roles.contains .value && !es.roles.contains .field then es.facts
  else ⟨path, .struct⟩ :: es.facts

/-- The facts of entries in brackets at `path`, which have no labels. -/
def Entries.listed? (es : Entries) (path : List Label) : Option (List Fact) :=
  if es.roles.all (· == .value) then some (⟨path, .list es.roles.length⟩ :: es.facts) else none

mutual

/-- The role and the facts of the entry at the front, which stands at `path` : a value, or a label
with the entry below it. -/
def entry? (path : List Label) (s : List Item) :
    Option (Role × List Fact × { r : List Item // r.length < s.length }) :=
  match s with
  | [] => none
  | first :: .mark ':' :: rest => do
    let label ← Label.ofItem? first
    let (role, facts, ⟨after, h⟩) ← entry? (path ++ [label]) rest
    some (label.role, Entries.braced ⟨[role], facts⟩ (path ++ [label]),
      ⟨after, by simp only [List.length_cons]; omega⟩)
  | .mark '{' :: rest => do
    let (es, ⟨inner, h⟩) ← entries? (fun _ => path) 0 rest
    let ⟨more, h'⟩ ← after? '}' inner
    some (.value, es.braced path, ⟨more, by simp only [List.length_cons]; omega⟩)
  | .mark '[' :: rest => do
    let (es, ⟨inner, h⟩) ← entries? (fun n => path ++ [.index n]) 0 rest
    let ⟨more, h'⟩ ← after? ']' inner
    let facts ← es.listed? path
    some (.value, facts, ⟨more, by simp only [List.length_cons]; omega⟩)
  | .mark c :: rest =>
    match h : signed? 1 (.mark c :: rest) with
    | some (leaf, after) => some (.value, [⟨path, leaf⟩], ⟨after, signed?_rest h⟩)
    | none => none
  | first :: rest => do
    let leaf ← Leaf.ofItem? first
    some (.value, [⟨path, leaf⟩], ⟨rest, by simp⟩)
termination_by 2 * s.length
decreasing_by all_goals simp only [List.length_cons]; omega

/-- Entries with commas between them, up to a closing mark or the end; the `n`-th entry stands at
`path n`. -/
def entries? (path : Nat → List Label) (n : Nat) (s : List Item) :
    Option (Entries × { r : List Item // r.length ≤ s.length }) :=
  if s = [] ∨ s.head? = some (.mark '}') ∨ s.head? = some (.mark ']') then
    some (⟨[], []⟩, ⟨s, Nat.le_refl _⟩)
  else do
    let (role, facts, ⟨after, h⟩) ← entry? (path n) s
    match after? ',' after with
    | some ⟨rest, h'⟩ => do
      let (more, ⟨r, h''⟩) ← entries? path (n + 1) rest
      some (⟨role :: more.roles, facts ++ more.facts⟩, ⟨r, by omega⟩)
    | none => some (⟨[role], facts⟩, ⟨after, by omega⟩)
termination_by 2 * s.length + 1
decreasing_by all_goals omega

end

/-- The facts of a project file, which is a structure without its braces. -/
def facts? (file : Bytes) : Option (List Fact) := do
  let items ← items? file
  let (es, ⟨rest, _⟩) ← entries? (fun _ => []) 0 items
  if rest.isEmpty then some (es.braced []) else none

/-- Facts about one path are the same fact. -/
def agree (facts : List Fact) : Bool :=
  facts.all fun f => facts.all fun g => f.path != g.path || f.leaf == g.leaf

end Asm16.Project
