import Asm16.Arith.Tree

/-!
# Reading arithmetic

`Tree.ofStream` reads a whole stream of symbols as one tree. Operators of one level associate to the
left, comparisons do not associate at all. `climb least` reads operands joined by operators that
bind at least as tightly as `least`, and `chain least x` what follows a tree `x` read so far.

Every function returns the symbols it left, with the proof that there are fewer of them (`Below`),
or no more (`UpTo`).
-/

namespace Asm16.Arith

/-- A flaw at a column. -/
structure FormError where
  column : Nat
  flaw : Flaw
  deriving DecidableEq, Repr

/-- A tree and the rest of the stream, shorter than `s`. -/
abbrev Below (s : Stream) := { r : Tree × Stream // r.2.length < s.length }

/-- A tree and the rest of the stream, no longer than `s`. -/
abbrev UpTo (s : Stream) := { r : Tree × Stream // r.2.length ≤ s.length }

/-- The error at a symbol that does not fit, reported after it. -/
def misfit {α : Type} (s : Stream) (flaw : Option Symbol → Flaw) : Except FormError α :=
  match s with
  | .done column => .error ⟨column, flaw none⟩
  | .fault column f => .error ⟨column, f⟩
  | .more symbol _ stop _ => .error ⟨stop, flaw (some symbol)⟩

/-- Takes a closing parenthesis. -/
def close (s : Stream) (flaw : Option Symbol → Flaw) :
    Except FormError { r : Stream // r.length < s.length } :=
  match s with
  | .more .parenClose _ _ rest => .ok ⟨rest, by simp [Stream.length]⟩
  | s => misfit s flaw

/-- Takes the closing parenthesis after an argument. Anything else but the end of the text would
have to be a comma. -/
def closeArgument (s : Stream) : Except FormError { r : Stream // r.length < s.length } :=
  match s with
  | .done column => .error ⟨column, .wantClose none⟩
  | s => close s .wantComma

/-- Leaves out the mark of an argument list given as a whole. -/
def unspread (s : Stream) : { r : Stream // r.length ≤ s.length } :=
  match s with
  | .more .star _ _ rest => ⟨rest, by simp [Stream.length]⟩
  | .more .starStar _ _ rest => ⟨rest, by simp [Stream.length]⟩
  | s => ⟨s, Nat.le_refl _⟩

mutual

/-- A number, a tree in parentheses, or a sign before an operand. -/
def primary (s : Stream) : Except FormError (Below s) :=
  match s with
  | .done column => .error ⟨column, .wantPrimary none⟩
  | .fault column flaw => .error ⟨column, flaw⟩
  | .more (.int n) start _ rest => .ok ⟨(.int start n, rest), by simp [Stream.length]⟩
  | .more .parenOpen start _ (.more .parenClose _ _ rest) =>
    .ok ⟨(.empty start, rest), by simp only [Stream.length]; omega⟩
  | .more .parenOpen start _ rest => do
    let ⟨(x, after), h⟩ ← climb BinaryOp.loosest rest
    let ⟨after, h'⟩ ← close after .wantClose
    .ok ⟨(.paren start x, after), by simp only [Stream.length] at *; omega⟩
  | .more symbol start _ rest =>
    match UnaryOp.ofSymbol? symbol with
    | none => .error ⟨start, .wantPrimary (some symbol)⟩
    | some op => do
      let ⟨(x, after), h⟩ ← operand rest
      .ok ⟨(.unary start op x, after), by simp only [Stream.length] at *; omega⟩
termination_by 4 * s.length
decreasing_by all_goals simp only [Stream.length] at *; omega

/-- A primary and the calls after it. -/
def operand (s : Stream) : Except FormError (Below s) := do
  let ⟨(x, after), h⟩ ← primary s
  let ⟨r, h'⟩ ← calls x after
  .ok ⟨r, by simp only at *; omega⟩
termination_by 4 * s.length + 1
decreasing_by
  · omega
  · simp only at *
    omega

/-- Argument lists after `f`. -/
def calls (f : Tree) (s : Stream) : Except FormError (UpTo s) :=
  match s with
  | .more .parenOpen _ _ rest => do
    let ⟨after, h⟩ ← arguments rest
    let ⟨r, h'⟩ ← calls (.call f) after
    .ok ⟨r, by simp only [Stream.length] at *; omega⟩
  | s => .ok ⟨(f, s), Nat.le_refl _⟩
termination_by 4 * s.length
decreasing_by all_goals simp only [Stream.length] at *; omega

/-- The rest of an argument list, up to its closing parenthesis. There is no comma to write, so
there is at most one argument. -/
def arguments (s : Stream) : Except FormError { r : Stream // r.length < s.length } :=
  match s with
  | .more .parenClose _ _ rest => .ok ⟨rest, by simp [Stream.length]⟩
  | .done column => .error ⟨column, .wantClose none⟩
  | s => do
    let ⟨inner, h⟩ := unspread s
    let ⟨(_, after), h'⟩ ← climb BinaryOp.loosest inner
    let ⟨rest, h''⟩ ← closeArgument after
    .ok ⟨rest, by simp only at *; omega⟩
termination_by 4 * s.length + 3
decreasing_by all_goals omega

/-- Operands joined by operators of level `least` or tighter. -/
def climb (least : Nat) (s : Stream) : Except FormError (Below s) := do
  let ⟨(x, after), h⟩ ← operand s
  let ⟨r, h'⟩ ← chain least x after
  .ok ⟨r, by simp only at *; omega⟩
termination_by 4 * s.length + 2
decreasing_by
  · omega
  · simp only at *
    omega

/-- Goes on after the tree `x` with operators of level `least` or tighter. -/
def chain (least : Nat) (x : Tree) (s : Stream) : Except FormError (UpTo s) :=
  match s with
  | .more symbol start stop rest =>
    match BinaryOp.ofSymbol? symbol with
    | none => .ok ⟨(x, .more symbol start stop rest), Nat.le_refl _⟩
    | some op =>
      if op.level < least then .ok ⟨(x, .more symbol start stop rest), Nat.le_refl _⟩
      else match (if op.isComparison then x.comparison? else none) with
        | some first => .error ⟨stop, .chained first.symbol symbol⟩
        | none => do
          let ⟨(y, after), h⟩ ← climb (op.level + 1) rest
          let ⟨r, h'⟩ ← chain least (.binary op x y) after
          .ok ⟨r, by simp only [Stream.length] at *; omega⟩
  | s => .ok ⟨(x, s), Nat.le_refl _⟩
termination_by 4 * s.length
decreasing_by all_goals simp only [Stream.length] at *; omega

end

/-- Reads a whole stream as one tree. -/
def Tree.ofStream (s : Stream) : Except FormError Tree := do
  let ⟨(x, after), _⟩ ← climb BinaryOp.loosest s
  match after with
  | .done _ => .ok x
  | after => misfit after .wantEnd

/-- Reads an arithmetic text. -/
def Tree.read (s : Bytes) : Except FormError Tree := Tree.ofStream (Stream.scan 1 0 s)

end Asm16.Arith
