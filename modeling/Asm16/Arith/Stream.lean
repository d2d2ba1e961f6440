import Asm16.Text.Numeral

/-!
# Symbols of an arithmetic text

An arithmetic text is written in digits, operators, parentheses, spaces and tabs. `Stream.scan` cuts
it into symbols with their columns, counted from one. A symbol that cannot be read ends the stream
with a fault; it is reported only when reading comes to it.
-/

namespace Asm16.Arith

/-- Symbols. -/
inductive Symbol where
  | int (n : Nat)
  | plus | minus | star | slash | slashSlash | percent | amp | pipe | caret | tilde
  | less | greater | shiftLeft | shiftRight | starStar | parenOpen | parenClose
  deriving DecidableEq, Repr

namespace Symbol

/-- A symbol as it is written; a number stands for its digits. -/
def spelling : Symbol → Bytes
  | int n => Numeral.decimal n
  | plus => "+"
  | minus => "-"
  | star => "*"
  | slash => "/"
  | slashSlash => "//"
  | percent => "%"
  | amp => "&"
  | pipe => "|"
  | caret => "^"
  | tilde => "~"
  | less => "<"
  | greater => ">"
  | shiftLeft => "<<"
  | shiftRight => ">>"
  | starStar => "**"
  | parenOpen => "("
  | parenClose => ")"

/-- A symbol as messages name it. -/
def described : Symbol → Bytes
  | int _ => "int literal"
  | s => "'" ++ s.spelling ++ "'"

end Symbol

/-- What is wrong with the form of an arithmetic text. `got` is the symbol found, or none at the end
of the text. -/
inductive Flaw where
  | strayParen
  | octal (digits : Bytes)
  | badLiteral
  | badByte
  | wantPrimary (got : Option Symbol)
  | wantClose (got : Option Symbol)
  | wantComma (got : Option Symbol)
  | wantEnd (got : Option Symbol)
  | chained (first second : Symbol)
  deriving DecidableEq, Repr

namespace Flaw

/-- The symbol found, as messages name it. -/
def describeGot (got : Option Symbol) : Bytes := got.elim "end of file" Symbol.described

/-- The text of a flaw. -/
def message : Flaw → Bytes
  | strayParen => "unexpected ')'"
  | octal digits => "obsolete form of octal literal; use 0o" ++ digits
  | badLiteral => "invalid int literal"
  | badByte => "unexpected input character"
  | wantPrimary got => "got " ++ describeGot got ++ ", want primary expression"
  | wantClose got => "got " ++ describeGot got ++ ", want ')'"
  | wantComma got => "got " ++ describeGot got ++ ", want ','"
  | wantEnd got => "got " ++ describeGot got ++ " after expression, want EOF"
  | chained first second =>
    first.spelling ++ " does not associate with " ++ second.spelling ++ " (use parens)"

end Flaw

/-- The symbols of a text with the columns where they start and after which they end. -/
inductive Stream where
  /-- The end of the text. -/
  | done (column : Nat)
  /-- A symbol that cannot be read. -/
  | fault (column : Nat) (flaw : Flaw)
  | more (symbol : Symbol) (start stop : Nat) (rest : Stream)
  deriving DecidableEq, Repr

namespace Stream

/-- The number of symbols. -/
def length : Stream → Nat
  | more _ _ _ rest => rest.length + 1
  | _ => 0

/-- The value of a run of decimal digits. -/
def digitsValue (ds : Bytes) : Nat := ds.foldl (fun n d => n * 10 + (d.toNat - 0x30)) 0

/-- What is wrong with a number from column `start` to `stop`. A leading zero is for zero only. -/
def literalFlaw? (ds : Bytes) (start stop : Nat) : Option (Nat × Flaw) :=
  match ds with
  | zero :: tail =>
    if zero = byte '0' ∧ ds.any (· != byte '0') then
      if ds.all (· ≤ byte '7') then some (stop, .octal tail) else some (start, .badLiteral)
    else none
  | [] => none

/-- The symbol of one byte, parentheses and digits aside. -/
def single? (c : UInt8) : Option Symbol :=
  if c = byte '+' then some .plus
  else if c = byte '-' then some .minus
  else if c = byte '*' then some .star
  else if c = byte '/' then some .slash
  else if c = byte '%' then some .percent
  else if c = byte '&' then some .amp
  else if c = byte '|' then some .pipe
  else if c = byte '^' then some .caret
  else if c = byte '~' then some .tilde
  else if c = byte '<' then some .less
  else if c = byte '>' then some .greater
  else none

/-- The symbol of a byte written twice. -/
def double? (c : UInt8) : Option Symbol :=
  if c = byte '*' then some .starStar
  else if c = byte '/' then some .slashSlash
  else if c = byte '<' then some .shiftLeft
  else if c = byte '>' then some .shiftRight
  else none

/-- The symbols of a text that starts at `column` with `depth` parentheses open. -/
def scan (column depth : Nat) (s : Bytes) : Stream :=
  match s with
  | [] => .done column
  | c :: rest =>
    if c = byte ' ' ∨ c = byte '\t' then scan (column + 1) depth rest
    else if isDigit c then
      let ds := c :: rest.takeWhile isDigit
      let stop := column + ds.length
      match literalFlaw? ds column stop with
      | some (place, flaw) => .fault place flaw
      | none => .more (.int (digitsValue ds)) column stop (scan stop depth (rest.dropWhile isDigit))
    else if c = byte '(' then
      .more .parenOpen column (column + 1) (scan (column + 1) (depth + 1) rest)
    else if c = byte ')' then
      if depth = 0 then .fault column .strayParen
      else .more .parenClose column (column + 1) (scan (column + 1) (depth - 1) rest)
    else match (if rest.head? = some c then double? c else none), single? c with
      | some s, _ => .more s column (column + 2) (scan (column + 2) depth (rest.drop 1))
      | none, some s => .more s column (column + 1) (scan (column + 1) depth rest)
      | none, none => .fault column .badByte
termination_by s.length
decreasing_by
  all_goals
    have := (List.dropWhile_sublist isDigit (l := rest)).length_le
    simp only [List.length_cons, List.length_drop]
    omega

end Stream

end Asm16.Arith
