import Asm16.Text.Quoted

/-!
# Tokens

A line of source is cut into lexemes. A lexeme has a kind and the bytes it covers, and, by kind, a
value, a locality mark or the decoded contents of a string. Lexemes of some kinds cover no bytes and
only mark where a data value or a `PICK` operand begins or ends. A token is a lexeme at a position.

The value of a label use is not known when the line is read. It is a `Cell` that is pending until
the label has an address.
-/

namespace Asm16

/-- The kinds of lexeme. -/
inductive Kind where
  | basicOpcode | specialOpcode | register | stackAccess | literal | labelUse | labelDef
  | directive | parameters | groupStart | groupEnd | addressStart | addressEnd
  | dataStart | dataEnd | pickStart | pickEnd | string | operator | unaryOperator
  | separator | error | whitespace | eof | comment
  deriving DecidableEq, Repr

namespace Kind

/-- Every kind. -/
def all : List Kind :=
  [basicOpcode, specialOpcode, register, stackAccess, literal, labelUse, labelDef, directive,
    parameters, groupStart, groupEnd, addressStart, addressEnd, dataStart, dataEnd, pickStart,
    pickEnd, string, operator, unaryOperator, separator, error, whitespace, eof, comment]

/-- The name of a kind in listings. -/
def name : Kind → Bytes
  | basicOpcode => "opcode-basic"
  | specialOpcode => "opcode-special"
  | register => "register"
  | stackAccess => "stack-access"
  | literal => "literal"
  | labelUse => "label-use"
  | labelDef => "label-definition"
  | directive => "directive"
  | parameters => "directive-parameters"
  | groupStart => "group-start"
  | groupEnd => "group-end"
  | addressStart => "address-start"
  | addressEnd => "address-end"
  | dataStart => "data-value-start"
  | dataEnd => "data-value-end"
  | pickStart => "pick-value-start"
  | pickEnd => "pick-value-end"
  | string => "string"
  | operator => "operator"
  | unaryOperator => "unary-operator"
  | separator => "separator"
  | error => "error"
  | whitespace => "whitespace"
  | eof => "EOF"
  | comment => "other"

/-- Whether a kind carries assembly meaning. -/
def significant : Kind → Bool
  | whitespace | comment | eof => false
  | _ => true

/-- The kind with a number, counting from zero. -/
def ofNumber? (n : Int) : Option Kind := if n < 0 then none else all[n.toNat]?

/-- The name of the kind with a number, or the number itself. -/
def textOf (n : Int) : Bytes :=
  match ofNumber? n with
  | some k => k.name
  | none => "Kind(" ++ Numeral.ofInt n ++ ")"

/-- The significance of the kind with a number; a number without a kind counts as significant. -/
def significantNumber (n : Int) : Bool := (ofNumber? n).elim true significant

end Kind

/-- A value that may not be known yet. -/
inductive Cell where
  | pending
  | resolved (n : Int)
  deriving DecidableEq, Repr

/-- The value, if it is known. -/
def Cell.get? : Cell → Option Int
  | .pending => none
  | .resolved n => some n

/-- Whether a line was read as written or after substitution of defines. -/
inductive Mode where
  | initial | reprocess
  deriving DecidableEq, Repr

/-- A piece of a line. -/
structure Lexeme where
  kind : Kind
  /-- The bytes it covers. -/
  text : Bytes
  /-- The value of a literal, or the address of a label use. -/
  value : Option Cell := none
  /-- A label definition or use that belongs to the global label before it. -/
  isLocal : Bool := false
  /-- The decoded contents of a string. -/
  contents : Bytes := []
  deriving DecidableEq, Repr

namespace Lexeme

/-- The label name of a definition or a use, without the marks of a definition. -/
def name (l : Lexeme) : Bytes :=
  match l.kind with
  | .labelUse | .labelDef =>
    let front := match l.text with
      | c :: rest => if c = byte ':' then rest else l.text
      | [] => []
    match front.getLast? with
    | some c => if c = byte ':' then front.dropLast else front
    | none => []
  | _ => []

/-- The value, if there is one and it is known. -/
def value? (l : Lexeme) : Option Int := l.value.bind Cell.get?

end Lexeme

/-- A lexeme at a position of a line. -/
structure Token extends Lexeme where
  /-- The position of its first byte. -/
  start : Nat := 0
  mode : Mode := .initial
  /-- The name of the label it defines or uses, with its scope; set when the line is read. -/
  symbol : Bytes := []
  deriving DecidableEq, Repr

namespace Token

/-- The position after its last byte. -/
def stop (t : Token) : Nat := t.start + t.text.length

/-- A short description : the kind, the text and the position. -/
def describe (t : Token) : Bytes :=
  t.kind.name ++ "(" ++ quote t.text ++ ")@" ++ Numeral.decimal t.start

end Token

/-- The tokens that carry assembly meaning. -/
def significantTokens (ts : List Token) : List Token := ts.filter (·.kind.significant)

/-- The tokens that no form of the grammar matches. -/
def errorTokens (ts : List Token) : List Token := ts.filter (·.kind == .error)

end Asm16
