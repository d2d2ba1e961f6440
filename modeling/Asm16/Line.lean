import Asm16.Machine.OperandCode
import Asm16.Machine.Opcode
import Asm16.Site
import Asm16.Text.Case
import Asm16.Token.Lexer

/-!
# Lines

A line of a document with everything that is found out about it : its tokens, its directive, and,
once the program is laid out, its address, its size and its instruction.
-/

namespace Asm16

/-- What a directive does. -/
inductive DirectiveKind where
  | origin | align | reserve | inclusion | define | data
  deriving DecidableEq, Repr

namespace DirectiveKind

/-- Every kind. -/
def all : List DirectiveKind := [origin, align, reserve, inclusion, define, data]

/-- The name of a kind, which is also a keyword of it. -/
def name : DirectiveKind → Bytes
  | origin => "origin"
  | align => "align"
  | reserve => "reserve"
  | inclusion => "include"
  | define => "define"
  | data => "data"

/-- The kind with a keyword, in lower case. -/
def ofKeyword? (word : Bytes) : Option DirectiveKind :=
  if word = "org" ∨ word = "origin" then some origin
  else if word = "align" then some align
  else if word = "reserve" ∨ word = "res" then some reserve
  else if word = "include" then some inclusion
  else if word = "define" then some define
  else if word = "dat" ∨ word = "dw" ∨ word = "data" then some data
  else none

/-- Directives that move the address without words of their own. -/
def isLayout : DirectiveKind → Bool
  | origin | align | reserve => true
  | _ => false

/-- The kind with a number, counting from zero. -/
def ofNumber? (n : Int) : Option DirectiveKind := if n < 0 then none else all[n.toNat]?

/-- The name of the kind with a number, or the number itself. -/
def textOf (n : Int) : Bytes :=
  match ofNumber? n with
  | some k => k.name
  | none => "DirectiveKind(" ++ Numeral.ofInt n ++ ")"

end DirectiveKind

/-- The keyword of a directive word : without its mark, in lower case. -/
def directiveKeyword (word : Bytes) : Bytes :=
  lowerText (word.dropWhile fun c => c = byte '#' || c = byte '.')

/-- A directive with its parameters. -/
structure Directive where
  kind : DirectiveKind
  /-- The directive word as written. -/
  keyword : Bytes
  /-- The parameter text, without a comment or white space at its end. -/
  params : Bytes
  deriving DecidableEq, Repr

/-- The directive of a line's tokens. -/
def Directive.ofTokens? : List Token → Option Directive
  | [] => none
  | t :: rest =>
    if t.kind = .directive then
      (DirectiveKind.ofKeyword? (directiveKeyword t.text)).map fun kind =>
        { kind, keyword := t.text,
          params := (rest.find? (·.kind == .parameters)).elim [] (·.text) }
    else ofTokens? rest

/-- An operand of an instruction. -/
structure Operand where
  code : OperandCode
  /-- The arithmetic of the word that follows, if the operand takes one. -/
  expr : Option (List Token) := none
  deriving DecidableEq, Repr

/-- An instruction with its operands. -/
inductive Instruction where
  | basic (op : BasicOp) (b a : Operand)
  | special (op : SpecialOp) (a : Operand)
  deriving DecidableEq, Repr

/-- A document as its lines know it. -/
structure Document where
  name : Bytes
  /-- The documents that include it, the nearest first. -/
  parents : List Bytes := []
  deriving DecidableEq, Repr

namespace Document

/-- The document and those that include it. -/
def chain (d : Document) : List Bytes := d.name :: d.parents

/-- Whether a name is that of the document or of one that includes it. -/
def hasAncestor (d : Document) (name : Bytes) : Bool := d.chain.contains name

/-- Whether the ancestor with a name, if there is one, is the root document. -/
def ancestor? (d : Document) (name : Bytes) : Option Bool :=
  match d.chain.dropWhile (· != name) with
  | [] => none
  | _ :: above => some above.isEmpty

end Document

/-- A line of a program. -/
structure Line where
  document : Document
  /-- The number of the line in its document, counted from one. -/
  number : Nat
  /-- The line as written. -/
  raw : Bytes
  /-- The line after substitution of defines. -/
  text : Bytes
  tokens : List Token
  directive : Option Directive
  /-- The address of its first word. -/
  offset : Int := 0
  /-- The number of its words. -/
  size : Int := 0
  /-- The instruction it holds, once the program is laid out. -/
  code : Option Instruction := none
  deriving DecidableEq, Repr

namespace Line

/-- Where a line stands, and what is written there. -/
def site (l : Line) : Site := ⟨l.document.name, l.number, l.raw⟩

/-- The tokens that carry assembly meaning. -/
def significant (l : Line) : List Token := significantTokens l.tokens

/-- The kind of its directive. -/
def kind? (l : Line) : Option DirectiveKind := l.directive.map (·.kind)

end Line

end Asm16
