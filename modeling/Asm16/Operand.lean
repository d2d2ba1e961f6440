import Asm16.Fault
import Asm16.Line
import Asm16.Machine.Code

/-!
# Operands

`Operand.parse` finds the form of an operand from its tokens. An operand is a register, a stack
word, `PICK` with an expression, an address in brackets, or an expression; an address is a register,
an expression, or a register and an expression joined by a sign. The expression is the word that
follows the instruction. Only a lone literal from 0 to 30 in A position has no such word, and the
form never depends on the value of a label.

`evaluateTokens` is the value of an expression once its labels have addresses.
-/

namespace Asm16

/-- The text of a line that a run of tokens was read from, trimmed. -/
def tokenText (text : Bytes) (ts : List Token) : Bytes :=
  match ts.head?, ts.getLast? with
  | some first, some last => trim ((text.take last.stop).drop first.start)
  | _, _ => []

/-- Whether a token may stand in an expression, and the fault if not. -/
def expressionFault? (t : Token) : Option OperandFault :=
  match t.kind with
  | .literal | .labelUse | .operator | .unaryOperator | .groupStart | .groupEnd => none
  | .string => some .string
  | .register | .stackAccess => some .register
  | _ => some .form

/-- Checks that tokens hold arithmetic only. -/
def checkExpression (ts : List Token) : Except OperandFault Unit :=
  if ts.isEmpty then .error .missing
  else match ts.findSome? expressionFault? with
    | some fault => .error fault
    | none => .ok ()

/-- The text of an expression, values in place of literals and labels, a space after each token. -/
def expressionText : List Token → Except OperandFault Bytes
  | [] => .ok []
  | t :: rest => do
    let here : Bytes ← match t.kind with
      | .literal | .labelUse =>
        match t.value? with
        | some n => .ok (Numeral.ofInt n)
        | none => .error (.labelMissing t.text)
      | .operator | .unaryOperator | .groupStart | .groupEnd => .ok t.text
      | .string => .error .string
      | _ => .error .form
    let more ← expressionText rest
    .ok (here ++ " " ++ more)

/-- The value of an expression. -/
def evaluateTokens (ts : List Token) : Except OperandFault Int :=
  let lone? : Option Int := match ts with
    | [t] => t.value?
    | _ => none
  match lone? with
  | some n => .ok n
  | none => do
    let text ← expressionText ts
    match Arith.evaluate text with
    | .ok n => .ok n
    | .error e => .error (.evaluation e)

namespace Operand

/-- Whether the bracket that is open at `depth` one closes at the last token. -/
def closesLast (depth : Int) : List Token → Bool
  | [] => false
  | t :: rest =>
    if t.kind = .addressStart then closesLast (depth + 1) rest
    else if t.kind = .addressEnd then
      if depth = 1 then rest.isEmpty else closesLast (depth - 1) rest
    else closesLast depth rest

/-- A sign as an operator. -/
def isSign (sign : Char) (t : Token) : Bool := t.kind = .operator && t.text = [byte sign]

/-- A token that was not written. -/
def implied (k : Kind) (text : Bytes) : Token := ⟨⟨k, text, none, false, []⟩, 0, .initial, []⟩

/-- The negative of an offset, as `-(offset)`. -/
def negate (ts : List Token) : List Token :=
  if ts.isEmpty then []
  else [implied .unaryOperator "-", implied .groupStart "("] ++ ts ++ [implied .groupEnd ")"]

/-- The register token of an address and the offset beside it : `r + e`, `r - e` or `e + r`. -/
def offsetForm? (inner : List Token) : Option (List Token) :=
  match inner with
  | r :: sign :: rest =>
    if r.kind = .register then
      if isSign '+' sign then some rest
      else if isSign '-' sign then some (negate rest)
      else none
    else match inner.reverse with
      | last :: sign :: front =>
        if last.kind = .register ∧ isSign '+' sign then some front.reverse else none
      | _ => none
  | _ => none

/-- The code of the register a token names. -/
def registerCode (r : Token) : OperandCode := (OperandCode.ofName? (Bytes.upper r.text)).getD 0

/-- The form of an address, from the tokens inside its brackets. -/
def parseAddress (inner : List Token) : Except OperandFault Operand :=
  match inner.filter (·.kind == .register) with
  | [] => do
    checkExpression inner
    .ok ⟨.atNext, some inner⟩
  | [r] => do
    let code := registerCode r
    if inner.length = 1 then
      match code.general? with
      | some reg => .ok ⟨.atRegister reg, none⟩
      | none => if code = .sp then .ok ⟨.peek, none⟩ else .error .register
    else match offsetForm? inner with
      | none => .error .form
      | some offset => do
        checkExpression offset
        match code.general? with
        | some reg => .ok ⟨.atRegisterPlus reg, some offset⟩
        | none => if code = .sp then .ok ⟨.pick, some offset⟩ else .error .register
  | _ => .error .register

/-- The word for the top of the stack that a side moves. -/
def stackWord : Side → Bytes
  | .a => "POP"
  | .b => "PUSH"

/-- The form of a stack word. -/
def parseStack (word : Bytes) (side : Side) : Except OperandFault Operand :=
  if word = "PEEK" then .ok ⟨.peek, none⟩
  else if word = stackWord side then .ok ⟨.pushPop, none⟩
  else .error .direction

/-- The code of a lone short literal. -/
def shortCode? (side : Side) (ts : List Token) : Option OperandCode :=
  match ts with
  | [t] => if side = .a ∧ t.kind = .literal then t.value?.bind OperandCode.ofShort? else none
  | _ => none

/-- The form of a plain expression. -/
def parseExpression (ts : List Token) (side : Side) : Except OperandFault Operand := do
  checkExpression ts
  match shortCode? side ts with
  | some code => .ok ⟨code, none⟩
  | none => .ok ⟨.next, some ts⟩

/-- The form of an operand. -/
def parse (ts : List Token) (side : Side) : Except OperandFault Operand :=
  match ts with
  | [] => .error .missing
  | first :: rest =>
    if rest.isEmpty ∧ first.kind = .register then .ok ⟨registerCode first, none⟩
    else if rest.isEmpty ∧ first.kind = .stackAccess then
      parseStack (Bytes.upper first.text) side
    else if first.kind = .pickStart then
      if ts.getLast?.any (·.kind == .pickEnd) then do
        checkExpression rest.dropLast
        .ok ⟨.pick, some rest.dropLast⟩
      else .error .form
    else if first.kind = .addressStart ∧ closesLast 1 rest then parseAddress rest.dropLast
    else parseExpression ts side

/-- The number of words that follow the instruction for an operand. -/
def extra (o : Operand) : Nat := if o.expr.isSome then 1 else 0

/-- The word that follows the instruction for an operand, if it takes one. -/
def encode (o : Operand) : Except OperandFault (List UInt16) :=
  match o.expr with
  | none => .ok []
  | some ts => do
    let n ← evaluateTokens ts
    .ok [UInt16.ofInt n]

end Operand

namespace Instruction

/-- The number of words of an instruction. -/
def size : Instruction → Nat
  | basic _ b a => 1 + a.extra + b.extra
  | special _ a => 1 + a.extra

/-- The words of an instruction, the one for A before the one for B. -/
def encode : Instruction → Except OperandFault (List UInt16)
  | basic op b a => do
    let forA ← a.encode
    let forB ← b.encode
    .ok (basicWord op.code b.code a.code :: forA ++ forB)
  | special op a => do
    let forA ← a.encode
    .ok (specialWord op.code a.code :: forA)

/-- The runs of tokens between separators; none if there are no tokens at all. -/
def operandRuns (ts : List Token) : List (List Token) :=
  if ts.isEmpty then []
  else ts.foldr (fun t runs =>
    if t.kind = .separator then [] :: runs
    else match runs with
      | run :: more => (t :: run) :: more
      | [] => [[t]]) [[]]

/-- The form of an operand, with its text in a fault. -/
def parseOperand (text : Bytes) (ts : List Token) (side : Side) : Except Fault Operand :=
  match Operand.parse ts side with
  | .ok o => .ok o
  | .error cause => .error (.operand (tokenText text ts) cause)

/-- The operands of an opcode : how many there are, and what they make. -/
inductive Shape where
  | two (op : BasicOp)
  | jump (op : BasicOp)
  | one (op : SpecialOp)

/-- What an opcode token asks for. -/
def shape? (t : Token) : Option Shape :=
  let name := Bytes.upper t.text
  match t.kind with
  | .basicOpcode =>
    match BasicOp.ofShorthand? name with
    | some op => some (.jump op)
    | none => (BasicOp.ofMnemonic? name).map .two
  | .specialOpcode => (SpecialOp.ofMnemonic? name).map .one
  | _ => none

/-- The instruction of a line, from its text and its significant tokens; none if it holds only label
definitions. -/
def parse (text : Bytes) (ts : List Token) : Except Fault (Option Instruction) :=
  match ts.dropWhile (·.kind == .labelDef) with
  | [] => .ok none
  | opcode :: rest =>
    let whole := tokenText text (opcode :: rest)
    match shape? opcode, operandRuns rest with
    | none, _ => .error (.operand opcode.text .form)
    | some (.two op), [b, a] => do
      let b ← parseOperand text b .b
      let a ← parseOperand text a .a
      .ok (some (.basic op b a))
    | some (.jump op), [a] => do
      let a ← parseOperand text a .a
      .ok (some (.basic op ⟨.pc, none⟩ a))
    | some (.one op), [a] => do
      let a ← parseOperand text a .a
      .ok (some (.special op a))
    | some shape, runs =>
      let want := match shape with
        | .two _ => 2
        | _ => 1
      .error (.operand whole (if runs.length < want then .missing else .excess))

end Instruction

end Asm16
