import Asm16.Machine.Opcode
import Asm16.Machine.OperandCode
import Asm16.Text.Utf8
import Asm16.Token

/-!
# Reading a line

`lexemes` cuts a line into lexemes that cover it from its first byte to its last; what matches no
form becomes an error lexeme, and reading goes on after it. `lex` gives each lexeme its position.

A line is read from the left by `step`, which looks at the next byte and at a `State` : the stage of
the line (before the mnemonic, among operands, among data values, after directive parameters), the
depth of brackets, and what is open. Every step takes at least one byte (`step_rest_le`), so reading
ends.
-/

namespace Asm16

/-- What a directive word is followed by. -/
inductive DirectiveForm where
  /-- Free text up to a comment. -/
  | parameters
  /-- Data values. -/
  | values
  deriving DecidableEq, Repr

/-- The form of a directive keyword, in lower case. -/
def directiveForm? (word : Bytes) : Option DirectiveForm :=
  if ["include", "define", "org", "origin", "align", "reserve", "res"].any
      (Bytes.ofString · == word) then
    some .parameters
  else if ["dat", "dw", "data"].any (Bytes.ofString · == word) then some .values
  else none

/-- Operand words for the stack. -/
def isStackWord (word : Bytes) : Bool :=
  word = "PUSH" || word = "POP" || word = "PEEK"

/-- The first byte of a name. -/
def isNameStart (c : UInt8) : Bool := isLetter c || c = byte '_'

/-- The name at the front of a text, with a dot before a local one, and what follows it. -/
def identifier? : Bytes → Option (Bytes × Bytes)
  | [] => none
  | c :: rest =>
    if c = byte '.' then
      match rest with
      | d :: _ =>
        if isNameStart d then some (c :: rest.takeWhile isWordByte, rest.dropWhile isWordByte)
        else none
      | [] => none
    else if isNameStart c then
      some (c :: rest.takeWhile isWordByte, rest.dropWhile isWordByte)
    else none

/-- A single label or define name. -/
def isIdentifier (s : Bytes) : Bool :=
  match identifier? s with
  | some (_, rest) => rest.isEmpty
  | none => false

namespace Lexer

/-- The part of the line that is being read. -/
inductive Stage where
  | line | operands | data | done
  deriving DecidableEq, Repr

/-- What reading a line keeps from byte to byte. -/
structure State where
  stage : Stage := .line
  /-- The depth of brackets; it may fall below zero. -/
  depth : Int := 0
  /-- The depth at which an open `PICK` operand began. -/
  pick : Option Int := none
  /-- A data value is open. -/
  inValue : Bool := false
  /-- A data separator has no value after it yet. -/
  trailing : Bool := false
  /-- The last lexeme, white space and value starts aside, ends a value; a sign is then binary. -/
  afterValue : Bool := false
  deriving DecidableEq, Repr

/-- Whether a value has ended once a lexeme of kind `k` was read after a state in which `before`
tells the same. -/
def endsValue (before : Bool) (k : Kind) : Bool :=
  match k with
  | .whitespace | .dataStart => before
  | .literal | .labelUse | .register | .stackAccess | .addressEnd | .groupEnd | .string => true
  | _ => false

/-- The lexemes of one step, the state after it and the rest of the line. -/
structure Step where
  emitted : List Lexeme
  state : State
  rest : Bytes

/-- A mark that covers no bytes. -/
def mark (k : Kind) : Lexeme := ⟨k, [], none, false, []⟩

/-- A lexeme with nothing but its bytes. -/
def plain (k : Kind) (text : Bytes) : Lexeme := ⟨k, text, none, false, []⟩

/-- Bytes an unrecognised run stops at. -/
def isDelimiter (c : UInt8) : Bool :=
  isBlank c || c = byte ',' || c = byte ';' || c = byte '[' || c = byte ']' || c = byte '(' ||
    c = byte ')'

/-- An error up to the next delimiter. -/
def errorRun (st : State) (c : UInt8) (rest : Bytes) : Step :=
  ⟨[plain .error (c :: rest.takeWhile (!isDelimiter ·))], st, rest.dropWhile (!isDelimiter ·)⟩

/-- Ends an open `PICK` operand and an open data value; a separator with nothing after it gets an
empty value. -/
def closeValue (st : State) : List Lexeme × State :=
  let pickEnd := if st.pick.isSome then [mark .pickEnd] else []
  let start := if st.trailing then [mark .dataStart] else []
  let dataEnd := if st.trailing || st.inValue then [mark .dataEnd] else []
  (pickEnd ++ start ++ dataEnd, { st with pick := none, trailing := false, inValue := false })

/-- A label definition. -/
def labelDef (text : Bytes) : Lexeme :=
  let l := plain .labelDef text
  { l with isLocal := l.name.head? = some (byte '.') }

/-- Directive parameters : the text up to a semicolon outside quotes. A backslash inside quotes
keeps the byte after it. -/
def parameterText : Option UInt8 → Bytes → Bytes
  | _, [] => []
  | none, c :: rest =>
    if c = byte '"' ∨ c = byte '\'' then c :: parameterText (some c) rest
    else if c = byte ';' then []
    else c :: parameterText none rest
  | some q, c :: rest =>
    if c = byte '\\' then
      match rest with
      | d :: more => c :: d :: parameterText (some q) more
      | [] => [c]
    else if c = q then c :: parameterText none rest
    else c :: parameterText (some q) rest

/-- A marked directive with its parameters, if the text begins with one. -/
def directive? (st : State) (c : UInt8) (rest : Bytes) : Option Step :=
  let word := rest.takeWhile isLetter
  let after := rest.dropWhile isLetter
  if after.head?.any fun d => d = byte ':' || isWordByte d then none
  else match directiveForm? (Bytes.lower word) with
    | none => none
    | some .values => some ⟨[plain .directive (c :: word)], { st with stage := .data }, after⟩
    | some .parameters =>
      let space := after.takeWhile isBlank
      let body := after.dropWhile isBlank
      let params := (parameterText none body).dropEnd isBlank
      some ⟨[plain .directive (c :: word)] ++
          (if space.isEmpty then [] else [plain .whitespace space]) ++
          (if params.isEmpty then [] else [plain .parameters params]),
        { st with stage := .done }, body.drop params.length⟩

/-- A step before the mnemonic. -/
def lineStep (st : State) (c : UInt8) (rest : Bytes) : Step :=
  match if c = byte '#' ∨ c = byte '.' then directive? st c rest else none with
  | some step => step
  | none =>
    if c = byte ':' then
      match identifier? rest with
      | none => errorRun st c rest
      | some (name, after) => ⟨[labelDef (c :: name)], st, after⟩
    else if isNameStart c || c = byte '.' then
      match identifier? (c :: rest) with
      | none => errorRun st c rest
      | some (name, after) =>
        if after.head? = some (byte ':') then
          ⟨[labelDef (name ++ [byte ':'])], st, after.drop 1⟩
        else
          let word := name.upper
          if (BasicOp.ofMnemonic? word).isSome || (BasicOp.ofShorthand? word).isSome then
            ⟨[plain .basicOpcode name], { st with stage := .operands }, after⟩
          else if (SpecialOp.ofMnemonic? word).isSome then
            ⟨[plain .specialOpcode name], { st with stage := .operands }, after⟩
          else if directiveForm? word.lower = some .values then
            ⟨[plain .directive name], { st with stage := .data }, after⟩
          else ⟨[plain .error name], { st with stage := .operands }, after⟩
    else errorRun { st with stage := .operands } c rest

/-- The character a backslash and `c` stand for. -/
def escape? (c : UInt8) : Option Char :=
  if c = byte 'n' then some '\n'
  else if c = byte 'r' then some '\r'
  else if c = byte 't' then some '\t'
  else if c = byte '0' then some '\x00'
  else if c = byte 'e' then some '\x1b'
  else if c = byte '\\' then some '\\'
  else if c = byte '\'' then some '\''
  else if c = byte '"' then some '"'
  else none

/-- A character inside single quotes and what follows it. -/
def quotedChar? : Bytes → Option (Char × Bytes)
  | [] => none
  | c :: rest =>
    if c = byte '\\' then
      match rest with
      | d :: more => (escape? d).map (·, more)
      | [] => none
    else if (Utf8.next c rest).1 = '\'' ∨ (Utf8.next c rest).1 = Utf8.replacement then none
    else some (Utf8.next c rest)

/-- The character of a literal and what follows its closing quote; `body` is what follows the
opening one. -/
def character? (body : Bytes) : Option (Char × Bytes) :=
  match quotedChar? body with
  | some (ch, c :: more) => if c = byte '\'' then some (ch, more) else none
  | _ => none

/-- The contents of a string and what follows its closing quote; `body` is what follows the opening
one. There are none if an escape is unknown or the quote is not closed. -/
def string? (body : Bytes) : Option (Bytes × Bytes) :=
  match body with
  | [] => none
  | c :: rest =>
    if c = byte '"' then some ([], rest)
    else if c = byte '\\' then
      match rest with
      | [] => none
      | d :: more => do
        let ch ← escape? d
        let (contents, after) ← string? more
        some (Utf8.encode ch ++ contents, after)
    else do
      let (contents, after) ← string? (Utf8.next c rest).2
      some (Utf8.encode (Utf8.next c rest).1 ++ contents, after)
termination_by body.length
decreasing_by
  · simp only [List.length_cons]
    omega
  · have := Utf8.next_rest_le c rest
    simp only [List.length_cons]
    omega

/-- The bytes of `s` that come before its end part `rest`. -/
def before (s rest : Bytes) : Bytes := s.take (s.length - rest.length)

/-- A step at a comma. At the depth where a `PICK` operand began it ends the operand; among data
values, outside brackets, it ends the value. -/
def commaStep (st : State) (rest : Bytes) : Step :=
  let closesPick : Bool := st.pick = some st.depth
  let closesValue : Bool := st.stage = .data ∧ st.depth = 0
  let pickEnd := if closesPick then [mark .pickEnd] else []
  let valueEnd :=
    if closesValue then (if st.inValue then [] else [mark .dataStart]) ++ [mark .dataEnd] else []
  { emitted := pickEnd ++ valueEnd ++ [plain .separator [byte ',']]
    state := { st with
      pick := if closesPick then none else st.pick
      inValue := st.inValue && !closesValue
      trailing := st.trailing || closesValue }
    rest := rest }

/-- A word among operands or data values. -/
def wordLexeme (name : Bytes) : Lexeme :=
  let word := name.upper
  if (OperandCode.ofName? word).isSome then plain .register name
  else if isStackWord word then plain .stackAccess name
  else if word = "PICK" then plain .pickStart name
  else ⟨.labelUse, name, some .pending, name.head? = some (byte '.'), []⟩

/-- A step at a digit. -/
def numberStep (st : State) (c : UInt8) (rest : Bytes) : Step :=
  let text := c :: rest.takeWhile isWordByte
  let l : Lexeme := match Numeral.read text with
    | .ok n => ⟨.literal, text, some (.resolved n), false, []⟩
    | .error _ => plain .error text
  ⟨[l], st, rest.dropWhile isWordByte⟩

/-- A step at a single quote. -/
def characterStep (st : State) (c : UInt8) (rest : Bytes) : Step :=
  match character? rest with
  | some (ch, after) =>
    ⟨[⟨.literal, c :: before rest after, some (.resolved ch.toNat), false, []⟩], st, after⟩
  | none => errorRun st c rest

/-- A step at a double quote. -/
def stringStep (st : State) (c : UInt8) (rest : Bytes) : Step :=
  match string? rest with
  | some (contents, after) =>
    ⟨[⟨.string, c :: before rest after, none, false, contents⟩], st, after⟩
  | none => ⟨[plain .error (c :: rest)], st, []⟩

/-- A step at the first byte of a name. -/
def wordStep (st : State) (c : UInt8) (rest : Bytes) : Step :=
  match identifier? (c :: rest) with
  | some (name, after) =>
    let l := wordLexeme name
    ⟨[l], if l.kind = .pickStart then { st with pick := some st.depth } else st, after⟩
  | none => errorRun st c rest

/-- A step at `<` or `>`, which count only in pairs. -/
def shiftStep (st : State) (c : UInt8) (rest : Bytes) : Step :=
  if rest.head? = some c then ⟨[plain .operator [c, c]], st, rest.drop 1⟩ else errorRun st c rest

/-- The kind of a bracket and the change of depth it makes. -/
def bracket? (c : UInt8) : Option (Kind × Int) :=
  if c = byte '[' then some (.addressStart, 1)
  else if c = byte ']' then some (.addressEnd, -1)
  else if c = byte '(' then some (.groupStart, 1)
  else if c = byte ')' then some (.groupEnd, -1)
  else none

/-- The kind of an operator of one byte. A sign is binary only after a value. -/
def operator? (st : State) (c : UInt8) : Option Kind :=
  if c = byte '~' then some .unaryOperator
  else if c = byte '+' ∨ c = byte '-' then
    some (if st.afterValue then .operator else .unaryOperator)
  else if c = byte '*' ∨ c = byte '/' ∨ c = byte '%' ∨ c = byte '&' ∨ c = byte '|' ∨
      c = byte '^' then
    some .operator
  else none

/-- A step among operands or data values, at a byte other than a comma. -/
def valueStep (st : State) (c : UInt8) (rest : Bytes) : Step :=
  match bracket? c, operator? st c with
  | some (k, d), _ => ⟨[plain k [c]], { st with depth := st.depth + d }, rest⟩
  | none, some k => ⟨[plain k [c]], st, rest⟩
  | none, none =>
    if isDigit c then numberStep st c rest
    else if c = byte '\'' then characterStep st c rest
    else if c = byte '"' then stringStep st c rest
    else if isNameStart c || c = byte '.' then wordStep st c rest
    else if c = byte '<' ∨ c = byte '>' then shiftStep st c rest
    else errorRun st c rest

/-- A step after the mnemonic. The first byte of a data value opens the value. -/
def operandStep (st : State) (c : UInt8) (rest : Bytes) : Step :=
  if c = byte ',' then commaStep st rest
  else if st.stage = .data ∧ ¬ st.inValue then
    let step := valueStep { st with inValue := true, trailing := false } c rest
    { step with emitted := mark .dataStart :: step.emitted }
  else valueStep st c rest

/-- The step at byte `c`. -/
def stepAt (st : State) (c : UInt8) (rest : Bytes) : Step :=
  if isBlank c then
    ⟨[plain .whitespace (c :: rest.takeWhile isBlank)], st, rest.dropWhile isBlank⟩
  else if c = byte ';' then
    let (closed, st) := closeValue st
    ⟨closed ++ [plain .comment (c :: rest)], st, []⟩
  else if st.stage = .line then lineStep st c rest
  else operandStep st c rest

/-- The step at byte `c`, with the look back at values brought up to date. -/
def step (st : State) (c : UInt8) (rest : Bytes) : Step :=
  let s := stepAt st c rest
  { s with state := { s.state with
      afterValue := s.emitted.foldl (fun v l => endsValue v l.kind) st.afterValue } }

/-! ## Every step takes at least one byte -/

theorem dropWhile_length_le (p : UInt8 → Bool) (s : Bytes) : (s.dropWhile p).length ≤ s.length :=
  (List.dropWhile_sublist p).length_le

theorem identifier?_rest_lt {s name after : Bytes} (h : identifier? s = some (name, after)) :
    after.length < s.length := by
  unfold identifier? at h
  split at h
  · simp at h
  · rename_i c rest
    have := dropWhile_length_le isWordByte rest
    grind

theorem quotedChar?_rest_le {body after : Bytes} {ch : Char}
    (h : quotedChar? body = some (ch, after)) : after.length ≤ body.length := by
  match body with
  | [] => simp [quotedChar?] at h
  | c :: rest =>
    have := Utf8.next_rest_le c rest
    by_cases hc : c = byte '\\'
    · cases rest with
      | nil => simp [quotedChar?, hc] at h
      | cons d more =>
        simp only [quotedChar?, hc, if_true, Option.map_eq_some_iff, Prod.mk.injEq] at h
        grind
    · simp only [quotedChar?, hc, if_false] at h
      grind

theorem character?_rest_le {body after : Bytes} {ch : Char}
    (h : character? body = some (ch, after)) : after.length ≤ body.length := by
  unfold character? at h
  split at h
  · rename_i c more hq
    have := quotedChar?_rest_le hq
    simp only [List.length_cons] at this
    split at h
    · simp only [Option.some.injEq, Prod.mk.injEq] at h
      obtain ⟨-, rfl⟩ := h
      omega
    · simp at h
  · simp at h

theorem string?_rest_le {body contents after : Bytes} (h : string? body = some (contents, after)) :
    after.length ≤ body.length := by
  fun_induction string? body generalizing contents after with
  | case1 => simp at h
  | case2 => grind
  | case3 => simp at h
  | case4 c d more ih =>
    simp only [Option.bind_eq_bind, Option.bind_eq_some_iff] at h
    obtain ⟨ch, -, ⟨cs, af⟩, hs, he⟩ := h
    have := ih hs
    grind
  | case5 c rest _ _ ih =>
    simp only [Option.bind_eq_bind, Option.bind_eq_some_iff] at h
    obtain ⟨⟨cs, af⟩, hs, he⟩ := h
    have := ih hs
    have := Utf8.next_rest_le c rest
    grind

theorem errorRun_rest_le (st : State) (c : UInt8) (rest : Bytes) :
    (errorRun st c rest).rest.length ≤ rest.length :=
  dropWhile_length_le _ _

theorem directive?_rest_le {st : State} {c : UInt8} {rest : Bytes} {s : Step}
    (h : directive? st c rest = some s) : s.rest.length ≤ rest.length := by
  unfold directive? at h
  have h₁ := dropWhile_length_le isLetter rest
  have h₂ := dropWhile_length_le isBlank (rest.dropWhile isLetter)
  simp only at h
  split at h
  · simp at h
  · split at h
    · simp at h
    · grind
    · simp only [Option.some.injEq] at h
      rw [← h]
      simp only [List.length_drop]
      omega

theorem lineStep_rest_le (st : State) (c : UInt8) (rest : Bytes) :
    (lineStep st c rest).rest.length ≤ rest.length := by
  unfold lineStep
  split
  · rename_i s h
    split at h
    · exact directive?_rest_le h
    · simp at h
  · split
    · split
      · exact errorRun_rest_le _ _ _
      · rename_i h
        exact Nat.le_of_lt (identifier?_rest_lt h)
    · split
      · split
        · exact errorRun_rest_le _ _ _
        · rename_i name after h
          have := identifier?_rest_lt h
          simp only [List.length_cons] at this
          split
          · simp only [List.length_drop]
            omega
          · simp only
            split
            · simp only
              omega
            · split
              · simp only
                omega
              · split <;> (simp only; omega)
      · exact errorRun_rest_le _ _ _

theorem commaStep_rest_le (st : State) (rest : Bytes) :
    (commaStep st rest).rest.length ≤ rest.length :=
  Nat.le_refl _

theorem characterStep_rest_le (st : State) (c : UInt8) (rest : Bytes) :
    (characterStep st c rest).rest.length ≤ rest.length := by
  unfold characterStep
  split
  · exact character?_rest_le (by assumption)
  · exact errorRun_rest_le _ _ _

theorem stringStep_rest_le (st : State) (c : UInt8) (rest : Bytes) :
    (stringStep st c rest).rest.length ≤ rest.length := by
  unfold stringStep
  split
  · exact string?_rest_le (by assumption)
  · exact Nat.zero_le _

theorem wordStep_rest_le (st : State) (c : UInt8) (rest : Bytes) :
    (wordStep st c rest).rest.length ≤ rest.length := by
  unfold wordStep
  split
  · rename_i h
    exact Nat.le_of_lt_succ (identifier?_rest_lt h)
  · exact errorRun_rest_le _ _ _

theorem shiftStep_rest_le (st : State) (c : UInt8) (rest : Bytes) :
    (shiftStep st c rest).rest.length ≤ rest.length := by
  unfold shiftStep
  split
  · simp
  · exact errorRun_rest_le _ _ _

theorem valueStep_rest_le (st : State) (c : UInt8) (rest : Bytes) :
    (valueStep st c rest).rest.length ≤ rest.length := by
  have hd : (numberStep st c rest).rest.length ≤ rest.length := dropWhile_length_le _ _
  have hc := characterStep_rest_le st c rest
  have hs := stringStep_rest_le st c rest
  have hw := wordStep_rest_le st c rest
  have hh := shiftStep_rest_le st c rest
  have he := errorRun_rest_le st c rest
  unfold valueStep
  split
  · exact Nat.le_refl _
  · exact Nat.le_refl _
  · simp only [apply_ite Step.rest, apply_ite List.length]
    grind

theorem operandStep_rest_le (st : State) (c : UInt8) (rest : Bytes) :
    (operandStep st c rest).rest.length ≤ rest.length := by
  unfold operandStep
  split
  · exact commaStep_rest_le _ _
  · split <;> exact valueStep_rest_le _ _ _

/-- A step takes at least the byte it is at. -/
theorem step_rest_le (st : State) (c : UInt8) (rest : Bytes) :
    (step st c rest).rest.length ≤ rest.length := by
  show (stepAt st c rest).rest.length ≤ rest.length
  unfold stepAt
  split
  · exact dropWhile_length_le _ _
  · split
    · exact Nat.zero_le _
    · split
      · exact lineStep_rest_le _ _ _
      · exact operandStep_rest_le _ _ _

/-- The lexemes of what is left of a line. -/
def run (st : State) (s : Bytes) : List Lexeme :=
  match s with
  | [] => (closeValue st).1 ++ [mark .eof]
  | c :: rest => (step st c rest).emitted ++ run (step st c rest).state (step st c rest).rest
termination_by s.length
decreasing_by
  have := step_rest_le st c rest
  simp only [List.length_cons]
  omega

/-- Gives lexemes their positions, the first at `start`. -/
def place (mode : Mode) (start : Nat) : List Lexeme → List Token
  | [] => []
  | l :: rest => ⟨l, start, mode, []⟩ :: place mode (start + l.text.length) rest

end Lexer

/-- The lexemes of a line. -/
def lexemes (s : Bytes) : List Lexeme := Lexer.run {} s

/-- The tokens of a line. -/
def lex (mode : Mode) (s : Bytes) : List Token := Lexer.place mode 0 (lexemes s)

end Asm16
