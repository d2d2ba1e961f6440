import Asm16.Fault
import Asm16.Label
import Asm16.Line
import Asm16.Log

/-!
# Reading documents

A document is read line by line. Defines are applied to a line as it is read, a define directive
adds one, text that is not recognised is recorded, the labels of the line go into the symbol table,
and an include directive reads another document in its place. What one line leaves for the next is
its `Progress`, which goes into an included document and comes out of it again.

A document cannot be included while it is being read. Documents that are being read have different
names, all but the first of them names of files, so includes are nested no deeper than there are
files (`fileCount`); `readDocument` recurses on that number.
-/

namespace Asm16

/-- What reading has found so far. -/
structure Progress where
  defines : Defines
  symbols : SymbolTable
  /-- The last global label. -/
  scope : Bytes := []
  /-- The number of lines read. -/
  count : Nat := 0
  /-- The text that was not recognised. -/
  lexErrors : List LexError := []
  deriving DecidableEq, Repr

/-- The longest line, in bytes. -/
def lineLimit : Nat := 65536

/-- The lines of a text up to the first one that is too long, and whether there is one. A line ends
at a line feed; one carriage return before it is left out. -/
def sourceLines (text : Bytes) : List Bytes × Bool :=
  let pieces := text.splitOn (byte '\n')
  let lines := if pieces.getLast? = some [] then pieces.dropLast else pieces
  let fits : Bytes → Bool := fun line => line.length < lineLimit
  let chomp : Bytes → Bytes := fun line =>
    if line.getLast? = some (byte '\r') then line.dropLast else line
  ((lines.takeWhile fits).map chomp, lines.any (!fits ·))

/-! ## One line -/

/-- The text, the tokens and the directive of a line. -/
structure Reading where
  text : Bytes
  tokens : List Token
  directive : Option Directive
  deriving DecidableEq, Repr

/-- Reads a text as a line. -/
def Reading.ofText (mode : Mode) (text : Bytes) : Reading :=
  let tokens := lex mode text
  ⟨text, tokens, Directive.ofTokens? tokens⟩

/-- A record about a new define. -/
def Define.record (d : Define) : Record :=
  ⟨.debug, "define", [("key", .text d.key), ("value", .text d.value)]⟩

/-- The position of the parameters in a line. -/
def parameterStart (ts : List Token) : Nat := (ts.find? (·.kind == .parameters)).elim 0 (·.start)

/-- Reads a define directive : its replacement text is expanded, its key is not. -/
def readDefine (site : Site) (ds : Defines) (r : Reading) (params : Bytes) :
    Except DefineError (Reading × Defines × Define) := do
  let parts ← Define.split params
  let (value, changed) ← ds.expand parts.value
  let base := parameterStart r.tokens
  let text := r.text.take base ++ parts.front ++ value ++ parts.back ++
    r.text.drop (base + params.length)
  let d ← Define.make parts.key value (some site)
  let ds ← ds.add d
  .ok (if changed then .ofText .reprocess text else r, ds, d)

/-- Reads a line that neither defines nor includes : all of it is expanded. -/
def readPlain (ds : Defines) (r : Reading) : Except DefineError Reading := do
  let (text, changed) ← ds.expand r.text
  .ok (if changed then .ofText .reprocess text else r)

/-- Applies the defines to a line, and adds the one it makes. -/
def applyDefines (site : Site) (ds : Defines) : Logged Error (Reading × Defines) :=
  let r := Reading.ofText .initial site.raw
  let refuse {α : Type} (e : DefineError) : Logged Error α := .fail (.atLine site (.define e))
  match r.directive with
  | some ⟨.define, _, params⟩ =>
    match readDefine site ds r params with
    | .ok (r, ds, d) => ⟨[d.record], .ok (r, ds)⟩
    | .error e => refuse e
  | some ⟨.inclusion, _, _⟩ => pure (r, ds)
  | _ =>
    match readPlain ds r with
    | .ok r => pure (r, ds)
    | .error e => refuse e

/-- The text of a line that is not recognised, token by token. -/
def Line.lexErrors (l : Line) : List LexError :=
  (errorTokens l.tokens).map fun t => ⟨l.document.name, l.number, t.start, t.text⟩

/-- A record about text that is not recognised. -/
def LexError.record (e : LexError) : Record := ⟨.warn, "lex", [("error", .text e.message)]⟩

/-- Enters the label definitions and uses of a line into the symbol table. Returns the tokens with
the full names of labels, the table, and the global label in force after the line. -/
def enterLabels (site : Site) (index : Nat) (symbols : SymbolTable) (scope : Bytes) :
    List Token → Except Fault (List Token × SymbolTable × Bytes)
  | [] => .ok ([], symbols, scope)
  | t :: rest =>
    let (name, next) := qualify scope t.toLexeme
    match t.kind with
    | .labelDef =>
      match symbols.define ⟨name, t.isLocal, site, index, 0⟩ with
      | .error first => .error (.duplicateLabel name first.site)
      | .ok symbols => do
        let (ts, symbols, scope) ← enterLabels site index symbols next rest
        .ok ({ t with symbol := name } :: ts, symbols, scope)
    | .labelUse => do
      let (ts, symbols, scope) ←
        enterLabels site index (symbols.use ⟨name, site, .pending⟩) scope rest
      .ok ({ t with symbol := name } :: ts, symbols, scope)
    | _ => do
      let (ts, symbols, scope) ← enterLabels site index symbols scope rest
      .ok (t :: ts, symbols, scope)

/-- Reads a line of a document; an include is left to be carried out. -/
def readLine (doc : Document) (number : Nat) (raw : Bytes) (p : Progress) :
    Logged Error (Line × Progress) := do
  let site : Site := ⟨doc.name, number, raw⟩
  .record ⟨.debug, "read",
    [("document", .text doc.name), ("line", .int number), ("text", .text raw)]⟩
  let (r, defines) ← applyDefines site p.defines
  let line : Line :=
    { document := doc, number, raw, text := r.text, tokens := r.tokens, directive := r.directive }
  .records (line.lexErrors.map LexError.record)
  let lexErrors := p.lexErrors ++ line.lexErrors
  match enterLabels site p.count p.symbols p.scope r.tokens with
  | .error fault => .fail (.atLine site fault)
  | .ok (tokens, symbols, scope) =>
    pure ({ line with tokens }, { defines, symbols, scope, count := p.count + 1, lexErrors })

/-! ## Documents -/

/-- A document with the documents it includes, by line number. -/
inductive DocumentTree where
  | node (name : Bytes) (lines : Nat) (includes : List (Nat × DocumentTree))
  deriving Repr

/-- What reading part of a document gives : its lines, those of included documents in place, and the
included documents themselves. -/
structure Extent where
  lines : List Line
  includes : List (Nat × DocumentTree)
  progress : Progress

/-- A line, what it includes, and what comes after them. -/
def Extent.followedBy (inner : Extent) (line : Line) (more : Extent) : Extent :=
  ⟨line :: inner.lines ++ more.lines, inner.includes ++ more.includes, more.progress⟩

/-- A way to read an included document. -/
abbrev ChildReader := Document → Bytes → Progress → Logged Error (DocumentTree × Extent)

/-- The file an include names : its parameters without quotes or angle brackets. -/
def includePath (params : Bytes) : Bytes :=
  let file := trim params
  match file, file.getLast? with
  | c :: _ :: _, some d =>
    if (c = byte '"' ∧ d = byte '"') ∨ (c = byte '<' ∧ d = byte '>') then (file.drop 1).dropLast
    else file
  | _, _ => file

/-- Carries out the include of a line. -/
def readInclude (source : Option Source) (child : ChildReader) (line : Line) (params : Bytes)
    (p : Progress) : Logged Error Extent :=
  let doc := line.document
  let file := includePath params
  match source.bind fun s => s.resolve? doc.name file with
  | none => .fail (.atLine line.site (.includeMissing file))
  | some (name, text) =>
    if doc.hasAncestor name then .fail (.atLine line.site (.includeCycle name))
    else do
      .record ⟨.debug, "include", [("document", .text doc.name), ("file", .text name)]⟩
      let (tree, inner) ← child ⟨name, doc.chain⟩ text p
      pure ⟨inner.lines, [(line.number, tree)], inner.progress⟩

/-- Reads the lines of a document from number `number` on; `cut` tells that a line that is too long
follows them. -/
def readLines (source : Option Source) (child : ChildReader) (doc : Document) (cut : Bool)
    (number : Nat) : List Bytes → Progress → Logged Error Extent
  | [], p => if cut then .fail .lineTooLong else pure ⟨[], [], p⟩
  | raw :: rest, p => do
    let (line, p) ← readLine doc number raw p
    let inner ← match line.directive with
      | some ⟨.inclusion, _, params⟩ => readInclude source child line params p
      | _ => pure ⟨[], [], p⟩
    inner.followedBy line <$> readLines source child doc cut (number + 1) rest inner.progress

/-- The number of files there are to include. -/
def fileCount (source : Option Source) : Nat := source.elim 0 (·.files.length)

/-- Reads a document and the documents it includes, with `depth` more of them one in another at
most. -/
def readDocument (source : Option Source) (depth : Nat) : ChildReader := fun doc text p =>
  let (raws, cut) := sourceLines text
  let child : ChildReader := match depth with
    | 0 => fun inner _ _ => .fail (.file (.missing inner.name))
    | n + 1 => readDocument source n
  (fun extent => (.node doc.name raws.length extent.includes, extent)) <$>
    readLines source child doc cut 1 raws p

end Asm16
