import Asm16.Site
import Asm16.Text.Blank
import Asm16.Text.Word
import Asm16.Token.Lexer

/-!
# Defines

A define gives a key a replacement text. `Defines.expand` substitutes every define, in the order of
definition, again and again until a whole sweep changes nothing; a table whose sweeps go on changing
the text beyond the limit is refused.
-/

namespace Asm16

/-- A textual substitution. -/
structure Define where
  key : Bytes
  value : Bytes
  /-- The defining line; none for a define made before any source is read. -/
  site : Option Site := none
  deriving DecidableEq, Repr

/-- What is wrong with a define. -/
inductive DefineError where
  /-- The text is not a key, or does not begin with one. -/
  | format (text : Bytes)
  | duplicate (key : Bytes)
  /-- Substitution in the text does not come to an end. -/
  | endless (text : Bytes)
  deriving DecidableEq, Repr

/-- The text of an error. -/
def DefineError.message : DefineError → Bytes
  | format text => "'" ++ text ++ "' is not a valid define"
  | duplicate key => "define " ++ key ++ " duplicated"
  | endless text => "define expansion of '" ++ text ++ "' does not terminate"

/-- Keys are names without a dot. -/
def isDefineKey : Bytes → Bool
  | [] => false
  | c :: rest => isNameStart c && rest.all isWordByte

namespace Define

/-- A define of `key` to `value`, which is trimmed. -/
def make (key value : Bytes) (site : Option Site := none) : Except DefineError Define :=
  if isDefineKey key then .ok ⟨key, trim value, site⟩ else .error (.format key)

/-- Substitutes the define where its key stands alone. -/
def replace (d : Define) (s : Bytes) : Bytes := replaceWord d.key d.value s

/-- The parameters of a define directive, cut around the replacement text :
`front ++ value ++ back`. -/
structure Parts where
  key : Bytes
  front : Bytes
  value : Bytes
  back : Bytes
  deriving DecidableEq, Repr

/-- White space between the parts of the parameters. -/
def isGap (c : UInt8) : Bool := isBlank c && c != 0x0b

/-- Cuts the parameters of a define directive. The replacement text goes up to a semicolon or a line
break and leaves out the spaces and tabs at its end. -/
def split (params : Bytes) : Except DefineError Parts :=
  let lead := params.takeWhile isGap
  let body := params.dropWhile isGap
  let key := body.takeWhile isWordByte
  if isDefineKey key then
    let gap := (body.drop key.length).takeWhile isGap
    let tail := (body.drop key.length).dropWhile isGap
    let text := tail.takeWhile fun c => c != byte ';' && c != byte '\r' && c != byte '\n'
    let value := Bytes.dropEnd (fun c => c = byte ' ' || c = byte '\t') text
    .ok ⟨key, lead ++ key ++ gap, value, tail.drop value.length⟩
  else .error (.format params)

end Define

/-- Defines in the order of definition. -/
structure Defines where
  /-- The number of sweeps a text may take; the default if not positive. -/
  limit : Int := 0
  entries : List Define := []
  deriving DecidableEq, Repr

namespace Defines

/-- The default number of sweeps. -/
def defaultLimit : Nat := 32

/-- The number of sweeps in force. -/
def sweeps (ds : Defines) : Nat := if ds.limit ≤ 0 then defaultLimit else ds.limit.toNat

/-- The define of a key. -/
def lookup? (ds : Defines) (key : Bytes) : Option Define := ds.entries.find? (·.key == key)

/-- Adds a define; a key can be defined once. -/
def add (ds : Defines) (d : Define) : Except DefineError Defines :=
  if (ds.lookup? d.key).isSome then .error (.duplicate d.key)
  else .ok { ds with entries := ds.entries ++ [d] }

/-- One substitution of every define, in order. -/
def sweep (entries : List Define) (s : Bytes) : Bytes := entries.foldl (fun t d => d.replace t) s

/-- Sweeps over `s` until nothing changes, `n` more times at most; `changed` tells that something
has changed before. -/
def settle (entries : List Define) (n : Nat) (s : Bytes) (changed : Bool) : Option (Bytes × Bool) :=
  let t := sweep entries s
  if t = s then some (s, changed)
  else match n with
    | 0 => none
    | n + 1 => settle entries n t true

/-- Substitutes all defines in `s`. The flag tells whether anything changed. -/
def expand (ds : Defines) (s : Bytes) : Except DefineError (Bytes × Bool) :=
  match settle ds.entries ds.sweeps s false with
  | some r => .ok r
  | none => .error (.endless s)

end Defines

end Asm16
