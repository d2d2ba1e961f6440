import Asm16.Text.Blank
import Asm16.Text.Case
import Asm16.Text.Quoted

/-!
# Log records

Work on a program leaves records : a level, a message and named values. `Logged` is a computation
that may fail and leaves records either way. `Record.line` is the text form of a record and
`journalKey` the form of a name in a journal that knows only capitals, digits and underscores.
-/

namespace Asm16

/-- The weight of a record. -/
abbrev Level := Int

namespace Level

/-- What only a developer wants to know. -/
def debug : Level := -4

/-- What is worth knowing. -/
def info : Level := 0

/-- What may be wrong. -/
def warn : Level := 4

/-- What went wrong. -/
def error : Level := 8

/-- The name of the next lower level that has one, with the distance to it. -/
def name (l : Level) : Bytes :=
  if l < info then relative "DEBUG" (l - debug)
  else if l < warn then relative "INFO" (l - info)
  else if l < error then relative "WARN" (l - warn)
  else relative "ERROR" (l - error)
where
  relative (base : Bytes) (d : Int) : Bytes :=
    if d = 0 then base
    else if d < 0 then base ++ Numeral.ofInt d
    else base ++ "+" ++ Numeral.ofInt d

end Level

/-- A value of a record. -/
inductive Value where
  | text (s : Bytes)
  | int (n : Int)
  deriving DecidableEq, Repr

/-- A log record. -/
structure Record where
  level : Level
  message : Bytes
  values : List (Bytes × Value) := []
  deriving DecidableEq, Repr

/-- Whether a text has to be quoted to stand in a line of names and values. -/
def needsQuotes : Bytes → Bool
  | [] => true
  | s => (Utf8.chars s).any fun c =>
    if c.toNat < 0x80 then c.toNat < 0x20 || c = ' ' || c = '=' || c = '"'
    else c = Utf8.replacement || isBlankChar c || !isPrintable c

/-- A text in a line of names and values. -/
def logText (s : Bytes) : Bytes := if needsQuotes s then quote s else s

namespace Record

/-- One name and value. -/
def pair (name : Bytes) (v : Value) : Bytes :=
  logText name ++ "=" ++ match v with
    | .text s => logText s
    | .int n => Numeral.ofInt n

/-- The text form of a record, without the time. -/
def line (r : Record) : Bytes :=
  Bytes.join " " (("level=" ++ r.level.name) :: ("msg=" ++ logText r.message) ::
    r.values.map fun (k, v) => pair k v) ++ "\n"

end Record

/-- Reads a run of values as names and values by turns. A number in the place of a name, or a name
at the end, is a value without a name. -/
def namedValues : List Value → List (Bytes × Value)
  | .text name :: v :: rest => (name, v) :: namedValues rest
  | v :: rest => ("!BADKEY", v) :: namedValues rest
  | [] => []

/-- A name as a journal field : letters in upper case, anything else an underscore. -/
def journalKey (s : Bytes) : Bytes :=
  (Utf8.chars s).map fun c => (upperAscii? c).getD (byte '_')

/-- A computation that leaves records, whether it succeeds or fails with an `ε`. -/
structure Logged (ε α : Type) where
  log : List Record
  result : Except ε α

namespace Logged

variable {ε α β : Type}

/-- Success without records. -/
def pure (a : α) : Logged ε α := ⟨[], .ok a⟩

/-- One computation after another; the second is left out if the first fails. -/
def bind (x : Logged ε α) (f : α → Logged ε β) : Logged ε β :=
  match x.result with
  | .ok a =>
    let y := f a
    ⟨x.log ++ y.log, y.result⟩
  | .error e => ⟨x.log, .error e⟩

/-- Changes the value of a computation; its records stay. -/
def map (f : α → β) (x : Logged ε α) : Logged ε β := ⟨x.log, x.result.map f⟩

instance : Monad (Logged ε) where
  pure := Logged.pure
  bind := Logged.bind
  map := Logged.map

/-- Leaves one record. -/
def record (r : Record) : Logged ε Unit := ⟨[r], .ok ()⟩

/-- Leaves some records. -/
def records (rs : List Record) : Logged ε Unit := ⟨rs, .ok ()⟩

/-- A result without records. -/
def lift (r : Except ε α) : Logged ε α := ⟨[], r⟩

/-- Failure without records. -/
def fail (e : ε) : Logged ε α := ⟨[], .error e⟩

@[simp] theorem result_pure (a : α) : (Pure.pure a : Logged ε α).result = .ok a := rfl

@[simp] theorem result_bind (x : Logged ε α) (f : α → Logged ε β) :
    (x >>= f).result = x.result >>= fun a => (f a).result := by
  show (Logged.bind x f).result = _
  unfold Logged.bind
  cases x.result <;> rfl

@[simp] theorem result_map (f : α → β) (x : Logged ε α) : (f <$> x).result = x.result.map f := rfl

@[simp] theorem result_record (r : Record) : (record r : Logged ε Unit).result = .ok () := rfl

@[simp] theorem result_records (rs : List Record) :
    (records rs : Logged ε Unit).result = .ok () := rfl

@[simp] theorem result_lift (r : Except ε α) : (lift r).result = r := rfl

@[simp] theorem result_fail (e : ε) : (fail e : Logged ε α).result = .error e := rfl

end Logged

section Success

variable {ε α β : Type}

@[simp] theorem ok_bind (a : α) (f : α → Except ε β) : (.ok a : Except ε α) >>= f = f a := rfl

@[simp] theorem error_bind (e : ε) (f : α → Except ε β) :
    (.error e : Except ε α) >>= f = .error e := rfl

@[simp] theorem mapError_ok {ε' : Type} (f : ε → ε') (a : α) :
    (.ok a : Except ε α).mapError f = .ok a := rfl

@[simp] theorem mapError_error {ε' : Type} (f : ε → ε') (e : ε) :
    (.error e : Except ε α).mapError f = .error (f e) := rfl

/-- A sequence succeeds if its first part does and the rest does on its value. -/
theorem bind_eq_ok {x : Except ε α} {f : α → Except ε β} {b : β} :
    x >>= f = .ok b ↔ ∃ a, x = .ok a ∧ f a = .ok b := by
  cases x <;> simp

theorem map_eq_ok {x : Except ε α} {f : α → β} {b : β} :
    x.map f = .ok b ↔ ∃ a, x = .ok a ∧ f a = b := by
  cases x <;> simp [Except.map]

/-- A sequence fails if its first part does or the rest does on its value. -/
theorem bind_eq_error {x : Except ε α} {f : α → Except ε β} {e : ε} :
    x >>= f = .error e ↔ x = .error e ∨ ∃ a, x = .ok a ∧ f a = .error e := by
  cases x <;> simp

theorem map_eq_error {x : Except ε α} {f : α → β} {e : ε} :
    x.map f = .error e ↔ x = .error e := by
  cases x <;> simp [Except.map]

/-- A computation that is run to its end shows its value. -/
theorem exists_ok {x : Except ε α} {p : α → Bool} (h : x.toOption.any p = true) :
    ∃ a, x = .ok a ∧ p a = true := by
  cases x with
  | error e => cases h
  | ok a => exact ⟨a, rfl, h⟩

end Success

end Asm16
