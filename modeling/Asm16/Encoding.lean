import Asm16.Layout
import Asm16.Machine.Image

/-!
# Encoding

The words a line puts into the image. Directives that move the address leave zeros, which are
counted and not listed: a program may reserve more words than any image has.
-/

namespace Asm16

/-- What a line puts into the image at its address. -/
inductive Block where
  | words (ws : List UInt16)
  | zeros (count : Nat)
  deriving DecidableEq, Repr

namespace Block

/-- The number of words of a block. -/
def size : Block → Nat
  | words ws => ws.length
  | zeros count => count

/-- Puts a block into an image; the second part is the first address outside of it. -/
def place (img : Image) (addr : Int) : Block → Image × Option Int
  | words ws => img.write addr ws
  | zeros count => img.writeZeros addr count

end Block

/-- The words of a data value of a line: a word for each character of a lone string, else its
value. -/
def encodeValue (text : Bytes) (run : List Token) : Except Fault (List UInt16) :=
  match loneString? run with
  | some contents => .ok ((Utf8.chars contents).map fun c => UInt16.ofNat c.toNat)
  | none =>
    match evaluateTokens run with
    | .ok n => .ok [UInt16.ofInt n]
    | .error cause => .error (.operand (tokenText text run) cause)

/-- The words of data values in order. -/
def encodeValues (text : Bytes) : List (List Token) → Except Fault (List UInt16)
  | [] => .ok []
  | run :: rest => do
    let here ← encodeValue text run
    let more ← encodeValues text rest
    .ok (here ++ more)

/-- The words of a line that has its size. A size below zero means that the addresses of the line
wrapped around; no words can stand there. -/
def Line.encode (l : Line) : Except Fault Block :=
  match l.kind? with
  | some .data => do
    let runs ← l.dataValues
    let ws ← encodeValues l.text runs
    .ok (.words ws)
  | some .origin | some .align | some .reserve =>
    if l.size < 0 then .error (.overflow l.offset) else .ok (.zeros l.size.toNat)
  | _ =>
    match l.code with
    | none => .ok (.words [])
    | some code =>
      match code.encode with
      | .ok ws => .ok (.words ws)
      | .error cause => .error (.value cause)

end Asm16
