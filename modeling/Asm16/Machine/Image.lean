import Asm16.Machine.Code

/-!
# Memory images

An image is a fixed number of words, few enough for a 64 bit integer to count them. `write` puts
words at an address and reports the first address that lies outside; `save` and `restore` are its
file form in either byte order.
-/

namespace Asm16

/-- The order of the two bytes of a word in a file. -/
inductive ByteOrder where
  | big | little
  deriving DecidableEq, Repr

namespace ByteOrder

/-- The two bytes of a word. -/
def bytes : ByteOrder → UInt16 → Bytes
  | big, w => [(w >>> 8).toUInt8, w.toUInt8]
  | little, w => [w.toUInt8, (w >>> 8).toUInt8]

/-- The word of two bytes. -/
def word : ByteOrder → UInt8 → UInt8 → UInt16
  | big, hi, lo => hi.toUInt16 <<< 8 ||| lo.toUInt16
  | little, lo, hi => hi.toUInt16 <<< 8 ||| lo.toUInt16

/-- The words of a file; an odd byte at the end is left out. -/
def words (order : ByteOrder) : Bytes → List UInt16
  | a :: b :: rest => order.word a b :: order.words rest
  | _ => []

end ByteOrder

/-- Why fewer bytes were read than were asked for. -/
inductive ReadError where
  /-- There was no byte at all. -/
  | endOfFile
  /-- The file ended before the last byte. -/
  | shortFile
  | device (message : Bytes)
  deriving DecidableEq, Repr

/-- A file that is read : its bytes, and what goes wrong behind them if they do not just end. -/
structure Input where
  bytes : Bytes
  failure : Option Bytes := none
  deriving DecidableEq, Repr

/-- Reads `n` bytes, or as many as there are and why there are no more. -/
def Input.readFull (input : Input) (n : Nat) : Bytes × Option ReadError :=
  if n ≤ input.bytes.length then (input.bytes.take n, none)
  else (input.bytes, some (match input.failure with
    | some message => .device message
    | none => if input.bytes.isEmpty then .endOfFile else .shortFile))

/-- The number of addresses that are not negative. -/
def addressLimit : Nat := 0x8000000000000000

/-- A word addressed memory image. -/
structure Image where
  words : Array UInt16
  /-- The number of words is a 64 bit integer. -/
  size_lt : words.size < addressLimit
  deriving DecidableEq, Repr

/-- What restoring an image gives. -/
structure Restored where
  image : Image
  /-- The number of bytes that were read. -/
  count : Nat
  error : Option ReadError
  deriving DecidableEq, Repr

/-- The number of words of main memory. -/
def ramWords : Nat := 0x10000

/-- The number of words of a floppy disk. -/
def floppyWords : Nat := 1440 * 512

namespace Image

/-- An image of zeros. -/
def zeros (size : Nat) : Image :=
  ⟨Array.replicate (min size (addressLimit - 1)) 0, by
    simp only [Array.size_replicate, addressLimit]
    omega⟩

/-- The number of words. -/
def size (img : Image) : Nat := img.words.size

/-- The image with every word zero. -/
def cleared (img : Image) : Image := zeros img.size

/-- The words from `start` up to `stop`, as far as there are any. -/
def slice (img : Image) (start stop : Nat) : List UInt16 := (img.words.extract start stop).toList

/-- Puts `ws` at address `addr`. Stops at the first address outside the image and returns it. -/
def write (img : Image) (addr : Int) : List UInt16 → Image × Option Int
  | [] => (img, none)
  | w :: rest =>
    if 0 ≤ addr ∧ addr < img.size then
      write ⟨img.words.setIfInBounds addr.toNat w, by
        simpa only [Array.size_setIfInBounds] using img.size_lt⟩ (addr + 1) rest
    else (img, some addr)

/-- Puts `n` zeros at address `addr`, as `write` does. No more than the image holds are written,
however large `n` is. -/
def writeZeros (img : Image) (addr : Int) (n : Nat) : Image × Option Int :=
  img.write addr (List.replicate (min n (img.size + 1)) 0)

/-- The instructions in `[start, stop)`, one after another. -/
def codes (img : Image) (start stop : Nat) : List (Nat × Code) :=
  Code.sweep start (img.slice start stop)

/-- Shows the instructions in `[start, stop)` to a consumer, one after another, until it is done. -/
def visit {σ : Type} (img : Image) (start stop : Nat) (consume : σ → Nat × Code → ForInStep σ)
    (s : σ) : σ :=
  Code.visit consume s start (img.slice start stop)

/-- The file form of an image. -/
def save (img : Image) (order : ByteOrder) : Bytes := img.words.toList.flatMap order.bytes

/-- Fills the image from a file; words the file does not reach are zero. The end of the file is no
error. -/
def restore (img : Image) (order : ByteOrder) (input : Input) : Restored :=
  let (bytes, e) := input.readFull (2 * img.size)
  { image := (img.cleared.write 0 (order.words bytes)).1
    count := bytes.length
    error := match e with
      | some .endOfFile | some .shortFile => none
      | e => e }

/-- The first `n` words, as an image. -/
def take (img : Image) (n : Nat) : Image :=
  ⟨img.words.extract 0 n, by
    have := img.size_lt
    simp only [Array.size_extract]
    omega⟩

end Image

end Asm16
