import Asm16.Define
import Asm16.Machine.Image
import Asm16.Project.Fact

/-!
# Project settings

What a project file can set. `Settings.parse?` refuses a file with any fact that is no setting.
-/

namespace Asm16

/-- The settings of a project. -/
structure Settings where
  /-- Label names that differ in letter case are different. -/
  labelsCaseSensitive : Bool := true
  projectRoot : Bytes := "."
  workspaceRoot : Bytes := "."
  /-- The number of words of the image. -/
  imageWords : Nat := ramWords
  byteOrder : ByteOrder := .big
  /-- The number of sweeps defines may take on a line. -/
  defineLimit : Nat := Defines.defaultLimit
  /-- Defines made before any source is read, in the order of their keys. -/
  defines : List (Bytes × Bytes) := []
  deriving DecidableEq, Repr

namespace Project

/-- What a setting may hold. -/
inductive Shape where
  | flag
  | text
  /-- A positive number. -/
  | count
  /-- The name of a byte order. -/
  | order
  /-- Texts by name. -/
  | table
  deriving DecidableEq, Repr

/-- The settings there are. -/
def shapes : List (Bytes × Shape) :=
  [("labelsCaseSensitive", .flag), ("projectRoot", .text), ("workspaceRoot", .text),
    ("imageWords", .count), ("byteOrder", .order), ("defineLimit", .count), ("defines", .table)]

/-- The name of a byte order. -/
def orderName : ByteOrder → Bytes
  | .big => "big"
  | .little => "little"

/-- The byte order with a name. -/
def order? (name : Bytes) : Option ByteOrder :=
  [ByteOrder.big, ByteOrder.little].find? (orderName · == name)

/-- Whether a value has a shape. -/
def Shape.admits : Shape → Leaf → Bool
  | flag, .bool _ => true
  | text, .text _ => true
  | count, .int n => 0 < n && n < Numeral.intLimit
  | order, .text name => (order? name).isSome
  | table, .struct => true
  | _, _ => false

/-- Whether a label is out of sight of the rest of the file. -/
def Label.isHidden : Label → Bool
  | hidden _ => true
  | _ => false

/-- Whether a fact belongs into a project file. -/
def Fact.allowed (f : Fact) : Bool :=
  f.path.any Label.isHidden ||
    match f.path with
    | [] => f.leaf = .struct
    | [.field name] => (shapes.lookup name).any fun shape => shape.admits f.leaf
    | [.field name, .field _] => shapes.lookup name = some .table && Shape.text.admits f.leaf
    | _ => false

/-- The value of a setting. -/
def value? (facts : List Fact) (name : Bytes) : Option Leaf :=
  (facts.find? (·.path == [.field name])).map (·.leaf)

/-- The value of a setting that is true or false. -/
def flag? (facts : List Fact) (name : Bytes) : Option Bool :=
  match value? facts name with
  | some (.bool b) => some b
  | _ => none

/-- The value of a setting that is a text. -/
def text? (facts : List Fact) (name : Bytes) : Option Bytes :=
  match value? facts name with
  | some (.text s) => some s
  | _ => none

/-- The value of a setting that is a number. -/
def count? (facts : List Fact) (name : Bytes) : Option Nat :=
  match value? facts name with
  | some (.int n) => some n.toNat
  | _ => none

/-- The texts of a table. -/
def table (facts : List Fact) (name : Bytes) : List (Bytes × Bytes) :=
  facts.filterMap fun f =>
    match f.path, f.leaf with
    | [.field outer, .field key], .text value => if outer = name then some (key, value) else none
    | _, _ => none

end Project

namespace Settings

open Project

/-- The settings some facts make; the rest keeps its default. -/
def ofFacts (facts : List Fact) : Settings :=
  let base : Settings := {}
  { labelsCaseSensitive := (flag? facts "labelsCaseSensitive").getD base.labelsCaseSensitive
    projectRoot := (text? facts "projectRoot").getD base.projectRoot
    workspaceRoot := (text? facts "workspaceRoot").getD base.workspaceRoot
    imageWords := (count? facts "imageWords").getD base.imageWords
    byteOrder := ((text? facts "byteOrder").bind order?).getD base.byteOrder
    defineLimit := (count? facts "defineLimit").getD base.defineLimit
    defines := ((table facts "defines").mergeSort fun x y => Bytes.le x.1 y.1).eraseDups }

/-- The settings in a project file. -/
def parse? (file : Bytes) : Option Settings := do
  let facts ← facts? file
  if agree facts && facts.all Fact.allowed then some (ofFacts facts) else none

end Settings

end Asm16
