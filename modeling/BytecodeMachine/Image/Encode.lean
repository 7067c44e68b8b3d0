import BytecodeMachine.Image.Item
import BytecodeMachine.Program.Basic

/-!
Programs as data items. Records are maps from small numbers to fields; fields that are zero or empty
are left out, and the names of a table stand in order of length, then of bytes.
-/
namespace BytecodeMachine.Image

/-- A field under its number. -/
def field (k : Nat) (i : Item) : Item × Item := (.unsigned k, i)

/-- A field that is written only if it says something. -/
def fieldIf (keep : Bool) (k : Nat) (i : Item) : List (Item × Item) :=
  if keep then [field k i] else []

def textField (k : Nat) (t : Text) : List (Item × Item) := fieldIf (!t.isEmpty) k (.ofText t)

def intField (k : Nat) (n : Int64) : List (Item × Item) := fieldIf (n ≠ 0) k (.ofInt n.toInt)

def texts (l : List Text) : Item := .array (l.map .ofText)

/-- A list that may be missing. -/
def optionalList {α : Type} (f : α → Item) : Option (List α) → Item
  | some l => .array (l.map f)
  | none => .null

def textsField (k : Nat) (l : List Text) : List (Item × Item) := fieldIf (!l.isEmpty) k (texts l)

/-- The entries of a table by the length of their names; names of one length are in order already. -/
def ordered {α : Type} (t : Table α) : List (Text × α) :=
  t.entries.mergeSort fun a b => a.1.length ≤ b.1.length

def table {α : Type} (f : α → Item) (t : Table α) : Item :=
  .map ((ordered t).map fun e => (.ofText e.1, f e.2))

def tableField {α : Type} (k : Nat) (f : α → Item) (t : Table α) : List (Item × Item) :=
  fieldIf (!t.isEmpty) k (table f t)

def ofLiteral (l : Literal) : Item :=
  .map (field 1 (.unsigned l.kind.toNat) :: intField 2 l.int
    ++ fieldIf (!l.float.isZero) 3 (.float l.float) ++ textField 4 l.str)

def literalField (k : Nat) : Option Literal → List (Item × Item)
  | some l => [field k (ofLiteral l)]
  | none => []

def ofOperand (o : Operand) : Item :=
  .map (intField 1 o.int ++ intField 2 o.int2 ++ textField 3 o.name ++ textField 4 o.member
    ++ literalField 5 o.lit)

def ofInstruction (i : Instruction) : Item :=
  .map (field 1 (.unsigned i.op.toNat) :: field 2 (ofOperand i.operand) :: intField 3 i.line
    ++ intField 4 i.col ++ textField 5 i.file)

def ofFunction (f : Function) : Item :=
  .map (field 1 (.ofText f.name) :: field 2 (.ofInt f.address.toInt) :: textsField 3 f.params)

def ofClass (c : ClassInfo) : Item :=
  .map (field 1 (.ofText c.name) :: textField 2 c.base ++ textsField 3 c.fields
    ++ textsField 4 c.statics ++ tableField 5 Item.ofText c.methods
    ++ tableField 6 Item.ofText c.staticMethods)

def ofProgram (p : Program) : Item :=
  .map (textField 1 p.file ++ field 2 (optionalList ofInstruction (p.code?.map (·.toList)))
    :: tableField 3 ofFunction p.functions
    ++ tableField 4 ofClass p.classes ++ tableField 5 (optionalList Item.ofText) p.enums)

end BytecodeMachine.Image
