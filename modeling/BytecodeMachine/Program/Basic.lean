import BytecodeMachine.Program.Literal
import BytecodeMachine.Program.Opcode
import BytecodeMachine.Program.Table

/-!
Programs: a flat list of instructions with tables of functions, classes and enums.
-/
namespace BytecodeMachine

/-- The immediate arguments of an instruction; the opcode says which of them count. -/
structure Operand where
  int : Int64 := 0
  int2 : Int64 := 0
  name : Text := []
  member : Text := []
  lit : Option Literal := none
deriving DecidableEq, Inhabited

/-- An instruction with its place in the source. The opcode is a number that may be unknown. -/
structure Instruction where
  op : UInt8 := 0
  operand : Operand := {}
  line : Int64 := 0
  col : Int64 := 0
  file : Text := []
deriving DecidableEq, Inhabited

structure Function where
  name : Text := []
  address : Int64 := 0
  params : List Text := []
deriving DecidableEq, Inhabited

/-- A class declaration. Methods are given by the names of functions. -/
structure ClassInfo where
  name : Text := []
  base : Text := []
  fields : List Text := []
  statics : List Text := []
  methods : Table Text := {}
  staticMethods : Table Text := {}
deriving DecidableEq, Inhabited

/-- A program. Neither the list of its instructions nor that of an enum's members has to be there;
an image tells a missing list from an empty one, and nothing else does. -/
structure Program where
  file : Text := []
  code? : Option (Array Instruction) := none
  functions : Table Function := {}
  classes : Table ClassInfo := {}
  enums : Table (Option (List Text)) := {}
deriving DecidableEq, Inhabited

namespace Program

def code (p : Program) : Array Instruction := p.code?.getD #[]

/-- The members of an enum, none if there is no such enum. -/
def enumMembers (p : Program) (enum : Text) : List Text := (p.enums.get? enum).join.getD []

/-- The names of the functions by address, then by name. -/
def functionNames (p : Program) : List Text :=
  (p.functions.entries.mergeSort fun a b => a.2.address.toInt ≤ b.2.address.toInt).map (·.1)

/-- The instruction at an address inside the code. -/
def instruction? (p : Program) (address : Int) : Option Instruction :=
  if address < 0 then none else p.code[address.toNat]?

end Program

end BytecodeMachine
