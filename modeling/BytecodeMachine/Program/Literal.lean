import BytecodeMachine.Number.FloatText
import BytecodeMachine.Text.Quoted

/-!
Constants that instructions carry. The kind says which of the fields count.
-/
namespace BytecodeMachine

inductive LiteralKind where
  | null
  | bool
  | int
  | int32
  | float32
  | float
  | decimal
  | str
  | char
deriving DecidableEq, Repr

namespace LiteralKind

def all : List LiteralKind := [null, bool, int, int32, float32, float, decimal, str, char]

def code : LiteralKind → UInt8
  | null => 0
  | bool => 1
  | int => 2
  | int32 => 3
  | float32 => 4
  | float => 5
  | decimal => 6
  | str => 7
  | char => 8

def name : LiteralKind → String
  | null => "null"
  | bool => "bool"
  | int => "int"
  | int32 => "int32"
  | float32 => "float32"
  | float => "float"
  | decimal => "decimal"
  | str => "str"
  | char => "char"

def ofCode? (n : UInt8) : Option LiteralKind := all.find? fun k => k.code = n

def ofName? (s : String) : Option LiteralKind := all.find? fun k => k.name = s

/-- The name of a kind number, known or not. -/
def nameOfCode (n : UInt8) : Text :=
  match ofCode? n with
  | some k => Text.ofString k.name
  | none => "literal(" ++ Text.ofNat n.toNat ++ ")"

end LiteralKind

/-- A constant: integers, truth values and code points in `int`, floating-point numbers of both
widths in `float`, strings and the text of decimals in `str`. -/
structure Literal where
  kind : UInt8 := 0
  int : Int64 := 0
  float : Binary64 := ⟨0⟩
  str : Text := []
deriving DecidableEq, Inhabited

namespace Literal

def null : Literal := { kind := LiteralKind.null.code }
def bool (b : Bool) : Literal := { kind := LiteralKind.bool.code, int := if b then 1 else 0 }
def ofInt (n : Int64) : Literal := { kind := LiteralKind.int.code, int := n }
def ofInt32 (n : Int32) : Literal := { kind := LiteralKind.int32.code, int := n.toInt64 }
def ofFloat (x : Binary64) : Literal := { kind := LiteralKind.float.code, float := x }
def ofFloat32 (x : Binary32) : Literal := { kind := LiteralKind.float32.code, float := x.toDouble }
def ofText (s : Text) : Literal := { kind := LiteralKind.str.code, str := s }
def ofCodePoint (n : Int32) : Literal := { kind := LiteralKind.char.code, int := n.toInt64 }
def ofDecimal (s : Text) : Literal := { kind := LiteralKind.decimal.code, str := s }

/-- A constant as listings show it. -/
def toText (l : Literal) : Text :=
  match LiteralKind.ofCode? l.kind with
  | some .null => "null"
  | some .bool => if l.int = 0 then "false" else "true"
  | some .int => Text.ofInt64 l.int
  | some .int32 => Text.ofInt64 l.int ++ "i32"
  | some .float32 => FloatText.ofBinary32 l.float.toSingle ++ "f32"
  | some .float => FloatText.ofBinary64 l.float
  | some .decimal => l.str ++ "m"
  | some .str => Text.quote l.str
  | some .char => Text.quoteCodePoint l.int.toInt32.toInt
  | none => LiteralKind.nameOfCode l.kind

end Literal

/-- A constant that may be missing, as listings show it. -/
def Literal.optionText : Option Literal → Text
  | some l => l.toText
  | none => "<nil>"

end BytecodeMachine
