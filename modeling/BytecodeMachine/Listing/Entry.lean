import BytecodeMachine.Listing.Shape
import BytecodeMachine.Program.Basic

/-!
What a listing says: the file, the enums, the classes and the entries of the code.
-/
namespace BytecodeMachine.Listing

open Yaml (Node)

/-- The constants an entry may give. Each of them is optional, and one is wanted. -/
structure Constants where
  int : Option Int64 := none
  int32 : Option Int32 := none
  float : Option Binary64 := none
  float32 : Option Binary32 := none
  str : Option Text := none
  char : Option Text := none
  bool : Option Bool := none
  decimal : Option Text := none
  nil : Bool := false

/-- One entry of the code: an instruction, a label, the start of a function, or several of them. -/
structure Entry where
  op : Text := []
  label : Text := []
  function : Text := []
  params : List Text := []
  target : Text := []
  catch_ : Text := []
  finally_ : Text := []
  scopes : Int64 := 0
  n : Int64 := 0
  name : Text := []
  member : Text := []
  constants : Constants := {}
  line : Int64 := 0
  col : Int64 := 0

/-- A whole listing. An empty file stands for the name of the listing. -/
structure Source where
  file : Text := []
  enums : Table (Option (List Text)) := {}
  classes : List ClassInfo := []
  code : List Entry := []

namespace Shape

def word (n : Node) : Shape (Option Int64) := return (← int 64 n).map Int64.ofInt

def constants (fs : List (Text × Node)) : Shape Constants := do
  return {
    int := ← part? fs "int" word
    int32 := (← part? fs "int32" (int 32)).map Int32.ofInt
    float := ← part? fs "float" float
    float32 := (← part? fs "float32" float).map Binary64.toSingle
    str := ← part? fs "str" text
    char := ← part? fs "char" text
    bool := ← part? fs "bool" bool
    decimal := ← part? fs "decimal" text
    nil := ← part fs "nil" bool false }

def entry (n : Node) : Shape (Option Entry) := do
  match ← fields mergeLimit n with
  | none => return none
  | some fs =>
    return some {
      op := ← part fs "op" text []
      label := ← part fs "label" text []
      function := ← part fs "function" text []
      params := ← part fs "params" (items text) []
      target := ← part fs "to" text []
      catch_ := ← part fs "catch" text []
      finally_ := ← part fs "finally" text []
      scopes := ← part fs "scopes" word 0
      n := ← part fs "n" word 0
      name := ← part fs "name" text []
      member := ← part fs "member" text []
      constants := ← constants fs
      line := ← part fs "line" word 0
      col := ← part fs "col" word 0 }

def classInfo (n : Node) : Shape (Option ClassInfo) := do
  match ← fields mergeLimit n with
  | none => return none
  | some fs =>
    return some {
      name := ← part fs "name" text []
      base := ← part fs "base" text []
      fields := ← part fs "fields" (items text) []
      statics := ← part fs "statics" (items text) []
      methods := ← part fs "methods" (table text []) {}
      staticMethods := ← part fs "static_methods" (table text []) {} }

def source (n : Node) : Shape Source := do
  match ← fields mergeLimit n with
  | none => return {}
  | some fs =>
    return {
      file := ← part fs "file" text []
      enums := ← part fs "enums" (table (optional (items text)) none) {}
      classes := ← part fs "classes" (items classInfo) []
      code := ← part fs "code" (items entry) [] }

end Shape

end BytecodeMachine.Listing
