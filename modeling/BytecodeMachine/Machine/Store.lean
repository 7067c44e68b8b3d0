import BytecodeMachine.Machine.Dict
import BytecodeMachine.Machine.Scope

/-!
The store: everything that values refer to.
-/
namespace BytecodeMachine

/-- The fields of an instance, or of a class itself. A field that was never set is null. -/
structure Object where
  cls : ClassRef
  fields : List (Text × Value) := []
deriving Inhabited

/-- An exception. Its place and trace are written when it is first raised. -/
structure Exception where
  kind : Text
  message : Text
  file : Text := []
  line : Int64 := 0
  col : Int64 := 0
  trace : Text := []
  payload : Value := .null
  positioned : Bool := false
deriving DecidableEq, Inhabited

/-- An exception as one line, with its place where that is known. -/
def Exception.text (e : Exception) : Text :=
  e.kind ++ ": " ++ e.message
    ++ (if e.positioned && (!e.file.isEmpty || 0 < e.line.toInt) then
      " at " ++ e.file ++ ":" ++ Text.ofInt64 e.line ++ ":" ++ Text.ofInt64 e.col else ([] : Text))

structure Store where
  arrays : Array (List Value) := #[]
  dicts : Array Dict := #[]
  objects : Array Object := #[]
  exceptions : Array Exception := #[]
  scopes : Scopes := {}
  handles : Array FileHandle := #[]
  refs : Nat := 0
deriving Inhabited

namespace Store

def array (s : Store) (id : Nat) : List Value := (s.arrays[id]?).getD []

def dict (s : Store) (id : Nat) : Dict := (s.dicts[id]?).getD {}

def object (s : Store) (id : Nat) : Object := (s.objects[id]?).getD default

def exception (s : Store) (id : Nat) : Exception := (s.exceptions[id]?).getD default

def handle (s : Store) (id : Nat) : FileHandle := (s.handles[id]?).getD default

def newArray (s : Store) (elems : List Value) : Value × Store :=
  (.array s.arrays.size, { s with arrays := s.arrays.push elems })

def newDict (s : Store) (d : Dict) : Value × Store :=
  (.dict s.dicts.size, { s with dicts := s.dicts.push d })

def newObject (s : Store) (cls : ClassRef) : Nat × Store :=
  (s.objects.size, { s with objects := s.objects.push { cls := cls } })

def newException (s : Store) (e : Exception) : Nat × Store :=
  (s.exceptions.size, { s with exceptions := s.exceptions.push e })

def newHandle (s : Store) (h : FileHandle) : Nat × Store :=
  (s.handles.size, { s with handles := s.handles.push h })

/-- A number that no other function or bound method has. -/
def newRef (s : Store) : Nat × Store := (s.refs, { s with refs := s.refs + 1 })

def setArray (s : Store) (id : Nat) (elems : List Value) : Store :=
  { s with arrays := s.arrays.setIfInBounds id elems }

def modifyDict (s : Store) (id : Nat) (f : Dict → Dict) : Store :=
  { s with dicts := s.dicts.modify id f }

def setField (s : Store) (id : Nat) (name : Text) (v : Value) : Store :=
  { s with objects := s.objects.modify id fun o => { o with fields := bind name v o.fields } }

def field (s : Store) (id : Nat) (name : Text) : Value :=
  ((s.object id).fields.lookup name).getD .null

def setHandle (s : Store) (id : Nat) (h : FileHandle) : Store :=
  { s with handles := s.handles.setIfInBounds id h }

/-- Whether a value counts as true. -/
def truthy (s : Store) : Value → Bool
  | .null => false
  | .bool b => b
  | .int n => n ≠ 0
  | .int32 n => n ≠ 0
  | .char c => c ≠ 0
  | .float32 x => !x.isZero
  | .float x => !x.isZero
  | .decimal d => !d.isZero
  | .string t => !t.isEmpty
  | .array id => !(s.array id).isEmpty
  | .dict id => 0 < (s.dict id).size
  | _ => true

end Store

end BytecodeMachine
