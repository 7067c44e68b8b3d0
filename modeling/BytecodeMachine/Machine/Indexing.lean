import BytecodeMachine.Machine.Member

/-!
Elements and slices. Positions in strings count characters. Bounds of slices may be missing, count
from the end where they are negative, and are cut to the length.
-/
namespace BytecodeMachine

def Value.integer? : Value → Option Int
  | .int n => some n.toInt
  | .int32 n => some n.toInt
  | _ => none

/-- The integer an argument has to be; `what` names it in the error. -/
def Value.toInteger (what : Text) (v : Value) : Except ErrorCause Int :=
  match v.integer? with
  | some n => .ok n
  | none => .error (.notInteger what v.kind)

def Value.toText (what : Text) (v : Value) : Except ErrorCause Text :=
  match v with
  | .string s => .ok s
  | _ => .error (.notString what v.kind)

/-- A string, or a character as a string. -/
def Value.toSubstring (what : Text) (v : Value) : Except ErrorCause Text :=
  match v with
  | .char c => .ok (Text.ofCodePoint c.toInt)
  | _ => v.toText what

/-- The string a last argument has to be where it is given. -/
def optionalText (what missing : Text) : List Value → Except ErrorCause Text
  | [] => .ok missing
  | v :: _ => v.toText what

/-- An element of a list by a position that has to be inside. -/
def elementAt {α : Type} (xs : List α) (i : Int) : Except ErrorCause α :=
  match (if i < 0 then none else xs[i.toNat]?) with
  | some x => .ok x
  | none => .error (.indexRange i xs.length)

def charValue (r : Rune) : Value := .char (Int32.ofNat r.char.toNat)

/-- One bound of a slice of a sequence of length `n`. -/
def sliceBound (v : Value) (missing n : Nat) : Except ErrorCause Nat :=
  match v with
  | .null => .ok missing
  | _ => (v.toInteger "slice bound").map fun (i : Int) =>
    min (if i < 0 then i + (n : Int) else i).toNat n

/-- The two bounds of a slice, the second not below the first. -/
def sliceBounds (start stop : Value) (n : Nat) : Except ErrorCause (Nat × Nat) :=
  match sliceBound start 0 n with
  | .error e => .error e
  | .ok lo =>
    match sliceBound stop n n with
    | .error e => .error e
    | .ok hi => .ok (lo, max lo hi)

def slice {α : Type} (xs : List α) (lo hi : Nat) : List α := (xs.drop lo).take (hi - lo)

/-- The text of some positions of a text, stray bytes replaced. -/
def charsText (rs : List Rune) : Text := Text.ofChars (rs.map Rune.char)

namespace World

variable (p : Program) (here : Place)

def lift {α : Type} (w : World) (r : Except ErrorCause α) : Reply α :=
  match r with
  | .ok a => (.ok a, w)
  | .error e => w.fail e

/-- An element by its index, key or member name. -/
def indexGet (w : World) (obj idx : Value) : Reply Value :=
  match obj with
  | .array id => w.lift ((idx.toInteger "array index").bind (elementAt (w.store.array id)))
  | .string s =>
    w.lift ((idx.toInteger "string index").bind fun i => (elementAt s.runes i).map charValue)
  | .dict id => w.give (((w.store.dict id).get? idx).getD .null)
  | .object _ | .static _ | .cls _ | .type _ =>
    match idx with
    | .string name => w.loadMember p here obj name
    | _ => w.fail (.indexKinds obj.kind idx.kind)
  | _ => w.fail (.indexKinds obj.kind idx.kind)

/-- Sets an element by its index, key or member name. -/
def indexSet (w : World) (obj idx v : Value) : Reply Unit :=
  match obj with
  | .array id =>
    match (idx.toInteger "array index").bind fun i =>
        (elementAt (w.store.array id) i).map fun _ => i.toNat with
    | .ok i => (.ok (), { w with store := w.store.setArray id ((w.store.array id).set i v) })
    | .error e => w.fail e
  | .dict id => (.ok (), { w with store := w.store.modifyDict id fun d => d.insert idx v })
  | .string _ => w.fail .immutableString
  | .object _ | .static _ | .cls _ | .type _ =>
    match idx with
    | .string name => w.storeMember p obj name v
    | _ => w.fail (.indexKinds obj.kind idx.kind)
  | _ => w.fail (.indexKinds obj.kind idx.kind)

/-- A new array or string of the elements between two bounds. -/
def sliceGet (w : World) (obj start stop : Value) : Reply Value :=
  match obj with
  | .array id =>
    let xs := w.store.array id
    match sliceBounds start stop xs.length with
    | .error e => w.fail e
    | .ok (lo, hi) => w.newArray (slice xs lo hi)
  | .string s =>
    let rs := s.runes
    match sliceBounds start stop rs.length with
    | .error e => w.fail e
    | .ok (lo, hi) => w.give (.string (charsText (slice rs lo hi)))
  | _ => w.fail (.notSliceable obj.kind)

end World

end BytecodeMachine
