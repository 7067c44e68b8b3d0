import BytecodeMachine.Machine.Render
import BytecodeMachine.Program.Validate

/-!
What native code sees and changes: the store, the disk, the output, and the record of a run. The
control state of the machine is out of its reach.
-/
namespace BytecodeMachine

/-- Printed text, newest first, and how much of it there may be. -/
structure Output where
  pieces : List Text := []
  size : Nat := 0
  limit : Option Nat := none
deriving Inhabited

namespace Output

def text (o : Output) : Text := o.pieces.reverse.flatten

/-- Writes a whole piece or, beyond the limit, nothing. -/
def write? (o : Output) (t : Text) : Option Output :=
  let size := o.size + t.length
  match o.limit with
  | some n => if n < size then none else some { o with pieces := t :: o.pieces, size := size }
  | none => some { o with pieces := t :: o.pieces, size := size }

end Output

/-- Something worth recording that happens during a run. -/
inductive Event where
  | step (ip : Int) (op : Text) (depth height : Nat)
  | fileOpened (path mode : Text)
deriving DecidableEq

structure World where
  store : Store := {}
  disk : Disk := {}
  /-- The functions of the table that were used as values, each one closure a run. -/
  closures : List (Text × Closure) := []
  /-- The static objects of the classes that were touched. -/
  statics : List (Text × Nat) := []
  /-- The handles that are open. -/
  openFiles : List Nat := []
  uuids : Nat := 0
  cancelled : Bool := false
  /-- The time since the run began, in nanoseconds. -/
  clock : Nat := 0
  /-- When the run is stopped. -/
  deadline : Option Nat := none
  output : Output := {}
  events : List Event := []
deriving Inhabited

/-- The answer of native code, with the world it leaves. -/
abbrev Reply (α : Type) := Except Failure α × World

/-- The instruction being executed, as faults name it. -/
structure Place where
  ip : Int
  op : Text

namespace World

/-- The scope that outlives all others. -/
def globals : Nat := 0

def give {α : Type} (w : World) (a : α) : Reply α := (.ok a, w)

def fail {α : Type} (w : World) (c : ErrorCause) : Reply α := (.error (.of c), w)

def text (w : World) (v : Value) : Text := w.store.text v

def newArray (w : World) (elems : List Value) : Reply Value :=
  let (v, s) := w.store.newArray elems
  (.ok v, { w with store := s })

def newDict (w : World) (d : Dict) : Value × World :=
  let (v, s) := w.store.newDict d
  (v, { w with store := s })

def newRef (w : World) : Nat × World :=
  let (r, s) := w.store.newRef
  (r, { w with store := s })

/-- Why the run is to stop, if it is. -/
def stop? (w : World) : Option StopReason :=
  if w.cancelled then some .cancelled
  else match w.deadline with
    | some t => if t ≤ w.clock then some .deadline else none
    | none => none

/-- A function of the table as a closure over the global scope, always the same one. -/
def functionClosure (p : Program) (here : Place) (w : World) (name : Text) : Reply Closure :=
  match w.closures.lookup name with
  | some c => w.give c
  | none =>
    match p.functions.get? name with
    | none => (.error (.fault ⟨here.ip, here.op, .undefinedFunction name⟩), w)
    | some fn =>
      let (ref, w) := w.newRef
      let c : Closure :=
        { ref := ref, name := fn.name, entry := fn.address.toInt, params := fn.params
          scope := globals }
      (.ok c, { w with closures := (name, c) :: w.closures })

end World

end BytecodeMachine
