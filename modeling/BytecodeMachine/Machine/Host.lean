import BytecodeMachine.Machine.Deferred
import BytecodeMachine.Machine.Member

/-!
Functions that a host adds to a machine. They may look at the machine but change it only through
their answer.
-/
namespace BytecodeMachine

/-- How deep the parts of a machine are nested. -/
structure Depths where
  scopes : Nat
  calls : Nat
  handlers : Nat
  stack : Nat
deriving DecidableEq

/-- What a host function sees. -/
structure HostView where
  program : Program
  store : Store
  depths : Depths

/-- What a host function answers. -/
inductive HostReply where
  | value (v : Value)
  | newArray (elems : List Value)
  | failure (f : Failure)
  /-- Cancels the run and gives null. -/
  | cancel
  | wait (d : Option Deferred)

structure HostFunction where
  name : Text
  arity : Arity
  call : HostView → List Value → HostReply

namespace HostReply

/-- Carries an answer out. -/
def carryOut (w : World) : HostReply → Reply Value
  | value v => w.give v
  | newArray elems => w.newArray elems
  | failure f => (.error f, w)
  | cancel => (.ok .null, { w with cancelled := true })
  | wait d => w.await d

end HostReply

end BytecodeMachine
