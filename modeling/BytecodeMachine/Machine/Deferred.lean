import BytecodeMachine.Machine.World

/-!
Results that arrive later. A deferred is settled once, by a value or by a failure; what comes after
that has no effect.
-/
namespace BytecodeMachine

inductive Deferred where
  /-- Not settled, and nothing will settle it. -/
  | pending
  /-- Settled when the wait begins. -/
  | settled (r : Except Failure Value)
  /-- Settled after some nanoseconds of waiting. -/
  | upcoming (delay : Nat) (r : Except Failure Value)

namespace Deferred

def resolve : Deferred → Value → Deferred
  | pending, v => settled (.ok v)
  | d, _ => d

def reject : Deferred → Failure → Deferred
  | pending, f => settled (.error f)
  | d, _ => d

end Deferred

namespace World

/-- Lets time pass up to a delay or to the deadline, whichever comes first. -/
def wait (w : World) (delay : Nat) : Option StopReason × World :=
  match w.stop? with
  | some reason => (some reason, w)
  | none =>
    match w.deadline with
    | some t =>
      if t ≤ w.clock + delay then (some .deadline, { w with clock := t })
      else (none, { w with clock := w.clock + delay })
    | none => (none, { w with clock := w.clock + delay })

/-- Waits until a deferred is settled or the run is stopped. -/
def await (w : World) : Option Deferred → Reply Value
  | none => w.give .null
  | some (.settled r) => (r, w)
  | some (.upcoming delay r) =>
    match w.wait delay with
    | (some reason, w) => (.error (.stopped reason), w)
    | (none, w) => (r, w)
  | some .pending => (.error (.stopped ((w.stop?).getD .deadline)), w)

end World

end BytecodeMachine
