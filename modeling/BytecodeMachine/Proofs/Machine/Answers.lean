import BytecodeMachine.Proofs.Machine.Asking
import BytecodeMachine.Proofs.Machine.Uncatchable

/-! What native code fails with: an exception or a final failure. Only the output refuses writes, and
errors of the host are turned into exceptions before an instruction sees them. -/
namespace BytecodeMachine

variable {s : Setup}

/-- An answer that fails with exceptions and final failures only. -/
def Reply.Tame {α : Type} (r : Reply α) : Prop :=
  ∀ f, r.1 = .error f → f.isException = true ∨ f.isFinal = true

/-- The condition that any value obeys, whatever is known. -/
def Condition.any : Condition Nat where
  knows _ _ := True
  value _ _ := True
  closure _ := True
  cls _ := True

/-- Native code that is given any values still fails in these ways only. -/
theorem Condition.any_stable (p : Program) :
    any.Stable p fun _ f => f.isException = true ∨ f.isFinal = true where
  mono _ _ := trivial
  plain _ := trivial
  ofClosure _ := trivial
  ofClass _ := trivial
  ofType _ := trivial
  aside _ _ _ := trivial
  boundMethod _ _ _ _ := ⟨_, le_rfl, trivial, trivial⟩
  boundIntrinsic _ _ _ := ⟨_, le_rfl, trivial, trivial⟩
  newObject _ _ := ⟨_, le_rfl, trivial, trivial, trivial⟩
  object _ _ := .inr fun _ => trivial
  table _ := trivial
  classRef _ := trivial
  declared _ _ := .inr fun _ _ _ => .inr rfl
  raised _ := .inl rfl
  stopped _ := .inr rfl

theorem World.obeys_any (w : World) : w.Obeys .any 0 where
  knows := trivial
  values :=
    { arrays := fun _ _ _ _ => trivial
      dicts := fun _ _ _ _ => ⟨trivial, trivial⟩
      objects := fun _ _ _ _ => trivial
      exceptions := fun _ _ => trivial
      scopes := fun _ _ _ _ => trivial }
  classes _ _ := trivial
  closures _ _ := trivial
  statics _ _ := trivial

theorem Reply.Obeys.tame {α : Type} {Q : Nat → α → Prop} {n : Nat} {r : Reply α}
    (h : Reply.Obeys .any (fun _ f => f.isException = true ∨ f.isFinal = true) Q n r) :
    r.Tame := by
  intro f hf
  obtain ⟨-, -, hf⟩ := h.failed hf
  exact hf

namespace World

theorem lift_tame {α : Type} (w : World) (r : Except ErrorCause α) : Reply.Tame (w.lift r) := by
  intro f hf
  cases r with
  | ok a => cases hf
  | error e =>
    cases hf
    exact Or.inl rfl

theorem sliceGet_tame (w : World) (obj start stop : Value) :
    Reply.Tame (w.sliceGet obj start stop) :=
  (sliceGet_obeys (Condition.any_stable {}) w.obeys_any obj start stop).tame

end World

namespace Machine

variable {o : Operand} {op : Opcode} {H : Value → Prop}

theorem ask_tame (m : Machine) {q : Query} (asks : op.Asks s o H q) : Reply.Tame (m.ask s q) := by
  have hany : op.Asks s o (Condition.any.value 0) q := asks.mono fun _ _ => trivial
  exact (ask_obeys (Condition.any_stable s.program) m.world.obeys_any (fun _ => trivial) hany).tame

theorem tell_tame (m : Machine) {u : Update} (tells : op.Tells s o H u) :
    Reply.Tame (m.tell s u) := by
  have hany : op.Tells s o (Condition.any.value 0) u := tells.mono fun _ _ => trivial
  exact (tell_obeys (Condition.any_stable s.program) m.world.obeys_any hany).tame

end Machine

end BytecodeMachine
