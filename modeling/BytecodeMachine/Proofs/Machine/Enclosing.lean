import BytecodeMachine.Proofs.Machine.Captured
import BytecodeMachine.Proofs.Machine.Chains

/-! Machines that stand in a tree of scopes and whose functions close over scopes of it. A new scope
lies in the current one or in that of a function, and unwinding goes back to scopes that the frames
stand in or that lie around the current one, so a step leaves such a machine as one. -/
namespace BytecodeMachine

variable {q : Nat → Prop} {s : Setup}

/-- A handler that has put off no return of any other value. -/
def Handler.Over (q : Nat → Prop) (h : Handler) : Prop :=
  ∀ v, h.phase = .finalizing (.giveBack v) → v.Over q

/-- Scopes that are a tree with the current scope, those that the frames go back to, and all that
`q` admits. -/
structure Scopes.Houses (q : Nat → Prop) (S : Scopes) (scope : Nat) (frames : List Frame) :
    Prop where
  tree : S.Tree
  admitted : ∀ id, q id → id < S.cells.size
  current : scope < S.cells.size
  callers : ∀ f ∈ frames, f.scope < S.cells.size

/-- A machine that stands in a tree of scopes, and all of whose functions close over scopes that `q`
admits. -/
structure Machine.Over (q : Nat → Prop) (m : Machine) : Prop where
  world : m.world.Over q
  place : m.scopes.Houses q m.scope m.frames
  stack : ∀ v ∈ m.stack, v.Over q
  handlers : ∀ h ∈ m.handlers, h.Over q
  loops : ∀ l ∈ m.loops, l.Over q

/-- The value that a run ends with is one of those a machine has. -/
def Ending.Over (q : Nat → Prop) : Ending → Prop
  | .value v => v.Over q
  | _ => True

inductive Status.Over (q : Nat → Prop) : Status → Prop
  | running {m : Machine} (machine : m.Over q) : Over q (.running m)
  | ended {e : Ending} {m : Machine} (machine : m.Over q) (ending : e.Over q) :
      Over q (.ended e m)

namespace Scopes.Houses

variable {S : Scopes} {scope : Nat} {frames : List Frame}

theorem declare (h : S.Houses q scope frames) (name : Text) (v : Value) (id : Nat) :
    (S.declare name v id).Houses q scope frames := by
  have hsize := S.size_declare name v id
  refine ⟨h.tree.declare name v id, ?_, ?_, ?_⟩ <;> rw [hsize]
  · exact h.admitted
  · exact h.current
  · exact h.callers

/-- A new scope in one that is there becomes the current one. -/
theorem push (h : S.Houses q scope frames) {p : Nat} (hp : p < S.cells.size) :
    (S.push (some p)).2.Houses q S.cells.size frames := by
  have hsize := S.size_push (some p)
  refine ⟨h.tree.push hp, ?_, ?_, ?_⟩ <;> rw [hsize]
  · exact fun id hid => Nat.lt_succ_of_lt (h.admitted id hid)
  · exact Nat.lt_succ_self _
  · exact fun f hf => Nat.lt_succ_of_lt (h.callers f hf)

theorem leave (h : S.Houses q scope frames) :
    S.Houses q ((S.parent? scope).getD World.globals) frames := by
  refine { h with current := ?_ }
  cases hp : S.parent? scope with
  | none => exact h.tree.root
  | some p => exact Nat.lt_trans (h.tree.older hp) h.current

/-- The caller goes on in the scope that its callee was called from. -/
theorem back {f : Frame} (h : S.Houses q scope (f :: frames)) : S.Houses q f.scope frames := by
  obtain ⟨hcurrent, hcallers⟩ := List.forall_mem_cons.mp h.callers
  exact { h with current := hcurrent, callers := hcallers }

theorem call {f : Frame} (h : S.Houses q scope frames) (hf : f.scope = scope) :
    S.Houses q scope (f :: frames) :=
  { h with callers := List.forall_mem_cons.mpr ⟨hf ▸ h.current, h.callers⟩ }

end Scopes.Houses

/-- Such scopes are kept where blocks and functions open theirs and go back. -/
theorem Scopes.Houses.stable : Standing.Stable (Houses q) (.capturing q) where
  declare name v id h := h.declare name v id
  push h := h.push h.current
  leave h := h.leave
  call h hf hc := (h.call hf).push (h.admitted _ hc)
  back h := h.back

theorem Setup.keeps_capturing (hq : q World.globals) (host : ∀ f ∈ s.host, f.Over) :
    s.Keeps (.capturing q) (Scopes.Houses q) where
  condition := Condition.capturing_stable s.program hq
  standing := Scopes.Houses.stable
  closure hc := hc
  method _ hc := hc
  host f hf := fun {_ w} depths args hw ha =>
    (host f hf q ⟨s.program, w.store, depths⟩ args hq hw.values ha).holds

theorem Ending.Holds.over {e : Ending} (h : e.Holds (Value.Over q)) : e.Over q := by
  cases e with
  | value v => exact h
  | _ => exact trivial

namespace Machine

variable {m : Machine}

theorem Over.obeys (h : m.Over q) : m.Obeys (.capturing q) (Scopes.Houses q) 0 where
  world := h.world.obeys
  place := h.place
  stack := h.stack
  handlers := h.handlers
  loops l hl := ⟨(h.loops l hl).callee, (h.loops l hl).rest, (h.loops l hl).gathered⟩

theorem Obeys.over {n : Nat} (h : m.Obeys (.capturing q) (Scopes.Houses q) n) : m.Over q where
  world := h.world.over
  place := h.place
  stack := h.stack
  handlers := h.handlers
  loops l hl := ⟨(h.loops l hl).callee, (h.loops l hl).rest, (h.loops l hl).gathered⟩

/-- Whatever a step does, no value closes over a scope that no value closed over before and that is
neither the current one nor the outermost one. -/
theorem advance_over (hq : q World.globals) (host : ∀ f ∈ s.host, f.Over) (h : m.Over q)
    (here : q m.scope) : (m.advance s).Over q := by
  obtain ⟨_, -, hend⟩ := advance_obeys (s.keeps_capturing hq host) h.obeys fun _ => here
  generalize m.advance s = st at hend ⊢
  cases hend with
  | running machine => exact .running machine.over
  | ended machine ending => exact .ended machine.over ending.over

end Machine

end BytecodeMachine
