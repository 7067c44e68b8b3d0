import BytecodeMachine.Proofs.Machine.Asking
import BytecodeMachine.Proofs.Machine.Steps

/-! Machines all of whose values obey a condition, and that stand among their scopes in a way of which
something is said. Unwinding drops frames, scopes and values, and goes back to scopes that the frames
stand in or that lie around the current one, so it leaves such a machine as one. -/
namespace BytecodeMachine

variable {ι : Type}

/-- What is said of the scopes of a machine, of the current one and of its frames. -/
abbrev Standing := Scopes → Nat → List Frame → Prop

/-- The value that a run ends with, if any. -/
def Ending.Holds (H : Value → Prop) : Ending → Prop
  | .value v => H v
  | _ => True

/-- A handler that has put off no return of any other value. -/
def Handler.Holds (H : Value → Prop) (h : Handler) : Prop :=
  ∀ v, h.phase = .finalizing (.giveBack v) → H v

structure Loop.Holds (H : Value → Prop) (l : Loop) : Prop where
  callee : H l.callee
  rest : ∀ v ∈ l.rest, H v
  gathered : l.gathered.Holds H

/-- A machine whose values obey a condition, by what is known of its world. -/
structure Machine.Obeys (C : Condition ι) (P : Standing) (i : ι) (m : Machine) : Prop where
  world : m.world.Obeys C i
  place : P m.scopes m.scope m.frames
  stack : ∀ v ∈ m.stack, C.value i v
  handlers : ∀ h ∈ m.handlers, h.Holds (C.value i)
  loops : ∀ l ∈ m.loops, l.Holds (C.value i)

/-- An effect that leaves such a machine. -/
inductive Effect.Obeys (C : Condition ι) (P : Standing) (i : ι) : Effect → Prop
  | next {m : Machine} (machine : m.Obeys C P i) : Obeys C P i (.next m)
  | returned {v : Value} {m : Machine} (machine : m.Obeys C P i) (value : C.value i v) :
      Obeys C P i (.returned v m)
  | failed {f : Failure} {m : Machine} (machine : m.Obeys C P i)
      (failure : f.Holds (C.value i)) : Obeys C P i (.failed f m)

inductive Status.Obeys (C : Condition ι) (P : Standing) (i : ι) : Status → Prop
  | running {m : Machine} (machine : m.Obeys C P i) : Obeys C P i (.running m)
  | ended {e : Ending} {m : Machine} (machine : m.Obeys C P i) (ending : e.Holds (C.value i)) :
      Obeys C P i (.ended e m)

inductive Machine.Thrown.Obeys (C : Condition ι) (P : Standing) (i : ι) : Machine.Thrown → Prop
  | handled {m : Machine} (machine : m.Obeys C P i) : Obeys C P i (.handled m)
  | escaped {m : Machine} (machine : m.Obeys C P i) : Obeys C P i (.escaped m)

/-- What steps need of it where a machine stands: a name may be bound, a block may open a scope in the
current one and a function one in the scope that it closes over, and both go back. -/
structure Standing.Stable (P : Standing) (C : Condition ι) : Prop where
  declare : ∀ {S scope frames} (name : Text) (v : Value) (id : Nat), P S scope frames →
    P (S.declare name v id) scope frames
  push : ∀ {S scope frames}, P S scope frames → P (S.push (some scope)).2 S.cells.size frames
  leave : ∀ {S scope frames}, P S scope frames →
    P S ((S.parent? scope).getD World.globals) frames
  call : ∀ {S scope frames} {f : Frame} {c : Closure}, P S scope frames → f.scope = scope →
    C.closure c → P (S.push (some c.scope)).2 S.cells.size (f :: frames)
  back : ∀ {S scope frames} {f : Frame}, P S scope (f :: frames) → P S f.scope frames

/-- What the steps of a machine need of a condition on values, and of what is said of where it
stands, in order to keep both. -/
structure Setup.Keeps [Preorder ι] (s : Setup) (C : Condition ι) (P : Standing) : Prop where
  condition : C.Stable s.program fun i f => f.Holds (C.value i)
  standing : P.Stable C
  closure : ∀ {i c}, C.value i (.closure c) → C.closure c
  method : ∀ {i w ref c receiver}, C.knows i w → C.value i (.boundMethod ref c receiver) →
    C.closure c ∧ C.value i receiver
  host : ∀ h ∈ s.host, ∀ {i w} depths args, World.Obeys C i w → (∀ v ∈ args, C.value i v) →
    (h.call ⟨s.program, w.store, depths⟩ args).Holds (C.value i)

section Weaken

variable {H H' : Value → Prop} (weaker : ∀ v, H v → H' v)

include weaker

theorem Handler.Holds.mono {h : Handler} (hh : h.Holds H) : h.Holds H' := fun v hv =>
  weaker v (hh v hv)

theorem Loop.Holds.mono {l : Loop} (h : l.Holds H) : l.Holds H' where
  callee := weaker _ h.callee
  rest v hv := weaker v (h.rest v hv)
  gathered := h.gathered.mono weaker

end Weaken

namespace Loop

variable {H : Value → Prop} {l : Loop}

theorem Holds.absorb (h : l.Holds H) (store : Store) {v : Value} (hv : H v) :
    (l.absorb store v).Holds H := by
  rw [absorb_with_gathered]
  exact { h with gathered := absorb_gathered h.gathered store hv }

theorem Holds.take (h : l.Holds H) {e : Value} {rest : List Value} (he : H e)
    (hrest : ∀ v ∈ rest, H v) :
    (l.take e rest).1.Holds H ∧ ∀ v ∈ (l.take e rest).2, H v := by
  obtain ⟨hgathered, hargs⟩ := take_gathered h.gathered he rest
  rw [take_with_gathered]
  exact ⟨{ h with rest := hrest, gathered := hgathered }, hargs⟩

end Loop

namespace Standing.Stable

variable {P : Standing} {C : Condition ι} (hP : P.Stable C) {S : Scopes} {scope : Nat}
  {frames : List Frame}

include hP

theorem assign {S' : Scopes} {name : Text} {v : Value} {id : Nat} (h : P S scope frames)
    (hs : S.assign? name v id = some S') : P S' scope frames := by
  obtain ⟨owner, -, rfl⟩ := Option.map_eq_some_iff.mp hs
  exact hP.declare name v owner h

theorem bindings (h : P S scope frames) (bound : List (Text × Value)) (id : Nat) :
    P (bound.foldl (fun scopes e => scopes.declare e.1 e.2 id) S) scope frames := by
  induction bound generalizing S with
  | nil => exact h
  | cons e es ih => exact ih (hP.declare e.1 e.2 id h)

end Standing.Stable

namespace Machine

variable {C : Condition ι} {P : Standing} {i j : ι} {m : Machine}

namespace Obeys

theorem push (h : m.Obeys C P i) {v : Value} (hv : C.value i v) : (m.push v).Obeys C P i :=
  { h with stack := List.forall_mem_cons.mpr ⟨hv, h.stack⟩ }

theorem with_stack (h : m.Obeys C P i) {stack : List Value} (hs : ∀ v ∈ stack, v ∈ m.stack) :
    Obeys C P i { m with stack := stack } := { h with stack := fun v hv => h.stack v (hs v hv) }

theorem with_handlers (h : m.Obeys C P i) {handlers : List Handler}
    (hs : ∀ d ∈ handlers, d.Holds (C.value i)) : Obeys C P i { m with handlers := handlers } :=
  { h with handlers := hs }

theorem with_loops (h : m.Obeys C P i) {loops : List Loop}
    (hl : ∀ l ∈ loops, l.Holds (C.value i)) : Obeys C P i { m with loops := loops } :=
  { h with loops := hl }

end Obeys

/-- A run begins with no values at all. -/
theorem obeys_start {w : World} {o : RunOptions} (knows : C.knows i (w.renew o))
    (place : P (w.renew o).store.scopes World.globals []) : Obeys C P i { world := w.renew o } :=
  ⟨World.obeys_renew knows, place, by simp, by simp, by simp⟩

variable [Preorder ι] {s : Setup}

namespace Obeys

variable (hs : s.Keeps C P)

include hs

/-- A world of which more may be known, with the same scopes. -/
theorem with_world (h : m.Obeys C P i) {w : World} (hw : w.Obeys C j) (grown : i ≤ j)
    (same : w.store.scopes = m.scopes) : Obeys C P j { m with world := w } where
  world := hw
  place := by
    change P w.store.scopes m.scope m.frames
    rw [same]
    exact h.place
  stack v hv := hs.condition.mono grown (h.stack v hv)
  handlers d hd := (h.handlers d hd).mono fun _ => hs.condition.mono grown
  loops l hl := (h.loops l hl).mono fun _ => hs.condition.mono grown

theorem with_scopes (h : m.Obeys C P i) {S : Scopes} (hS : S.Holds (C.value i))
    (place : P S m.scope m.frames) :
    Obeys C P i { m with world := { m.world with store := { m.world.store with scopes := S } } } :=
  { h with world := h.world.with_scopes hs.condition hS, place := place }

/-! Unwinding drops frames, scopes and values. -/

theorem popFrames (h : m.Obeys C P i) (n : Nat) : (popFrames n m).Obeys C P i := by
  induction n generalizing m with
  | zero => exact h
  | succ n ih =>
    refine ih ?_
    unfold popFrame
    split
    · exact h
    · next f frames hf =>
      have hplace := h.place
      rw [hf] at hplace
      exact { h with
        stack := fun v hv => h.stack v (mem_of_mem_truncated hv)
        place := hs.standing.back hplace }

theorem leaveScopes (h : m.Obeys C P i) (n : Nat) : (leaveScopes n m).Obeys C P i := by
  induction n generalizing m with
  | zero => exact h
  | succ n ih => exact ih (m := m.leaveScope) { h with place := hs.standing.leave h.place }

theorem unwindTo (h : m.Obeys C P i) (d : Handler) : (m.unwindTo d).Obeys C P i :=
  ((h.popFrames hs _).leaveScopes hs _).with_stack fun _ hv => mem_of_mem_truncated hv

variable {rest : List Handler}

theorem enterFinally (h : m.Obeys C P i) (d : Handler)
    (hrest : ∀ e ∈ rest, e.Holds (C.value i)) {pending : Pending}
    (hpending : ∀ v, pending = .giveBack v → C.value i v) :
    (m.enterFinally d rest pending).Obeys C P i := by
  refine { h.unwindTo hs d with handlers := List.forall_mem_cons.mpr ⟨fun v hv => ?_, hrest⟩ }
  cases hv
  exact hpending v rfl

theorem enterCatch (h : m.Obeys C P i) (d : Handler) (hrest : ∀ e ∈ rest, e.Holds (C.value i))
    (exc : Nat) : (m.enterCatch d rest exc).Obeys C P i := by
  have hexc : C.value i (.exception exc) := hs.condition.plain trivial
  refine { (h.unwindTo hs d).push hexc with
    handlers := List.forall_mem_cons.mpr ⟨fun v hv => ?_, hrest⟩ }
  cases hv

theorem throwTo (h : m.Obeys C P i) (exc boundary : Nat) {handlers : List Handler}
    (hd : ∀ d ∈ handlers, d.Holds (C.value i)) :
    (m.throwTo exc boundary handlers).Obeys C P i := by
  have ht := throwTo_throws m exc boundary handlers
  generalize m.throwTo exc boundary handlers = t at ht ⊢
  cases ht with
  | @caught above _ d found =>
    obtain ⟨-, hrest⟩ := List.forall_mem_cons.mp (List.forall_mem_append.mp (found ▸ hd)).2
    exact .handled (h.enterCatch hs d hrest exc)
  | @entered above _ d found =>
    obtain ⟨-, hrest⟩ := List.forall_mem_cons.mp (List.forall_mem_append.mp (found ▸ hd)).2
    exact .handled (h.enterFinally hs d hrest fun v hv => by cases hv)
  | escaped above found =>
    exact .escaped ((h.with_handlers (List.forall_mem_append.mp (found ▸ hd)).2).popFrames hs _)

/-- A return or a leave puts itself off or comes out among the handlers below. -/
theorem defers (h : m.Obeys C P i) {exits : Handler → Prop} {pending : Handler → Pending}
    {handlers : List Handler} {r : Machine ⊕ Machine} (hr : Defers m exits pending handlers r)
    (hd : ∀ d ∈ handlers, d.Holds (C.value i))
    (hp : ∀ d v, pending d = .giveBack v → C.value i v) : (r.elim id id).Obeys C P i := by
  cases hr with
  | @entered _ _ d found =>
    obtain ⟨-, hrest⟩ := List.forall_mem_cons.mp (List.forall_mem_append.mp (found ▸ hd)).2
    exact h.enterFinally hs d hrest (hp d)
  | out above found => exact h.with_handlers (List.forall_mem_append.mp (found ▸ hd)).2

/-- A place and a trace are no values, so what the exceptions carry stays as it is. -/
theorem stamp (h : m.Obeys C P i) (id : Nat) : (stamp s m id).Obeys C P i := by
  have hpayload (e : Exception) : (stamped s m e).payload = e.payload := by
    unfold stamped
    dsimp only
    split <;> rfl
  have hexceptions :
      ∀ e ∈ m.world.store.exceptions.modify id (stamped s m), C.value i e.payload := by
    refine forall_mem_modify (f := stamped s m) h.world.values.exceptions id fun e he => ?_
    rw [hpayload]
    exact he
  unfold Machine.stamp
  dsimp only
  split
  · exact h
  · let st := { m.world.store with
      exceptions := m.world.store.exceptions.modify id (stamped s m) }
    have hstore : st.Holds (C.value i) := { h.world.values with exceptions := hexceptions }
    have hworld : World.Obeys C i { m.world with store := st } :=
      h.world.with_store hs.condition rfl rfl hstore
    exact h.with_world hs hworld le_rfl rfl

end Obeys

variable (hs : s.Keeps C P)

include hs

theorem giveBack_obeys (h : m.Obeys C P i) {v : Value} (hv : C.value i v) :
    (m.giveBack v).Obeys C P i := by
  have hthrough := h.defers hs (returnThrough_defers m v m.handlers) h.handlers fun _ u hu => by
    cases hu
    exact hv
  unfold giveBack
  generalize m.returnThrough v m.handlers = r at hthrough ⊢
  cases r with
  | inl n => exact .next hthrough
  | inr n =>
    have hn : n.Obeys C P i := hthrough
    dsimp only
    split
    · exact .failed hn hv
    · next f fs _ =>
      have hpop : n.popFrame.Obeys C P i := hn.popFrames hs 1
      have hback : Obeys C P i { n.popFrame with ip := f.returnIp } := { hpop with }
      split
      · exact .returned hpop hv
      · exact .next (hback.push hv)

theorem leaveTo_obeys (h : m.Obeys C P i) (target scopes : Int) :
    (leaveTo s m target scopes).Obeys C P i := by
  have hthrough := h.defers hs (leaveThrough_defers m target (m.leaveDepth scopes) m.handlers)
    h.handlers fun _ _ hu => by cases hu
  unfold leaveTo
  dsimp only
  split
  · exact .failed h trivial
  · generalize m.leaveThrough target (m.leaveDepth scopes) m.handlers = r at hthrough ⊢
    cases r with
    | inl n => exact .next hthrough
    | inr n =>
      have hleft : (n.leaveScopesTo (m.leaveDepth scopes)).Obeys C P i :=
        Obeys.leaveScopes hs hthrough _
      exact .next { hleft with }

/-- What was put off goes on among the handlers around the one whose block has ended. -/
theorem endFinally_obeys (h : m.Obeys C P i) : (endFinally s m).Obeys C P i := by
  unfold endFinally
  split
  · exact .failed h trivial
  · next d rest hd =>
    obtain ⟨hholds, hrest⟩ := List.forall_mem_cons.mp (hd ▸ h.handlers)
    have hm : Obeys C P i { m with handlers := rest } := h.with_handlers hrest
    dsimp only
    split
    · exact .failed hm trivial
    · next v hphase => exact giveBack_obeys hs hm (hholds v hphase)
    · exact leaveTo_obeys hs hm _ _
    · exact .next hm

theorem exceptionOf_obeys (h : m.Obeys C P i) {f : Failure} (hf : f.Holds (C.value i)) {id : Nat}
    {n : Machine} (heq : m.exceptionOf f = some (id, n)) : n.Obeys C P i := by
  cases f with
  | raise cause payload =>
    cases heq
    exact h.with_world hs (h.world.newException hs.condition hf) le_rfl rfl
  | rethrow id =>
    cases heq
    exact h
  | _ => cases heq

theorem offer_obeys (h : m.Obeys C P i) {f : Failure} (hf : f.Holds (C.value i))
    (boundary : Nat) :
    (∃ n, m.offer s f boundary = .inl n ∧ n.Obeys C P i) ∨
      ∃ g n, m.offer s f boundary = .inr (g, n) ∧ n.Obeys C P i ∧ g.Holds (C.value i) := by
  unfold offer
  split
  · exact .inr ⟨f, m, rfl, h, hf⟩
  · next id n heq =>
    have hn : n.Obeys C P i := exceptionOf_obeys hs h hf heq
    have hthrown : (throwException s n id boundary).Obeys C P i :=
      (hn.stamp hs id).throwTo hs _ _ hn.handlers
    generalize throwException s n id boundary = t at hthrown ⊢
    cases hthrown with
    | handled machine => exact .inl ⟨_, rfl, { machine with }⟩
    | escaped machine => exact .inr ⟨_, _, rfl, machine, trivial⟩

omit hs in
theorem endingOf_holds {H : Value → Prop} {f : Failure} (hf : f.Holds H) :
    (endingOf f).Holds H := by
  cases f with
  | halt v => exact hf
  | _ => exact trivial

theorem fail_obeys (inside : Bool) {f : Failure} {loops : List Loop} (h : m.Obeys C P i)
    (hl : ∀ l ∈ loops, l.Holds (C.value i)) (hf : f.Holds (C.value i)) :
    (fail s inside f m loops).Obeys C P i := by
  -- Outwards from loop to loop, each with what the one inside it could not handle.
  induction loops generalizing inside f m with
  | nil =>
    unfold fail
    obtain ⟨n, heq, hn⟩ | ⟨g, n, heq, hn, hg⟩ := offer_obeys hs h hf 0
    · rw [heq]
      exact .running (hn.with_loops hl)
    · rw [heq]
      exact .ended (hn.with_loops hl) (endingOf_holds hg)
  | cons l loops ih =>
    obtain ⟨-, hrest⟩ := List.forall_mem_cons.mp hl
    have hnext {g : Failure} {n : Machine} (hn : n.Obeys C P i) (hg : g.Holds (C.value i)) :
        (fail s (!l.nested) (g.named l.name) { n with ip := l.ip, pc := l.pc } loops).Obeys C P i := by
      have hnamed := hg.named hs.condition.null l.name
      exact ih (!l.nested) (m := { n with ip := l.ip, pc := l.pc }) { hn with } hrest hnamed
    unfold fail
    cases inside with
    | false => exact hnext h hf
    | true =>
      simp only [if_true]
      obtain ⟨n, heq, hn⟩ | ⟨g, n, heq, hn, hg⟩ := offer_obeys hs h hf l.boundary
      · rw [heq]
        exact .running (hn.with_loops hl)
      · rw [heq]
        exact hnext hn hg

omit hs [Preorder ι] in
theorem deliver_obeys (h : m.Obeys C P i) {v : Value} (hv : C.value i v) :
    (m.deliver v).Obeys C P i := by
  unfold deliver
  split
  · exact .ended h hv
  · next l loops hl =>
    obtain ⟨hholds, hrest⟩ := List.forall_mem_cons.mp (hl ▸ h.loops)
    exact .running { h with loops := List.forall_mem_cons.mpr ⟨hholds.absorb _ hv, hrest⟩ }

theorem settle_obeys {e : Effect} (h : e.Obeys C P i) : (settle s e).Obeys C P i := by
  cases h with
  | next machine => exact .running machine
  | returned machine value => exact deliver_obeys machine value
  | failed machine failure => exact fail_obeys hs true machine machine.loops failure

end Machine

end BytecodeMachine
