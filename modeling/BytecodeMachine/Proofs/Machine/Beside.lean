import BytecodeMachine.Proofs.Machine.Faults
import BytecodeMachine.Proofs.Machine.Fileless

/-! Machines beside other remains. As long as no file is among its values and it reaches for none, a
machine does the same step by step whatever earlier runs have left. It can only call functions from
outside that its program names. -/
namespace BytecodeMachine

/-- A function from outside the program that reaches what outlives a run. -/
def Builtin.reachesOut : Builtin → Bool
  | .standard f => f.reachesOut
  | .host _ => false

def Value.reachesOut : Value → Bool
  | .builtin b => b.reachesOut
  | _ => false

/-- A function from outside the program that does not reach further. -/
abbrev Builtin.Inside (b : Builtin) : Prop := b.reachesOut = false

/-- The function that an instruction may take from outside the program, by the name in it. -/
def Setup.outside? (s : Setup) (o : Operand) : Opcode → Option Builtin
  | .loadVar | .call => if s.program.functions.contains o.name then none else s.builtin? o.name
  | _ => none

/-- All functions that a program may take from outside are admitted. -/
def Setup.Takes (s : Setup) (q : Builtin → Prop) : Prop :=
  ∀ ins ∈ s.program.code, ∀ op ∈ Opcode.ofCode? ins.op, ∀ b ∈ s.outside? ins.operand op, q b

theorem Setup.Takes.of_instruction {q : Builtin → Prop} {s : Setup} (h : s.Takes q) {a : Int}
    {ins : Instruction} (has : s.program.instruction? a = some ins) {op : Opcode}
    (hop : Opcode.ofCode? ins.op = some op) : ∀ b ∈ s.outside? ins.operand op, q b :=
  h ins (Array.mem_of_getElem? (Program.instruction?_eq has).2) op hop

/-- A host function whose answers stay within what it is given, where that is no file, and which
does not look at handles then. -/
structure HostFunction.Within (q : Builtin → Prop) (f : HostFunction) : Prop where
  answer : ∀ view args, view.store.Holds (Value.Within q) → (∀ v ∈ args, v.Within q) →
    (f.call view args).Within q
  blind : ∀ view args handles, view.store.Holds (Value.Within q) → (∀ v ∈ args, v.Within q) →
    f.call { view with store := { view.store with handles := handles } } args = f.call view args

/-- A host function that answers without files where it is given none. -/
abbrev HostFunction.Fileless (f : HostFunction) : Prop := f.Within fun _ => True

theorem Value.Within.inside {v : Value} (h : v.Within Builtin.Inside) : v.reachesOut = false := by
  cases v with
  | builtin b => exact h
  | _ => rfl

/-- A handler that has put off no return of any other value. -/
def Handler.Within (q : Builtin → Prop) (h : Handler) : Prop :=
  ∀ v, h.phase = .finalizing (.giveBack v) → v.Within q

/-- A machine with such values only. -/
structure Machine.Within (q : Builtin → Prop) (m : Machine) : Prop where
  world : m.world.Within q
  stack : ∀ v ∈ m.stack, v.Within q
  handlers : ∀ h ∈ m.handlers, h.Within q
  loops : ∀ l ∈ m.loops, l.Within q

namespace Machine

/-- A machine with the remains of other runs in place of those it has. -/
def beside (x : Remains) (m : Machine) : Machine := { m with world := m.world.beside x }

/-- Two machines, of which the second has other remains and the first has such values only. -/
structure Beside (q : Builtin → Prop) (x : Remains) (m m' : Machine) : Prop where
  same : m' = m.beside x
  within : m.Within q

end Machine

/-- Two effects that leave such machines. -/
inductive Effect.Beside (q : Builtin → Prop) (x : Remains) : Effect → Effect → Prop
  | next {m m' : Machine} (machine : m.Beside q x m') : Beside q x (.next m) (.next m')
  | returned {v : Value} {m m' : Machine} (machine : m.Beside q x m') (value : v.Within q) :
      Beside q x (.returned v m) (.returned v m')
  | failed {f : Failure} {m m' : Machine} (machine : m.Beside q x m') (failure : f.Within q) :
      Beside q x (.failed f m) (.failed f m')

def Ending.Within (q : Builtin → Prop) : Ending → Prop
  | .value v => v.Within q
  | _ => True

/-- Two states of runs that such machines are in. -/
inductive Status.Beside (q : Builtin → Prop) (x : Remains) : Status → Status → Prop
  | running {m m' : Machine} (machine : m.Beside q x m') : Beside q x (.running m) (.running m')
  | ended {e : Ending} {m m' : Machine} (machine : m.Beside q x m') (ending : e.Within q) :
      Beside q x (.ended e m) (.ended e m')

namespace Machine

/-- Two ways native calls go on with such machines. -/
inductive Native.Beside (q : Builtin → Prop) (x : Remains) : Native → Native → Prop
  | answered {v : Value} {m m' : Machine} (machine : m.Beside q x m') (value : v.Within q) :
      Beside q x (.answered (.ok v) m) (.answered (.ok v) m')
  | failed {f : Failure} {m m' : Machine} (machine : m.Beside q x m') (failure : f.Within q) :
      Beside q x (.answered (.error f) m) (.answered (.error f) m')
  | loops {l : Loop} {m m' : Machine} (machine : m.Beside q x m') (loop : l.Within q) :
      Beside q x (.loops l m) (.loops l m')

/-- Two ways an exception goes with such machines. -/
inductive Thrown.Beside (q : Builtin → Prop) (x : Remains) : Thrown → Thrown → Prop
  | handled {m m' : Machine} (machine : m.Beside q x m') : Beside q x (.handled m) (.handled m')
  | escaped {m m' : Machine} (machine : m.Beside q x m') : Beside q x (.escaped m) (.escaped m')

/-- Two ways a failure comes out of the handlers with such machines. -/
inductive EscapeBeside (q : Builtin → Prop) (x : Remains) :
    Failure × Machine → Failure × Machine → Prop
  | intro {f : Failure} {m m' : Machine} (machine : m.Beside q x m') (failure : f.Within q) :
      EscapeBeside q x (f, m) (f, m')

section Fields

variable (x : Remains) (m : Machine)

@[simp] theorem beside_world : (m.beside x).world = m.world.beside x := rfl

@[simp] theorem beside_stack : (m.beside x).stack = m.stack := rfl

@[simp] theorem beside_frames : (m.beside x).frames = m.frames := rfl

@[simp] theorem beside_handlers : (m.beside x).handlers = m.handlers := rfl

@[simp] theorem beside_loops : (m.beside x).loops = m.loops := rfl

@[simp] theorem beside_control : (m.beside x).control = m.control := rfl

@[simp] theorem beside_ip : (m.beside x).ip = m.ip := rfl

@[simp] theorem beside_scopeDepth : (m.beside x).scopeDepth = m.scopeDepth := rfl

@[simp] theorem beside_scopeFloor : (m.beside x).scopeFloor = m.scopeFloor := rfl

@[simp] theorem beside_place (s : Setup) : (m.beside x).place s = m.place s := rfl

@[simp] theorem beside_tooDeep? (s : Setup) : (m.beside x).tooDeep? s = m.tooDeep? s := rfl

@[simp] theorem beside_lookup? (name : Text) : (m.beside x).lookup? name = m.lookup? name := rfl

end Fields

variable {q : Builtin → Prop} {s : Setup} {x : Remains} {m : Machine}

theorem Within.beside (h : m.Within q) : m.Beside q x (m.beside x) := ⟨rfl, h⟩

theorem Within.push (h : m.Within q) {v : Value} (hv : v.Within q) : (m.push v).Within q := by
  refine { h with stack := fun u hu => ?_ }
  rcases List.mem_cons.mp hu with rfl | hu
  · exact hv
  · exact h.stack u hu

theorem Within.with_stack (h : m.Within q) {stack : List Value} (hs : ∀ v ∈ stack, v ∈ m.stack) :
    Within q { m with stack := stack } := { h with stack := fun v hv => h.stack v (hs v hv) }

theorem Within.with_world (h : m.Within q) {w : World} (hw : w.Within q) :
    Within q { m with world := w } := { h with world := hw }

theorem Within.with_scopes (h : m.Within q) {S : Scopes} (hS : S.Holds (Value.Within q)) :
    Within q { m with world := { m.world with store := { m.world.store with scopes := S } } } :=
  h.with_world (Store.Holds.with_scopes h.world hS)

theorem Within.with_handlers (h : m.Within q) {handlers : List Handler}
    (hs : ∀ d ∈ handlers, d.Within q) : Within q { m with handlers := handlers } :=
  { h with handlers := hs }

theorem Within.with_loops (h : m.Within q) {loops : List Loop} (hl : ∀ l ∈ loops, l.Within q) :
    Within q { m with loops := loops } := { h with loops := hl }

/-! Unwinding drops frames, scopes and values. -/

section Unwinding

theorem popFrame_beside (h : m.Within q) : Beside q x m.popFrame (m.beside x).popFrame := by
  unfold popFrame
  rw [beside_frames]
  split
  · exact h.beside
  · exact ⟨rfl, { h with stack := fun v hv => h.stack v (mem_of_mem_truncated hv) }⟩

theorem popFrames_beside (h : m.Within q) (n : Nat) :
    Beside q x (popFrames n m) (popFrames n (m.beside x)) := by
  induction n generalizing m with
  | zero => exact h.beside
  | succ n ih =>
    obtain ⟨heq, hpop⟩ := @popFrame_beside q x m h
    rw [popFrames, popFrames, heq]
    exact ih hpop

theorem leaveScopes_beside (h : m.Within q) (n : Nat) :
    Beside q x (leaveScopes n m) (leaveScopes n (m.beside x)) := by
  induction n generalizing m with
  | zero => exact h.beside
  | succ n ih => exact ih (m := m.leaveScope) { h with }

theorem unwindTo_beside (h : m.Within q) (d : Handler) :
    Beside q x (m.unwindTo d) ((m.beside x).unwindTo d) := by
  obtain ⟨hframes, hpop⟩ := @popFrames_beside q x m h (m.frames.length - d.callDepth)
  unfold unwindTo leaveScopesTo
  rw [beside_frames, hframes]
  dsimp only
  rw [beside_scopeDepth]
  obtain ⟨hscopes, hleft⟩ := @leaveScopes_beside q x _ hpop
    (((popFrames (m.frames.length - d.callDepth) m).scopeDepth : Int) - d.scopeDepth).toNat
  rw [hscopes]
  exact ⟨rfl, hleft.with_stack fun _ hv => mem_of_mem_truncated hv⟩

variable {d : Handler} {rest : List Handler}

theorem enterFinally_beside (h : m.Within q) (d : Handler) (hrest : ∀ e ∈ rest, e.Within q)
    {pending : Pending} (hpending : ∀ v, pending = .giveBack v → v.Within q) :
    Beside q x (m.enterFinally d rest pending) ((m.beside x).enterFinally d rest pending) := by
  obtain ⟨heq, hunwound⟩ := @unwindTo_beside q x m h d
  unfold enterFinally
  rw [heq]
  refine ⟨rfl, { hunwound with handlers := fun e he => ?_ }⟩
  rcases List.mem_cons.mp he with rfl | he
  · intro v hv
    cases hv
    exact hpending v rfl
  · exact hrest e he

theorem enterCatch_beside (h : m.Within q) (d : Handler) (hrest : ∀ e ∈ rest, e.Within q)
    (exc : Nat) :
    Beside q x (m.enterCatch d rest exc) ((m.beside x).enterCatch d rest exc) := by
  obtain ⟨heq, hunwound⟩ := @unwindTo_beside q x m h d
  have hpush := hunwound.push (v := .exception exc) trivial
  unfold enterCatch
  rw [heq]
  refine ⟨rfl, { hpush with handlers := fun e he => ?_ }⟩
  rcases List.mem_cons.mp he with rfl | he
  · intro v hv
    cases hv
  · exact hrest e he

theorem throwTo_beside (h : m.Within q) (exc boundary : Nat) {handlers : List Handler}
    (hs : ∀ d ∈ handlers, d.Within q) :
    Thrown.Beside q x (m.throwTo exc boundary handlers)
      ((m.beside x).throwTo exc boundary handlers) := by
  have hescape {handlers : List Handler} (hs : ∀ d ∈ handlers, d.Within q) (n : Nat) :
      Beside q x (popFrames n { m with handlers := handlers })
        (popFrames n { m.beside x with handlers := handlers }) :=
    popFrames_beside (h.with_handlers hs) n
  -- The handlers that are looked at one after the other have put off no file.
  induction handlers with
  | nil => exact .escaped (hescape hs _)
  | cons d rest ih =>
    have hrest : ∀ e ∈ rest, e.Within q := fun e he => hs e (List.mem_cons_of_mem _ he)
    rw [throwTo, throwTo]
    split
    · exact .escaped (hescape hs _)
    · split
      · exact .handled (enterCatch_beside h d hrest exc)
      · split
        · exact .handled (enterFinally_beside h d hrest fun v hv => by cases hv)
        · exact ih hrest

/-- A return puts itself off or comes out among the handlers of other frames. -/
theorem returnThrough_beside (h : m.Within q) {v : Value} (hv : v.Within q)
    {handlers : List Handler} (hs : ∀ d ∈ handlers, d.Within q) :
    Sum.LiftRel (Beside q x) (Beside q x) (m.returnThrough v handlers)
      ((m.beside x).returnThrough v handlers) := by
  induction handlers with
  | nil => exact .inr ⟨rfl, h.with_handlers hs⟩
  | cons d rest ih =>
    have hrest : ∀ e ∈ rest, e.Within q := fun e he => hs e (List.mem_cons_of_mem _ he)
    rw [returnThrough, returnThrough, beside_frames]
    split
    · exact .inr ⟨rfl, h.with_handlers hs⟩
    · split
      · refine .inl (enterFinally_beside h d hrest fun u hu => ?_)
        cases hu
        exact hv
      · exact ih hrest

theorem giveBack_beside (h : m.Within q) {v : Value} (hv : v.Within q) :
    Effect.Beside q x (m.giveBack v) ((m.beside x).giveBack v) := by
  have hthrough := @returnThrough_beside q x m h v hv m.handlers h.handlers
  unfold giveBack
  rw [beside_handlers]
  generalize m.returnThrough v m.handlers = r, (m.beside x).returnThrough v m.handlers = r'
    at hthrough ⊢
  cases hthrough with
  | inl machine => exact .next machine
  | @inr n _ machine =>
    obtain ⟨rfl, hn⟩ := machine
    dsimp only
    rw [beside_frames]
    split
    · exact .failed hn.beside hv
    · next f fs _ =>
      obtain ⟨hpop, hwithin⟩ := @popFrame_beside q x n hn
      have hback : Within q { n.popFrame with ip := f.returnIp } := { hwithin with }
      rw [hpop]
      split
      · exact .returned hwithin.beside hv
      · exact .next ⟨rfl, hback.push hv⟩

theorem leaveThrough_beside (h : m.Within q) (target dest : Int) {handlers : List Handler}
    (hs : ∀ d ∈ handlers, d.Within q) :
    Sum.LiftRel (Beside q x) (Beside q x) (m.leaveThrough target dest handlers)
      ((m.beside x).leaveThrough target dest handlers) := by
  induction handlers with
  | nil => exact .inr ⟨rfl, h.with_handlers hs⟩
  | cons d rest ih =>
    have hrest : ∀ e ∈ rest, e.Within q := fun e he => hs e (List.mem_cons_of_mem _ he)
    rw [leaveThrough, leaveThrough, beside_frames]
    split
    · split
      · exact .inl (enterFinally_beside h d hrest fun u hu => by cases hu)
      · exact ih hrest
    · exact .inr ⟨rfl, h.with_handlers hs⟩

theorem leaveTo_beside (h : m.Within q) (target scopes : Int) :
    Effect.Beside q x (leaveTo s m target scopes) (leaveTo s (m.beside x) target scopes) := by
  have hthrough :=
    @leaveThrough_beside q x m h target (m.leaveDepth scopes) m.handlers h.handlers
  have hdepth : (m.beside x).leaveDepth scopes = m.leaveDepth scopes := rfl
  unfold leaveTo
  rw [hdepth, beside_scopeFloor, beside_handlers]
  dsimp only
  split
  · exact .failed h.beside trivial
  · generalize m.leaveThrough target (m.leaveDepth scopes) m.handlers = r,
      (m.beside x).leaveThrough target (m.leaveDepth scopes) m.handlers = r' at hthrough ⊢
    cases hthrough with
    | inl machine => exact .next machine
    | @inr n _ machine =>
      obtain ⟨rfl, hn⟩ := machine
      have hleave : Beside q x (n.leaveScopesTo (m.leaveDepth scopes))
          (leaveScopesTo (n.beside x) (m.leaveDepth scopes)) := leaveScopes_beside hn _
      obtain ⟨hsame, hleft⟩ := hleave
      dsimp only
      rw [hsame]
      exact .next ⟨rfl, { hleft with }⟩

/-- What was put off goes on among the handlers around the one whose block has ended. -/
theorem endFinally_beside (h : m.Within q) :
    Effect.Beside q x (endFinally s m) (endFinally s (m.beside x)) := by
  unfold endFinally
  rw [beside_handlers]
  split
  · exact .failed h.beside trivial
  · next d rest hd =>
    have hwithin : d.Within q := h.handlers d (hd ▸ List.mem_cons_self ..)
    have hm : Within q { m with handlers := rest } :=
      h.with_handlers fun e he => h.handlers e (hd ▸ List.mem_cons_of_mem _ he)
    dsimp only
    split
    · exact .failed hm.beside trivial
    · next v hphase => exact giveBack_beside hm (hwithin v hphase)
    · exact leaveTo_beside hm _ _
    · exact .next hm.beside

theorem ret_beside (h : m.Within q) :
    Effect.Beside q x (m.pop s fun v m => m.giveBack v) ((m.beside x).pop s fun v m => m.giveBack v) := by
  cases hst : m.stack with
  | nil =>
    rw [pop_of_nil hst, pop_of_nil (m := m.beside x) hst]
    exact .failed h.beside trivial
  | cons v stack =>
    obtain ⟨hv, hstack⟩ := List.forall_mem_cons.mp (hst ▸ h.stack)
    rw [pop_of_cons hst, pop_of_cons (m := m.beside x) hst]
    exact giveBack_beside (m := { m with stack := stack }) { h with stack := hstack } hv

theorem stamp_beside (h : m.Within q) (id : Nat) :
    Beside q x (stamp s m id) (stamp s (m.beside x) id) := by
  -- A place and a trace are no values, so what the exceptions carry stays as it is.
  have hpayload (e : Exception) : (stamped s m e).payload = e.payload := by
    unfold stamped
    dsimp only
    split <;> rfl
  have hexceptions :
      ∀ e ∈ m.world.store.exceptions.modify id (stamped s m), e.payload.Within q := by
    refine forall_mem_modify (f := stamped s m) h.world.exceptions id fun e he => ?_
    rw [hpayload]
    exact he
  unfold stamp
  dsimp only
  rw [beside_world, World.beside_exception]
  split
  · exact h.beside
  · exact ⟨rfl, h.with_world { h.world with exceptions := hexceptions }⟩

/-- An exception that is offered to handlers goes to one of them or comes out. -/
theorem throwException_beside (h : m.Within q) (id boundary : Nat) :
    Thrown.Beside q x (throwException s m id boundary)
      (throwException s (m.beside x) id boundary) := by
  obtain ⟨hstamp, hstamped⟩ := @stamp_beside q s x m h id
  unfold throwException
  rw [hstamp]
  exact throwTo_beside hstamped id boundary h.handlers

theorem exceptionOf_beside (h : m.Within q) {f : Failure} (hf : f.Within q) :
    (m.exceptionOf f = none ∧ (m.beside x).exceptionOf f = none) ∨
      ∃ id n, m.exceptionOf f = some (id, n) ∧
        (m.beside x).exceptionOf f = some (id, n.beside x) ∧ n.Within q := by
  cases f with
  | raise cause payload =>
    let e : Exception := { kind := cause.kind, message := cause.message, payload := payload }
    have hnew : World.Within q { m.world with store := (m.world.store.newException e).2 } :=
      Store.Holds.newException h.world hf
    exact .inr ⟨_, _, rfl, rfl, h.with_world hnew⟩
  | rethrow id => exact .inr ⟨_, _, rfl, rfl, h⟩
  | _ => exact .inl ⟨rfl, rfl⟩

theorem offer_beside (h : m.Within q) {f : Failure} (hf : f.Within q) (boundary : Nat) :
    Sum.LiftRel (Beside q x) (EscapeBeside q x) (m.offer s f boundary)
      ((m.beside x).offer s f boundary) := by
  unfold offer
  obtain ⟨heq, heq'⟩ | ⟨id, n, heq, heq', hn⟩ := @exceptionOf_beside q x m h f hf
  · rw [heq, heq']
    exact .inr ⟨h.beside, hf⟩
  · rw [heq, heq']
    dsimp only
    have hthrown := @throwException_beside q s x n hn id boundary
    generalize throwException s n id boundary = t, throwException s (n.beside x) id boundary = t'
      at hthrown ⊢
    cases hthrown with
    | handled machine =>
      obtain ⟨rfl, hm⟩ := machine
      exact .inl ⟨rfl, { hm with }⟩
    | escaped machine => exact .inr ⟨machine, trivial⟩

theorem fail_beside (inside : Bool) {f : Failure} {loops : List Loop} (h : m.Within q)
    (hl : ∀ l ∈ loops, l.Within q) (hf : f.Within q) :
    Status.Beside q x (fail s inside f m loops) (fail s inside f (m.beside x) loops) := by
  -- Outwards from loop to loop, each with what the one inside it could not handle.
  induction loops generalizing inside f m with
  | nil =>
    have hoffer := @offer_beside q s x m h f hf 0
    unfold fail
    generalize m.offer s f 0 = r, (m.beside x).offer s f 0 = r' at hoffer ⊢
    cases hoffer with
    | inl machine =>
      obtain ⟨rfl, hn⟩ := machine
      exact .running ⟨rfl, hn.with_loops hl⟩
    | inr escape =>
      obtain @⟨g, n, _, ⟨rfl, hn⟩, hg⟩ := escape
      refine .ended ⟨rfl, hn.with_loops hl⟩ ?_
      cases g with
      | halt v => exact hg
      | _ => exact trivial
  | cons l loops ih =>
    have hrest : ∀ k ∈ loops, k.Within q := fun k hk => hl k (List.mem_cons_of_mem _ hk)
    -- A failure of the loop itself is offered to no handler inside.
    have hoffer : Sum.LiftRel (Beside q x) (EscapeBeside q x)
        (if inside then m.offer s f l.boundary else .inr (f, m))
        (if inside then (m.beside x).offer s f l.boundary else .inr (f, m.beside x)) := by
      cases inside with
      | true => exact offer_beside h hf l.boundary
      | false => exact .inr ⟨h.beside, hf⟩
    unfold fail
    generalize (if inside then m.offer s f l.boundary else .inr (f, m)) = r,
      (if inside then (m.beside x).offer s f l.boundary else .inr (f, m.beside x)) = r'
      at hoffer ⊢
    cases hoffer with
    | inl machine =>
      obtain ⟨rfl, hn⟩ := machine
      exact .running ⟨rfl, hn.with_loops hl⟩
    | inr escape =>
      obtain @⟨g, n, _, ⟨rfl, hn⟩, hg⟩ := escape
      exact ih (!l.nested) (m := { n with ip := l.ip, pc := l.pc }) { hn with } hrest
        (hg.named l.name)

theorem deliver_beside (h : m.Within q) {v : Value} (hv : v.Within q) :
    Status.Beside q x (m.deliver v) ((m.beside x).deliver v) := by
  unfold deliver
  rw [beside_loops]
  split
  · exact .ended h.beside hv
  · next l loops hl =>
    rw [beside_world, Loop.absorb_beside]
    refine .running ⟨rfl, { h with loops := fun k hk => ?_ }⟩
    rcases List.mem_cons.mp hk with rfl | hk
    · exact Loop.Within.absorb (h.loops l (hl ▸ List.mem_cons_self ..)) _ hv
    · exact h.loops k (hl ▸ List.mem_cons_of_mem _ hk)

theorem settle_beside {e e' : Effect} (h : e.Beside q x e') :
    Status.Beside q x (settle s e) (settle s e') := by
  cases h with
  | next machine => exact .running machine
  | returned machine value =>
    obtain ⟨rfl, hm⟩ := machine
    exact deliver_beside hm value
  | failed machine failure =>
    obtain ⟨rfl, hm⟩ := machine
    exact fail_beside true hm hm.loops failure

end Unwinding

/-! Calls. Only a standard function can reach what outlives a run. -/

section Calls

theorem callBuiltin_beside (host : ∀ f ∈ s.host, f.Within q) (h : m.Within q) {b : Builtin}
    (inside : (Value.builtin b).reachesOut = false) {args : List Value}
    (ha : ∀ v ∈ args, v.Within q) :
    Reply.BesideValue q x (callBuiltin s m b args) (callBuiltin s (m.beside x) b args) := by
  unfold callBuiltin
  split
  · exact World.standard_beside h.world _ inside ha
  · split
    · next f hf =>
      have hf : f.Within q := host f (List.mem_of_find?_eq_some hf)
      -- The two views differ in their handles only, which the function does not look at.
      let view : HostView := ⟨s.program, m.world.store, m.depths⟩
      have hcall : f.call ⟨s.program, (m.beside x).world.store, (m.beside x).depths⟩ args =
          f.call view args := hf.blind view args x.handles h.world ha
      rw [hcall]
      exact HostReply.carryOut_beside h.world (hf.answer view args h.world ha)
    · exact World.give_beside h.world trivial

theorem answer_beside (h : m.Within q) (name : Text) {r r' : Reply Value}
    (hr : Reply.BesideValue q x r r') :
    Native.Beside q x (m.answer name r) ((m.beside x).answer name r') := by
  cases hr with
  | give hw hv => exact .answered ⟨rfl, h.with_world hw⟩ hv
  | fault hw hf => exact .failed ⟨rfl, h.with_world hw⟩ (hf.named name)

theorem callMethod_beside (h : m.Within q) (nested : Bool) (im : Intrinsic) {receiver : Value}
    (hr : receiver.Within q) {args : List Value} (ha : ∀ v ∈ args, v.Within q) :
    Native.Beside q x (callMethod s m nested im receiver args)
      (callMethod s (m.beside x) nested im receiver args) := by
  have helems := elements_hold (fun id => Store.Holds.array h.world id) receiver
  unfold callMethod
  rw [beside_world]
  simp only [World.beside_array]
  split
  · next gathered callee rest heq =>
    obtain ⟨hg, hc, hrest⟩ := loopOf?_holds trivial helems ha heq
    exact .loops h.beside ⟨hc, hrest, hg⟩
  · exact .failed h.beside trivial
  · exact answer_beside h _ (World.method_beside h.world im hr ha)

/-- The receiver of a method is bound to it, or is the first argument of the call. -/
theorem receiver_of_target {callee receiver : Value} {args args' : List Value} {im : Intrinsic}
    (hc : callee.Within q) (ha : ∀ v ∈ args, v.Within q)
    (h : Target.of callee args = .method im receiver args') : receiver.Within q := by
  unfold Target.of at h
  split at h <;> cases h
  · exact hc
  · exact ha _ (List.mem_cons_self ..)

theorem self_of_target {callee : Value} {args : List Value} {c : Closure} {self : Option Value}
    (hc : callee.Within q) (h : Target.of callee args = .function c self) :
    ∀ v ∈ self, v.Within q := by
  unfold Target.of at h
  split at h <;> cases h
  · exact fun v hv => by cases hv
  · intro v hv
    cases hv
    exact hc

theorem builtin_of_target {callee : Value} {args : List Value} {b : Builtin}
    (h : Target.of callee args = .builtin b) : callee = .builtin b := by
  unfold Target.of at h
  split at h <;> cases h
  rfl

theorem callNative_beside (host : ∀ f ∈ s.host, f.Within q) (h : m.Within q) (nested : Bool)
    {callee : Value} (hc : callee.Within q) (inside : callee.reachesOut = false)
    {args : List Value} (ha : ∀ v ∈ args, v.Within q) :
    Native.Beside q x (callNative s m nested callee args)
      (callNative s (m.beside x) nested callee args) := by
  unfold callNative
  split
  · next b htarget =>
    rw [builtin_of_target htarget] at inside
    exact answer_beside h _ (callBuiltin_beside host h inside ha)
  · next htarget =>
    exact callMethod_beside h nested _ (receiver_of_target hc ha htarget) fun v hv =>
      ha v (args_of_target htarget v hv)
  · exact .answered h.beside trivial

theorem enterFrame_beside (h : m.Within q) (c : Closure) {self : Option Value}
    (hself : ∀ v ∈ self, v.Within q) {args : List Value} (ha : ∀ v ∈ args, v.Within q)
    (callback : Bool) :
    Beside q x (m.enterFrame c self args callback)
      ((m.beside x).enterFrame c self args callback) := by
  have hbound : Bound (Value.Within q)
      ((self.toList.map fun v => (Text.ofString "self", v)) ++ c.params.zip args) := by
    intro e he
    rcases List.mem_append.mp he with he | he
    · obtain ⟨v, hv, rfl⟩ := List.mem_map.mp he
      exact hself v (Option.mem_toList.mp hv)
    · exact ha e.2 (List.of_mem_zip he).2
  have hm := h.with_scopes ((h.world.scopes.push (some c.scope)).bindings hbound
    m.world.store.scopes.cells.size)
  exact ⟨rfl, { hm with }⟩

theorem startLoop_beside (h : m.Within q) {l : Loop} (hl : l.Within q) :
    Beside q x (m.startLoop l) ((m.beside x).startLoop l) := by
  refine ⟨rfl, { h with loops := fun k hk => ?_ }⟩
  rcases List.mem_cons.mp hk with rfl | hk
  · exact hl
  · exact h.loops k hk

theorem carryOut_beside (host : ∀ f ∈ s.host, f.Within q) (h : m.Within q) {callee : Value}
    (hc : callee.Within q) (inside : callee.reachesOut = false) {args : List Value}
    (ha : ∀ v ∈ args, v.Within q) :
    Effect.Beside q x (carryOut s m callee args) (carryOut s (m.beside x) callee args) := by
  unfold carryOut
  split
  · next c self htarget =>
    exact .next (enterFrame_beside h c (self_of_target hc htarget) ha false)
  · have hnative := @callNative_beside q s x m host h false callee hc inside args ha
    generalize callNative s m false callee args = r,
      callNative s (m.beside x) false callee args = r' at hnative ⊢
    cases hnative with
    | answered machine value =>
      obtain ⟨rfl, hn⟩ := machine
      exact .next ⟨rfl, hn.push value⟩
    | failed machine failure => exact .failed machine failure
    | loops machine loop =>
      obtain ⟨rfl, hn⟩ := machine
      exact .next (startLoop_beside hn loop)

end Calls

/-! Instructions. -/

section Instructions

theorem text_beside (h : m.Within q) {v : Value} (hv : v.Within q) :
    (m.beside x).world.text v = m.world.text v := World.beside_text h.world hv

theorem assign_beside (h : m.Within q) (name : Text) {v : Value} (hv : v.Within q) :
    Effect.Beside q x (m.assign name v) ((m.beside x).assign name v) := by
  have hassign : (m.beside x).world.store.scopes.assign? name v (m.beside x).scope =
      m.world.store.scopes.assign? name v m.scope := rfl
  unfold assign
  rw [hassign]
  split
  · next scopes hs => exact .next ⟨rfl, h.with_scopes (h.world.scopes.assign? hv hs)⟩
  · exact .failed h.beside trivial

theorem tableFunction_beside (h : m.Within q) (name : Text) :
    Reply.BesideValue q x (m.tableFunction s name) ((m.beside x).tableFunction s name) := by
  have hc : Reply.Beside q x (fun _ => True)
      (m.world.functionClosure s.program (m.place s) name) _ :=
    World.functionClosure_beside h.world name
  unfold tableFunction
  rw [beside_place, beside_world]
  generalize m.world.functionClosure s.program (m.place s) name = r,
    (m.world.beside x).functionClosure s.program (m.place s) name = r' at hc ⊢
  cases hc with
  | give hw _ => exact World.give_beside hw trivial
  | fault hw hf => exact .fault hw hf

theorem outsideFunction_beside (h : m.Within q) {name : Text}
    (taken : ∀ b, s.builtin? name = some b → q b) :
    Reply.BesideValue q x (m.outsideFunction s name) ((m.beside x).outsideFunction s name) := by
  unfold outsideFunction
  split
  · next b hb => exact World.give_beside h.world (taken b hb)
  · exact World.fail_beside h.world _

theorem lookup?_within (h : m.Within q) {name : Text} {v : Value}
    (hv : m.lookup? name = some v) : v.Within q := h.world.scopes.lookup hv

theorem outside?_of_hidden {o : Operand} {b : Builtin}
    (table : ¬s.program.functions.contains o.name = true) (hb : s.builtin? o.name = some b) :
    b ∈ s.outside? o .loadVar ∧ b ∈ s.outside? o .call := by
  simp [Setup.outside?, table, hb]

theorem valueOfName_beside (h : m.Within q) {o : Operand}
    (taken : ∀ b ∈ s.outside? o .loadVar, q b) :
    Reply.BesideValue q x (m.valueOfName s o.name) ((m.beside x).valueOfName s o.name) := by
  unfold valueOfName
  rw [beside_lookup?]
  split
  · next v hv => exact World.give_beside h.world (lookup?_within h hv)
  · split
    · exact tableFunction_beside h o.name
    · next table =>
      exact outsideFunction_beside h fun b hb => taken b (outside?_of_hidden table hb).1

theorem calleeOfName_beside (h : m.Within q) {o : Operand}
    (taken : ∀ b ∈ s.outside? o .call, q b) :
    Reply.BesideValue q x (m.calleeOfName s o.name) ((m.beside x).calleeOfName s o.name) := by
  unfold calleeOfName
  rw [beside_lookup?]
  split
  · exact tableFunction_beside h o.name
  · next table =>
    split
    · next v hv => exact World.give_beside h.world (lookup?_within h hv)
    · exact outsideFunction_beside h fun b hb => taken b (outside?_of_hidden table hb).2

/-- A program asks for the same beside other remains. -/
theorem ask_beside (h : m.Within q) {o : Operand} {op : Opcode}
    (taken : ∀ b ∈ s.outside? o op, q b) {k : Query} (asks : op.Asks s o (Value.Within q) k) :
    Reply.BesideValue q x (m.ask s k) ((m.beside x).ask s k) := by
  cases asks with
  | loadVar => exact valueOfName_beside h taken
  | call => exact calleeOfName_beside h taken
  | callMethod has => exact World.loadMember_beside h.world has o.name
  | loadMember has => exact World.loadMember_beside h.world has o.name
  | @loadStatic t _ => exact World.typeMember_beside h.world t o.member
  | @indexGet _ idx hobj _ => exact World.indexGet_beside h.world hobj idx
  | sliceGet _ => exact World.sliceGet_beside h.world _ _ _
  | makeArray has => exact World.newArray_beside h.world has
  | @makeDict vs has =>
    have hdict : (Dict.ofPairs (pairs vs)).Holds (Value.Within q) :=
      .ofPairs fun e he => ⟨has _ (mem_of_mem_pairs he).1, has _ (mem_of_mem_pairs he).2⟩
    exact .give (Store.Holds.newDict h.world hdict) trivial
  | add =>
    refine World.newArray_beside h.world fun v hv => ?_
    rcases List.mem_append.mp hv with hv | hv
    · exact Store.Holds.array h.world _ v hv
    · exact Store.Holds.array h.world _ v hv
  | pushClosure _ => exact .give (World.newRef_within h.world) trivial
  | newObject _ => exact .give (Store.Holds.newObject h.world (s.program.classRef o.name)) trivial

theorem tell_beside (h : m.Within q) {o : Operand} {op : Opcode} {u : Update}
    (tells : op.Tells s o (Value.Within q) u) :
    Reply.BesideUnit q x (m.tell s u) ((m.beside x).tell s u) := by
  cases tells with
  | indexSet hidx hv => exact World.indexSet_beside h.world _ hidx hv
  | storeMember hv => exact World.storeMember_beside h.world _ o.name hv
  | @storeStatic t _ hv => exact World.storeMember_beside h.world (.type t) o.member hv

theorem print_beside (h : m.Within q) {v : Value} (hv : v.Within q) :
    Effect.Beside q x (m.print v) ((m.beside x).print v) := by
  have houtput : (m.beside x).world.output = m.world.output := rfl
  unfold print
  rw [houtput, text_beside h hv]
  split
  · exact .next ⟨rfl, h.with_world { h.world with }⟩
  · exact .failed h.beside trivial

theorem thrown_beside (h : m.Within q) {v : Value} (hv : v.Within q) :
    (m.beside x).thrown v = m.thrown v ∧ (m.thrown v).Within q := by
  unfold thrown
  split
  · exact ⟨rfl, trivial⟩
  · rw [text_beside h hv]
    exact ⟨rfl, hv⟩

theorem calleeOf?_within (h : m.Within q) {o : Operand} {op : Opcode}
    (taken : ∀ b ∈ s.outside? o op, q b) : ∀ c ∈ m.calleeOf? s o op, c.Within q := by
  intro c hc
  cases op
  case call => exact (@calleeOfName_beside q s m.world.remains m h o taken).given hc
  case callIndirect => exact h.stack c (List.mem_of_getElem? hc)
  case callMethod =>
    obtain ⟨receiver, hget, hmember⟩ := Option.bind_eq_some_iff.mp hc
    have hreceiver : receiver.Within q := h.stack receiver (List.mem_of_getElem? hget)
    have hreply : Reply.BesideValue q m.world.remains
        (m.world.loadMember s.program (m.place s) receiver o.name) _ :=
      World.loadMember_beside h.world hreceiver o.name
    exact hreply.given hmember
  all_goals cases hc

/-- To do the same beside other remains is kept by all instructions but the transfers, as long as they
call nothing that reaches the remains. -/
def Accord.beside (x : Remains) (host : ∀ f ∈ s.host, f.Within q) {o : Operand} {op : Opcode}
    (taken : ∀ b ∈ s.outside? o op, q b) : Accord s o op Unit where
  After _ H n ns := n.Within q ∧ ns = (fun _ => n.beside x) ∧ H = Value.Within q
  Called c := c.reachesOut = false
  Ends _ _ e es := e.Beside q x (es ())
  stack := by
    rintro j H n _ ⟨-, rfl, -⟩ -
    rfl
  truthy := by
    rintro j H n _ ⟨-, rfl, -⟩ - v
    exact World.beside_truthy _ _ _
  text := by
    rintro j H n _ v ⟨hn, rfl, rfl⟩ hv -
    exact text_beside hn hv
  refusal := by
    rintro j H n _ ⟨-, rfl, -⟩ - callee argc
    rfl
  held h := h.2.2 ▸ h.1.stack
  data h hv := h.2.2 ▸ hv.within
  type h _ := h.2.2 ▸ trivial
  drop := by
    rintro j H n _ k ⟨hn, rfl, hH⟩
    exact ⟨hn.with_stack fun _ => List.mem_of_mem_drop, rfl, hH⟩
  next := by
    rintro j H n _ vs ⟨hn, rfl, rfl⟩ hvs
    exact .next ⟨rfl, { hn with stack := List.forall_mem_append.mpr ⟨hvs, hn.stack⟩ }⟩
  fault := by
    rintro j k p H n _ c ⟨hn, rfl, -⟩ - -
    exact .failed hn.beside trivial
  raise := by
    rintro j k p H n _ c ⟨hn, rfl, -⟩ -
    exact .failed hn.beside trivial
  thrown := by
    rintro j p H n _ v - ⟨hn, rfl, rfl⟩ hv
    obtain ⟨heq, hthrown⟩ := @thrown_beside q x n hn v hv
    dsimp only
    rw [heq]
    exact .failed hn.beside hthrown
  halt := by
    rintro j p H n _ - ⟨hn, rfl, -⟩
    exact .failed hn.beside trivial
  jump := by
    rintro j H n _ - ⟨hn, rfl, -⟩
    exact .next ⟨rfl, { hn with }⟩
  declare := by
    rintro j H n _ v - ⟨hn, rfl, rfl⟩ hv
    exact .next ⟨rfl, hn.with_scopes (hn.world.scopes.declare o.name hv n.scope)⟩
  assign := by
    rintro j H n _ v - ⟨hn, rfl, rfl⟩ hv
    exact assign_beside hn o.name hv
  print := by
    rintro j H n _ v - ⟨hn, rfl, rfl⟩ hv
    exact print_beside hn hv
  ask := by
    rintro j k p H n _ query K ⟨hn, rfl, rfl⟩ asks - hK
    have hreply := @ask_beside q s x n hn o op taken query asks
    dsimp only
    generalize hr : n.ask s query = r, (n.beside x).ask s query = r' at hreply ⊢
    cases hreply with
    | give hw hv =>
      exact hK _ _ (fun _ => _) _ hr hv ⟨hn.with_world hw, rfl, rfl⟩
    | fault hw hf => exact .failed ⟨rfl, hn.with_world hw⟩ hf
  tell := by
    rintro j H n _ u ⟨hn, rfl, rfl⟩ tells
    have hreply := @tell_beside q s x n hn o op u tells
    dsimp only
    generalize n.tell s u = r, (n.beside x).tell s u = r' at hreply ⊢
    cases hreply with
    | give hw _ => exact .next ⟨rfl, hn.with_world hw⟩
    | fault hw hf => exact .failed ⟨rfl, hn.with_world hw⟩ hf
  carryOut := by
    rintro j H n _ callee args - ⟨hn, rfl, rfl⟩ hc inside ha -
    exact carryOut_beside host hn hc inside ha

/-- An instruction does the same beside other remains, unless it calls what reaches them. -/
theorem perform_beside (host : ∀ f ∈ s.host, f.Within q) (h : m.Within q) {o : Operand}
    {op : Opcode} (taken : ∀ b ∈ s.outside? o op, q b)
    (inside : ∀ c ∈ m.calleeOf? s o op, c.reachesOut = false) :
    Effect.Beside q x (m.perform s o op) ((m.beside x).perform s o op) := by
  cases transfers : op.transfers with
  | false =>
    have hstart : (Accord.beside x host taken).After 0 (Value.Within q) m fun _ => m.beside x :=
      ⟨h, rfl, rfl⟩
    exact (Accord.beside x host taken).perform hstart transfers inside
  | true =>
    cases op
    case pushScope =>
      have hm := h.with_scopes (h.world.scopes.push (some m.scope))
      exact .next ⟨rfl, { hm with }⟩
    case popScope =>
      dsimp only [perform, popScope]
      rw [beside_scopeDepth, beside_scopeFloor]
      split
      · exact .failed h.beside trivial
      · exact .next ⟨rfl, { h with }⟩
    case leave => exact leaveTo_beside h _ _
    case ret => exact ret_beside h
    case tryPush =>
      refine .next ⟨rfl, { h with handlers := fun d hd => ?_ }⟩
      rcases List.mem_cons.mp hd with rfl | hd
      · intro v hv
        cases hv
      · exact h.handlers d hd
    case tryPop =>
      dsimp only [perform, popHandler]
      rw [beside_handlers]
      split
      · exact .failed h.beside trivial
      · next d rest hd =>
        exact .next ⟨rfl, h.with_handlers fun e he => h.handlers e (hd ▸ List.mem_cons_of_mem _ he)⟩
    case endFinally => exact endFinally_beside h
    all_goals cases transfers

end Instructions

/-! Steps. -/

section Steps

/-- The value that the next step calls: that of a call instruction, or of a native loop. -/
def callee? (s : Setup) (m : Machine) : Option Value :=
  match m.control with
  | .fetch =>
    match s.program.instruction? m.ip, m.tick.stopBefore? with
    | some ins, none => (Opcode.ofCode? ins.op).bind ((m.begun s ins).calleeOf? s ins.operand)
    | _, _ => none
  | .iterate =>
    match m.loops with
    | l :: _ => if l.rest.isEmpty then none else some l.callee
    | [] => none

theorem tick_beside (h : m.Within q) : Beside q x m.tick (m.beside x).tick :=
  ⟨rfl, { h with world := { h.world with } }⟩

theorem begun_beside (h : m.Within q) (ins : Instruction) :
    Beside q x (m.begun s ins) ((m.beside x).begun s ins) := by
  obtain ⟨htick, hwithin⟩ := @tick_beside q x m h
  have hmark : Beside q x m.tick.markFinalizing (m.beside x).tick.markFinalizing := by
    rw [htick]
    unfold markFinalizing
    rw [beside_handlers]
    split
    · exact hwithin.beside
    · next d rest hd =>
      rw [beside_ip, beside_frames]
      split
      · refine ⟨rfl, hwithin.with_handlers fun e he => ?_⟩
        rcases List.mem_cons.mp he with rfl | he
        · intro v hv
          cases hv
        · exact hwithin.handlers e (hd ▸ List.mem_cons_of_mem _ he)
      · exact hwithin.beside
  obtain ⟨hsame, hm⟩ := hmark
  unfold begun traced
  rw [hsame]
  split
  · exact ⟨rfl, { hm with world := { hm.world with } }⟩
  · exact ⟨rfl, { hm with }⟩

/-- Whatever a step calls is within what the program takes from outside. -/
theorem callee?_within (taken : s.Takes q) (h : m.Within q) : ∀ c ∈ m.callee? s, c.Within q := by
  intro c hcallee
  unfold callee? at hcallee
  split at hcallee
  · split at hcallee
    · next ins has _ =>
      obtain ⟨op, hop, hc⟩ := Option.bind_eq_some_iff.mp hcallee
      obtain ⟨-, hbegun⟩ := @begun_beside q s m.world.remains m h ins
      exact calleeOf?_within hbegun (taken.of_instruction has hop) c hc
    · cases hcallee
  · split at hcallee
    · next l loops hloops =>
      split at hcallee
      · cases hcallee
      obtain rfl : l.callee = c := Option.some.inj hcallee
      exact (h.loops l (hloops ▸ List.mem_cons_self ..)).callee
    · cases hcallee

theorem fetch_beside (host : ∀ f ∈ s.host, f.Within q) (taken : s.Takes q) (h : m.Within q)
    (hc : m.control = .fetch) (inside : ∀ c ∈ m.callee? s, c.reachesOut = false) :
    Status.Beside q x (m.fetch s) ((m.beside x).fetch s) := by
  cases has : s.program.instruction? m.ip with
  | none =>
    unfold fetch
    rw [beside_ip, has, beside_frames]
    dsimp only
    split
    · exact deliver_beside h trivial
    · exact fail_beside true (m := { m with pc := m.ip }) { h with } h.loops trivial
  | some ins =>
    obtain ⟨htick, hticked⟩ := @tick_beside q x m h
    have hstop : (m.beside x).tick.stopBefore? = m.tick.stopBefore? := rfl
    cases hgo : m.tick.stopBefore? with
    | some reason =>
      unfold fetch
      rw [beside_ip, has]
      dsimp only
      rw [hstop, hgo, htick]
      exact fail_beside true hticked h.loops trivial
    | none =>
      rw [fetch_eq_settle has hgo, fetch_eq_settle (m := m.beside x) has (hstop.trans hgo)]
      obtain ⟨hsame, hbegun⟩ := @begun_beside q s x m h ins
      rw [hsame]
      refine settle_beside ?_
      unfold step
      split
      · next op hop =>
        refine perform_beside host hbegun (taken.of_instruction has hop)
          fun c hcallee => inside c ?_
        rw [callee?, hc, has, hgo]
        dsimp only
        rw [hop]
        exact hcallee
      · exact .failed hbegun.beside trivial

theorem callBack_beside (host : ∀ f ∈ s.host, f.Within q) (h : m.Within q) {callee : Value}
    (hc : callee.Within q) (inside : callee.reachesOut = false) {args : List Value}
    (ha : ∀ v ∈ args, v.Within q) :
    Status.Beside q x (m.callBack s callee args) ((m.beside x).callBack s callee args) := by
  unfold callBack
  rw [beside_loops, beside_tooDeep?]
  split
  · exact fail_beside false h h.loops trivial
  · split
    · next c self htarget =>
      split
      · exact fail_beside false h h.loops trivial
      · obtain ⟨heq, hentered⟩ :=
          @enterFrame_beside q x m h c self (self_of_target hc htarget) args ha true
        rw [heq]
        exact .running ⟨rfl, { hentered with }⟩
    · have hnative := @callNative_beside q s x m host h true callee hc inside args ha
      generalize callNative s m true callee args = r,
        callNative s (m.beside x) true callee args = r' at hnative ⊢
      cases hnative with
      | answered machine value =>
        obtain ⟨rfl, hn⟩ := machine
        exact deliver_beside hn value
      | failed machine failure =>
        obtain ⟨rfl, hn⟩ := machine
        exact fail_beside false hn hn.loops failure
      | loops machine loop =>
        obtain ⟨rfl, hn⟩ := machine
        exact .running (startLoop_beside hn loop)

theorem endLoop_beside (h : m.Within q) {l : Loop} (hl : l.Within q) {loops : List Loop}
    (hloops : ∀ k ∈ loops, k.Within q) :
    Status.Beside q x (m.endLoop l loops) ((m.beside x).endLoop l loops) := by
  obtain ⟨heq, hworld, hv⟩ := @Loop.result_beside q l x m.world h.world hl
  have hm : Within q { m with world := (l.result m.world).2, loops := loops } :=
    (h.with_loops hloops).with_world hworld
  have hpush := hm.push hv
  unfold endLoop
  rw [beside_world, heq]
  dsimp only
  split
  · exact deliver_beside hm hv
  · exact .running ⟨rfl, { hpush with }⟩

theorem iterate_beside (host : ∀ f ∈ s.host, f.Within q) (h : m.Within q)
    (hc : m.control = .iterate) (inside : ∀ c ∈ m.callee? s, c.reachesOut = false) :
    Status.Beside q x (m.iterate s) ((m.beside x).iterate s) := by
  unfold iterate
  rw [beside_loops]
  cases hloops : m.loops with
  | nil => exact .running ⟨rfl, { h with loops := by simp }⟩
  | cons l loops =>
    have hl : l.Within q := h.loops l (hloops ▸ List.mem_cons_self ..)
    have houter : ∀ k ∈ loops, k.Within q := fun k hk =>
      h.loops k (hloops ▸ List.mem_cons_of_mem _ hk)
    dsimp only
    cases hrest : l.rest with
    | nil => exact endLoop_beside h hl houter
    | cons e rest =>
      have he : e.Within q := hl.rest e (hrest ▸ List.mem_cons_self ..)
      have hlater : ∀ v ∈ rest, v.Within q := fun v hv =>
        hl.rest v (hrest ▸ List.mem_cons_of_mem _ hv)
      obtain ⟨htaken, hargs⟩ := hl.take he hlater
      -- The loop that calls back has lost an element, but calls what it called before.
      let l' : Loop := { (l.take e rest).1 with boundary := m.frames.length + 1 }
      have hl' : l'.Within q := { htaken with }
      have hm : Within q { m with loops := l' :: loops } := by
        refine h.with_loops fun k hk => ?_
        rcases List.mem_cons.mp hk with rfl | hk
        · exact hl'
        · exact houter k hk
      have hsame : (l.take e rest).1.callee = l.callee := by rw [Loop.take_with_gathered]
      have hcallee : l'.callee = l.callee := hsame
      have hinside : l'.callee.reachesOut = false := by
        refine inside _ ?_
        rw [callee?, hc, hloops, hcallee]
        simp [hrest]
      exact callBack_beside host hm hl'.callee hinside hargs

/-- A step is the same beside other remains, unless it calls what reaches them. -/
theorem advance_beside (host : ∀ f ∈ s.host, f.Within q) (taken : s.Takes q) (h : m.Within q)
    (inside : ∀ c ∈ m.callee? s, c.reachesOut = false) :
    Status.Beside q x (m.advance s) ((m.beside x).advance s) := by
  unfold advance
  rw [beside_control]
  split
  · next hc => exact fetch_beside host taken h hc inside
  · next hc => exact iterate_beside host h hc inside

end Steps

end Machine

end BytecodeMachine
