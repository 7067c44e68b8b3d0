import BytecodeMachine.Proofs.Machine.Native
import Mathlib.Tactic.Common

/-! The changes that steps of a machine are made of. Each says what it needs: a frame is dropped only
where there is one, a handler only from the top of the stack. What holds after a step, of the frames,
the scopes or the handlers, follows from what each change keeps. -/
namespace BytecodeMachine

namespace Scopes

/-- The scope reached by going outwards a number of times, none where a scope has no parent. -/
def climb (s : Scopes) : Nat → Nat → Option Nat
  | 0, id => some id
  | n + 1, id => (s.parent? id).bind (s.climb n)

/-- Every parent that is known stays. -/
def Extends (s s' : Scopes) : Prop := ∀ id p, s.parent? id = some p → s'.parent? id = some p

theorem Extends.refl (s : Scopes) : s.Extends s := fun _ _ h => h

theorem Extends.trans {s s' s'' : Scopes} (h : s.Extends s') (h' : s'.Extends s'') :
    s.Extends s'' := fun id p hp => h' id p (h id p hp)

theorem Extends.of_eq {s s' : Scopes} (h : s' = s) : s.Extends s' := h ▸ Extends.refl s

theorem Extends.climb {s s' : Scopes} (h : s.Extends s') {n id b : Nat}
    (hc : s.climb n id = some b) : s'.climb n id = some b := by
  induction n generalizing id with
  | zero => exact hc
  | succ n ih =>
    obtain ⟨p, hp, hb⟩ := Option.bind_eq_some_iff.mp hc
    rw [Scopes.climb, h id p hp]
    exact ih hb

theorem parent?_push_fresh (s : Scopes) (parent : Option Nat) :
    (s.push parent).2.parent? s.cells.size = parent := by
  simp [push, parent?]

theorem extends_push (s : Scopes) (parent : Option Nat) : s.Extends (s.push parent).2 := by
  intro id p hp
  have hlt : id < s.cells.size := by
    by_contra hge
    simp [parent?, Array.getElem?_eq_none (Nat.le_of_not_lt hge)] at hp
  simpa [push, parent?, Array.getElem?_push_lt hlt, Array.getElem?_eq_getElem hlt] using hp

theorem parent?_declare (s : Scopes) (name : Text) (v : Value) (id i : Nat) :
    (s.declare name v id).parent? i = s.parent? i := by
  simp only [declare, parent?, Array.getElem?_modify]
  split
  · next h =>
    subst h
    cases s.cells[id]? <;> rfl
  · rfl

theorem extends_declare (s : Scopes) (name : Text) (v : Value) (id : Nat) :
    s.Extends (s.declare name v id) := fun i p hp => by rwa [parent?_declare]

theorem extends_assign {s s' : Scopes} {name : Text} {v : Value} {id : Nat}
    (h : s.assign? name v id = some s') : s.Extends s' := by
  obtain ⟨owner, _, rfl⟩ := Option.map_eq_some_iff.mp h
  exact extends_declare s name v owner

/-- The names bound on the way into a frame do not move its scope. -/
theorem extends_bindings (bound : List (Text × Value)) (id : Nat) (s : Scopes) :
    s.Extends (bound.foldl (fun scopes e => scopes.declare e.1 e.2 id) s) := by
  induction bound generalizing s with
  | nil => exact Extends.refl s
  | cons e es ih => exact (extends_declare s e.1 e.2 id).trans (ih _)

end Scopes

namespace Machine

abbrev scopes (m : Machine) : Scopes := m.world.store.scopes

/-- A change that leaves the frames, the handlers and the place among the scopes alone. -/
structure Quiet (m m' : Machine) : Prop where
  frames : m'.frames = m.frames
  handlers : m'.handlers = m.handlers
  scope : m'.scope = m.scope
  scopeDepth : m'.scopeDepth = m.scopeDepth
  parents : m.scopes.Extends m'.scopes

theorem Quiet.refl (m : Machine) : Quiet m m := ⟨rfl, rfl, rfl, rfl, Scopes.Extends.refl _⟩

theorem Quiet.trans {m m' m'' : Machine} (h : Quiet m m') (h' : Quiet m' m'') : Quiet m m'' :=
  ⟨h'.frames.trans h.frames, h'.handlers.trans h.handlers, h'.scope.trans h.scope,
    h'.scopeDepth.trans h.scopeDepth, h.parents.trans h'.parents⟩

/-- A change of the stack, the loops, the next instruction and the counters. -/
theorem Quiet.of_eq {m m' : Machine} (hf : m'.frames = m.frames) (hh : m'.handlers = m.handlers)
    (hs : m'.scope = m.scope) (hd : m'.scopeDepth = m.scopeDepth) (hw : m'.scopes = m.scopes) :
    Quiet m m' := ⟨hf, hh, hs, hd, .of_eq hw⟩

/-- A change of the world by native code. -/
theorem Quiet.of_works {p : Program} {m : Machine} {w : World} (h : m.world.Works p true w) :
    Quiet m { m with world := w } := Quiet.of_eq rfl rfl rfl rfl h.scopes

end Machine

/-- Why handlers are unwound. -/
inductive Transfer where
  | throwing
  | returning
  | leaving
deriving DecidableEq

/-- The transfer that what is left to do after a finally block belongs to. -/
def Pending.transfer? : Pending → Option Transfer
  | .nothing => none
  | .exception _ => some .throwing
  | .giveBack _ => some .returning
  | .leave _ _ => some .leaving

/-- What is left to do after the finally block of a handler. -/
def Handler.pending (h : Handler) : Pending :=
  match h.phase with
  | .finalizing pending => pending
  | _ => .nothing

/-- What can happen to a handler. -/
inductive HandlerEvent where
  | pushed
  /-- Ordinary flow has come to its finally block. -/
  | arrived
  /-- It takes an exception into its catch block. -/
  | caught
  /-- A transfer is put off until its finally block is through. -/
  | entered (pending : Pending)
  /-- A transfer drops it, for it has nothing left to run. -/
  | spent (t : Transfer)
  /-- The instruction that closes a region drops it. -/
  | popped
  /-- The end of its finally block drops it, and what was put off goes on. -/
  | ended (pending : Pending)
deriving DecidableEq

/-- The transfer that makes an event happen. -/
def HandlerEvent.transfer? : HandlerEvent → Option Transfer
  | .caught => some .throwing
  | .entered pending => pending.transfer?
  | .spent t => some t
  | _ => none

/-- How an event changes the stack of handlers, and when it may happen. Events touch the top only. -/
inductive Shift : HandlerEvent → List Handler → List Handler → Prop
  | pushed {h : Handler} {rest : List Handler} (trying : h.phase = .trying) :
      Shift .pushed rest (h :: rest)
  | arrived {h : Handler} {rest : List Handler} (has : h.hasFinally = true)
      (fresh : h.isFinalizing = false) :
      Shift .arrived (h :: rest) ({ h with phase := .finalizing .nothing } :: rest)
  | caught {h : Handler} {rest : List Handler} (trying : h.phase = .trying)
      (has : h.hasCatch = true) :
      Shift .caught (h :: rest) ({ h with phase := .catching } :: rest)
  | entered {h : Handler} {rest : List Handler} (pending : Pending) (has : h.hasFinally = true)
      (fresh : h.isFinalizing = false) :
      Shift (.entered pending) (h :: rest) ({ h with phase := .finalizing pending } :: rest)
  | spent {h : Handler} {rest : List Handler} (t : Transfer)
      (through : h.hasFinally = true → h.isFinalizing = true) : Shift (.spent t) (h :: rest) rest
  | popped {h : Handler} {rest : List Handler} : Shift .popped (h :: rest) rest
  | ended {h : Handler} {rest : List Handler} : Shift (.ended h.pending) (h :: rest) rest

namespace Machine

variable (s : Setup)

/-- One change of a machine, with what happens to its handlers. -/
inductive Change : Machine → List HandlerEvent → Machine → Prop
  | quiet {m m' : Machine} (h : Quiet m m') : Change m [] m'
  | pushScope (m : Machine) : Change m [] m.pushScope
  | popScope {m : Machine} (inside : m.scopeFloor < m.scopeDepth) : Change m [] m.leaveScope
  /-- A scope that is younger than the top handler, which belongs to the current frame. -/
  | unwindScope {m : Machine} {h : Handler} {rest : List Handler} (top : m.handlers = h :: rest)
      (here : m.frames.length ≤ h.callDepth) (younger : h.scopeDepth < m.scopeDepth) :
      Change m [] m.leaveScope
  | popFrame {m : Machine} (has : m.frames ≠ [])
      (left : ∀ h ∈ m.handlers.head?, h.callDepth ≠ m.frames.length) : Change m [] m.popFrame
  | pushHandler (m : Machine) (catchAddr finallyAddr : Int) :
      Change m [.pushed] (m.pushHandler s catchAddr finallyAddr)
  | shift {m : Machine} {e : HandlerEvent} {handlers : List Handler}
      (h : Shift e m.handlers handlers) (old : e ≠ .pushed) :
      Change m [e] { m with handlers := handlers }

/-- Any number of changes, with what happens to the handlers in its order. -/
inductive Changes : Machine → List HandlerEvent → Machine → Prop
  | refl (m : Machine) : Changes m [] m
  | cons {m m' m'' : Machine} {log log' : List HandlerEvent} (h : Change s m log m')
      (rest : Changes m' log' m'') : Changes m (log ++ log') m''

variable {s}

theorem Changes.one {m m' : Machine} {log : List HandlerEvent} (h : Change s m log m') :
    Changes s m log m' := by
  have hr := Changes.cons h (Changes.refl m')
  rwa [List.append_nil] at hr

theorem Changes.quiet {m m' : Machine} (h : Quiet m m') : Changes s m [] m' :=
  Changes.one (Change.quiet h)

theorem Changes.trans {m m' m'' : Machine} {log log' : List HandlerEvent} (h : Changes s m log m')
    (h' : Changes s m' log' m'') : Changes s m (log ++ log') m'' := by
  induction h with
  | refl => exact h'
  | cons hc _ ih =>
    rw [List.append_assoc]
    exact Changes.cons hc (ih h')

theorem Changes.then_quiet {m m' m'' : Machine} {log : List HandlerEvent} (h : Changes s m log m')
    (h' : Quiet m' m'') : Changes s m log m'' := by
  have hr := h.trans (Changes.quiet (s := s) h')
  rwa [List.append_nil] at hr

theorem Changes.after_quiet {m m' m'' : Machine} {log : List HandlerEvent} (h : Quiet m m')
    (h' : Changes s m' log m'') : Changes s m log m'' := (Changes.quiet h).trans h'

end Machine

end BytecodeMachine
