import BytecodeMachine.Machine.Call
import BytecodeMachine.Proofs.Machine.Contents
import BytecodeMachine.Proofs.Program.Tables

/-! Values that refer to the tables of a program: closures to its functions, class references to its
classes, type references to what their names stand for. A world is linked where all of its values
are, and native code that is given linked values answers with linked ones. -/
namespace BytecodeMachine

/-- A class that a member is found in is in the table, and declares the member itself. -/
theorem Program.findMember?_eq {p : Program} {key name owner : Text} {member : Member}
    (h : p.findMember? key name = some (owner, member)) :
    ∃ c, p.classes.get? owner = some c ∧ Program.declared? c name = some member := by
  unfold Program.findMember? at h
  generalize p.classes.size = n at h
  -- The walk goes on at the base of a class that does not declare the name.
  induction n generalizing key with
  | zero => cases h
  | succ n ih =>
    rw [Program.findMemberFrom] at h
    split at h
    · cases h
    · next c hc =>
      split at h
      · next hm =>
        cases h
        exact ⟨c, hc, hm⟩
      · split at h
        · cases h
        · exact ih h

/-- A closure of a function in the table. -/
def Closure.Linked (p : Program) (c : Closure) : Prop :=
  ∃ key fn, p.functions.get? key = some fn ∧ c.name = fn.name ∧ c.entry = fn.address.toInt ∧
    c.params = fn.params

/-- A reference to a class in the table. -/
def ClassRef.Linked (p : Program) (c : ClassRef) : Prop :=
  ∃ info, p.classes.get? c.key = some info ∧ c.name = info.name

/-- A value whose functions, classes and types are those of a program, and whose objects are among the
first `objects` ones. A bound method of a built-in value has a receiver of its kind. -/
def Value.Linked (p : Program) (objects : Nat) : Value → Prop
  | .closure c => c.Linked p
  | .boundMethod _ c receiver => c.Linked p ∧ receiver.Linked p objects
  | .boundIntrinsic _ m receiver => receiver.kind = m.kind ∧ receiver.Linked p objects
  | .type t => p.resolveType? t.name = some t
  | .cls c => c.Linked p
  | .object id | .static id => id < objects
  | _ => True

theorem Value.Linked.mono {p : Program} {n n' : Nat} (hn : n ≤ n') {v : Value}
    (h : v.Linked p n) : v.Linked p n' := by
  induction v with
  | boundIntrinsic _ _ _ ih => exact ⟨h.1, ih h.2⟩
  | boundMethod _ _ _ ih => exact ⟨h.1, ih h.2⟩
  | object id => exact Nat.lt_of_lt_of_le h hn
  | static id => exact Nat.lt_of_lt_of_le h hn
  | _ => exact h

/-- A value that refers to no table, to no object and to no function. -/
def Value.Plain : Value → Prop
  | .closure _ | .boundMethod _ _ _ | .boundIntrinsic _ _ _ | .type _ | .cls _ | .object _
  | .static _ => False
  | _ => True

theorem Value.Plain.linked {p : Program} {n : Nat} {v : Value} (h : v.Plain) : v.Linked p n := by
  cases v <;> first | exact trivial | exact h.elim

/-- A store whose values are linked, and whose objects belong to classes in the table. -/
structure Store.Linked (p : Program) (st : Store) : Prop where
  values : st.Holds (Value.Linked p st.objects.size)
  classes : ∀ o ∈ st.objects, o.cls.Linked p

theorem Store.object_mem {st : Store} {id : Nat} (h : id < st.objects.size) :
    st.object id ∈ st.objects := by
  unfold Store.object
  rw [Array.getElem?_eq_getElem h]
  exact Array.getElem_mem h

/-- How many objects there are. -/
abbrev World.objects (w : World) : Nat := w.store.objects.size

structure World.Linked (p : Program) (w : World) : Prop where
  store : w.store.Linked p
  closures : ∀ e ∈ w.closures, e.2.Linked p
  statics : ∀ e ∈ w.statics, e.2 < w.objects

/-- The parts of a world that values are kept in. -/
def World.values (w : World) : Array (List Value) × Array Dict × Array Object × Array Exception ×
    Scopes × List (Text × Closure) × List (Text × Nat) :=
  (w.store.arrays, w.store.dicts, w.store.objects, w.store.exceptions, w.store.scopes, w.closures,
    w.statics)

/-- A failure that carries linked values, and of whose faults a predicate holds. -/
def Failure.Linked (p : Program) (F : Fault → Prop) (objects : Nat) : Failure → Prop
  | .raise _ v | .halt v => v.Linked p objects
  | .fault f => F f
  | _ => True

/-- An answer that leaves the world linked: objects only get more, what is given satisfies a
predicate, and failures are linked. -/
structure Reply.Linked {α : Type} (p : Program) (F : Fault → Prop) (Q : Nat → α → Prop) (w : World)
    (r : Reply α) : Prop where
  world : r.2.Linked p
  grown : w.objects ≤ r.2.objects
  given : ∀ a, r.1 = .ok a → Q r.2.objects a
  failed : ∀ f, r.1 = .error f → f.Linked p F r.2.objects

variable {p : Program} {F : Fault → Prop}

theorem Failure.Linked.named {n : Nat} {f : Failure} (h : f.Linked p F n) (name : Text) :
    (f.named name).Linked p F n := by
  cases f with
  | output _ => exact trivial
  | host _ => exact trivial
  | _ => exact h

/-- A failure that carries such a value, if any. -/
def Failure.Holds (H : Value → Prop) : Failure → Prop
  | .raise _ v | .halt v => H v
  | _ => True

/-- An error of the host becomes an exception, which carries null. -/
theorem Failure.Holds.named {H : Value → Prop} (null : H .null) {f : Failure} (h : f.Holds H)
    (name : Text) : (f.named name).Holds H := by
  cases f with
  | output _ => exact null
  | host _ => exact null
  | _ => exact h

theorem Failure.Holds.linked {n : Nat} {f : Failure} (h : f.Holds (Value.Linked p n)) :
    f.Linked p (fun _ => True) n := by
  cases f with
  | raise _ _ | halt _ => exact h
  | _ => exact trivial

namespace Reply.Linked

variable {α : Type} {Q : Nat → α → Prop} {w w' : World}

theorem give (hw : w'.Linked p) (grown : w.objects ≤ w'.objects) {a : α} (ha : Q w'.objects a) :
    Reply.Linked p F Q w (.ok a, w') where
  world := hw
  grown := grown
  given b hb := by
    cases hb
    exact ha
  failed f hf := by cases hf

theorem fault (hw : w'.Linked p) (grown : w.objects ≤ w'.objects) {f : Failure}
    (hf : f.Linked p F w'.objects) : Reply.Linked p F Q w (.error f, w') where
  world := hw
  grown := grown
  given a ha := by cases ha
  failed g hg := by
    cases hg
    exact hf

end Reply.Linked

/-- An answer with a linked value. -/
abbrev Reply.LinkedValue (p : Program) (F : Fault → Prop) (w : World) (r : Reply Value) : Prop :=
  Reply.Linked p F (Value.Linked p) w r

/-! The store of a host's view is linked; so are the values it is called with. -/

namespace Deferred

/-- What a deferred is settled with, at once or later. -/
def answer? : Deferred → Option (Except Failure Value)
  | pending => none
  | settled r | upcoming _ r => some r

end Deferred

namespace HostReply

/-- The answer of a host function that is no new array. -/
def answer? : HostReply → Option (Except Failure Value)
  | value v => some (.ok v)
  | failure f => some (.error f)
  | wait (some d) => d.answer?
  | newArray _ | cancel | wait none => none

/-- A host's answer that is made of values of which a predicate holds. -/
structure Holds (H : Value → Prop) (r : HostReply) : Prop where
  value : ∀ v, r.answer? = some (.ok v) → H v
  failure : ∀ f, r.answer? = some (.error f) → f.Holds H
  elems : ∀ vs, r = .newArray vs → ∀ v ∈ vs, H v

/-- A host's answer that is made of linked values. Its faults are its own. -/
structure Linked (p : Program) (objects : Nat) (r : HostReply) : Prop where
  value : ∀ v, r.answer? = some (.ok v) → v.Linked p objects
  failure : ∀ f, r.answer? = some (.error f) → f.Linked p (fun _ => True) objects
  elems : ∀ vs, r = .newArray vs → ∀ v ∈ vs, v.Linked p objects

end HostReply

/-- A host function that answers with linked values where it is given such values. It does not make
up functions, classes or objects that the program does not have. -/
def HostFunction.Linked (p : Program) (f : HostFunction) : Prop :=
  ∀ view args, view.program = p → view.store.Linked p →
    (∀ v ∈ args, v.Linked p view.store.objects.size) →
    (f.call view args).Linked p view.store.objects.size

/-- A host function that hands on values which it is given or finds in the store, and makes up plain
ones only. -/
def HostFunction.HandsOn (f : HostFunction) : Prop :=
  ∀ (H : Value → Prop) view args, (∀ v, v.Plain → H v) → view.store.Holds H →
    (∀ v ∈ args, H v) → (f.call view args).Holds H

theorem HostFunction.HandsOn.linked {f : HostFunction} (h : f.HandsOn) : f.Linked p := by
  intro view args _ hstore ha
  obtain ⟨hvalue, hfailure, helems⟩ := h _ view args (fun _ hv => hv.linked) hstore.values ha
  exact ⟨hvalue, fun x hx => (hfailure x hx).linked, helems⟩

/-- The faults that a host function answers with. -/
def HostFunction.Faults (h : HostFunction) (f : Fault) : Prop :=
  ∃ view args, (h.call view args).answer? = some (.error (.fault f))

end BytecodeMachine
