import BytecodeMachine.Machine.Value

/-!
Scopes: every one holds its own bindings and knows the scope around it. Functions share the scopes
they close over, so scopes live in a store and refer to each other by number.
-/
namespace BytecodeMachine

/-- A list of bindings with a value put in under a name. -/
def bind {α : Type} (name : Text) (a : α) : List (Text × α) → List (Text × α)
  | [] => [(name, a)]
  | e :: es => if e.1 = name then (name, a) :: es else e :: bind name a es

structure Scope where
  vars : List (Text × Value) := []
  parent : Option Nat := none
deriving DecidableEq, Inhabited

/-- All scopes ever entered; a scope is made after the one around it. -/
structure Scopes where
  cells : Array Scope := #[]
deriving Inhabited

namespace Scopes

def parent? (s : Scopes) (id : Nat) : Option Nat := (s.cells[id]?).bind (·.parent)

/-- A new scope inside another one. -/
def push (s : Scopes) (parent : Option Nat) : Nat × Scopes :=
  (s.cells.size, ⟨s.cells.push { parent := parent }⟩)

/-- Goes outwards from a scope to the first one that binds a name. `n` bounds the way, which is no
longer than the number of scopes. -/
def resolveFrom (s : Scopes) (name : Text) : (n : Nat) → (id : Nat) → Option Nat
  | 0, _ => none
  | n + 1, id =>
    match s.cells[id]? with
    | none => none
    | some c =>
      if (c.vars.lookup name).isSome then some id
      else match c.parent with
        | some p => s.resolveFrom name n p
        | none => none

/-- The nearest scope that binds a name. -/
def resolve (s : Scopes) (name : Text) (id : Nat) : Option Nat :=
  s.resolveFrom name s.cells.size id

def lookup (s : Scopes) (name : Text) (id : Nat) : Option Value :=
  match s.resolve name id with
  | some owner => (s.cells[owner]?).bind fun c => c.vars.lookup name
  | none => none

/-- Binds a name in this very scope. -/
def declare (s : Scopes) (name : Text) (v : Value) (id : Nat) : Scopes :=
  ⟨s.cells.modify id fun c => { c with vars := bind name v c.vars }⟩

/-- Changes the nearest binding of a name, none where there is none. -/
def assign? (s : Scopes) (name : Text) (v : Value) (id : Nat) : Option Scopes :=
  (s.resolve name id).map (s.declare name v)

end Scopes

end BytecodeMachine
