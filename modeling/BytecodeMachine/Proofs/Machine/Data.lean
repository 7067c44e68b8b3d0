import BytecodeMachine.Machine.Run
import Mathlib.Tactic.Common

/-! What native code computes from numbers and text: the result refers to nothing. -/
namespace BytecodeMachine

/-- A result of which a predicate holds, where it is one. -/
def Yields {ε α : Type} (Q : α → Prop) (r : Except ε α) : Prop := ∀ a, r = .ok a → Q a

namespace Yields

variable {ε α : Type} {Q : α → Prop}

theorem ok {a : α} (h : Q a) : Yields Q (.ok a : Except ε α) := by
  intro b hb
  cases hb
  exact h

theorem error (e : ε) : Yields Q (.error e : Except ε α) := by
  intro a ha
  cases ha

theorem map {β : Type} {f : β → α} {r : Except ε β} (hf : ∀ b, Q (f b)) : Yields Q (r.map f) := by
  cases r with
  | ok b => exact ok (hf b)
  | error e => exact error e

theorem bind {β : Type} {f : β → Except ε α} {r : Except ε β} (hf : ∀ b, Yields Q (f b)) :
    Yields Q (r.bind f) := by
  cases r with
  | ok b => exact hf b
  | error e => exact error e

theorem mono {Q' : α → Prop} {r : Except ε α} (h : Yields Q r) (hQ : ∀ a, Q a → Q' a) :
    Yields Q' r := fun a ha => hQ a (h a ha)

end Yields

namespace Value

/-- A number, a text, a truth value or null. -/
inductive Data : Value → Prop
  | null : Data .null
  | bool (b : Bool) : Data (.bool b)
  | int (n : Int64) : Data (.int n)
  | int32 (n : Int32) : Data (.int32 n)
  | float32 (x : Binary32) : Data (.float32 x)
  | float (x : Binary64) : Data (.float x)
  | decimal (d : Decimal) : Data (.decimal d)
  | string (s : Text) : Data (.string s)
  | char (c : Int32) : Data (.char c)

theorem arith_data (op : ArithOp) (a b : Value) : Yields Data (a.arith op b) := by
  unfold arith
  split
  · unfold Numeric.arith
    split
    · exact .map .int32
    · exact .map .int
    · exact .ok (.float32 _)
    · exact .ok (.float _)
    · exact .map .decimal
  · exact .error _

theorem negate_data (a : Value) : Yields Data a.negate := by
  unfold negate
  split
  · next x _ =>
    refine .ok ?_
    cases x <;> constructor
  · exact .error _

end Value

theorem World.stringResult_data (s : Text) (m : Intrinsic) (args : List Value) :
    Yields Value.Data (stringResult s m args) := by
  unfold stringResult
  split
  case h_8 =>
    split
    · exact .error _
    · exact .map fun _ => .string _
  case h_10 =>
    split
    · exact .error _
    · split
      · exact .error _
      · split
        · exact .ok (.string _)
        · exact .error _
  case h_11 => exact .bind fun _ => .map .string
  case h_12 => exact .bind fun _ => .bind fun _ => .map .string
  all_goals first | exact .ok (by constructor) | exact .map fun _ => by constructor

/-- All kinds of literals give a value at once, but for decimals, which have to be read. -/
theorem Machine.literal_data (l : Option Literal) : Yields Value.Data (literal l) := by
  unfold literal
  split
  · exact .error _
  · split
    case h_7 =>
      split
      · exact .ok (.decimal _)
      · exact .error _
    all_goals first | exact .ok (by constructor) | exact .error _

theorem elementAt_mem {α : Type} {xs : List α} {i : Int} {a : α} (h : elementAt xs i = .ok a) :
    a ∈ xs := by
  unfold elementAt at h
  split at h
  · next x hx =>
    cases h
    split at hx
    · cases hx
    · exact List.mem_of_getElem? hx
  · cases h

theorem mem_of_mem_slice {α : Type} {xs : List α} {lo hi : Nat} {a : α} (h : a ∈ slice xs lo hi) :
    a ∈ xs := List.mem_of_mem_drop (List.mem_of_mem_take h)

/-- The methods found for a kind are those of the kind. -/
theorem Intrinsic.kind_of_find? {kind : Kind} {name : Text} {m : Intrinsic}
    (h : Intrinsic.find? kind name = some m) : m.kind = kind := by
  have hm := List.find?_some h
  rw [Bool.and_eq_true, decide_eq_true_eq] at hm
  exact hm.1

end BytecodeMachine
