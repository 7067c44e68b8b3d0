import BytecodeMachine.Proofs.Machine.Calls
import Mathlib.Algebra.Group.Int.Defs
import Mathlib.Algebra.Group.Nat.Defs

/-! What a program gets from code outside of it. An instruction, a function or a method replies to
its operands: they are taken off the stack, and the answer is pushed or the error is raised. -/
namespace BytecodeMachine

/-- Whether an instruction takes these operands off a stack and goes on with the reply of the world,
whatever stands below them. -/
def Opcode.Replies (op : Opcode) (operands : List Value) (r : World → Reply Value) : Prop :=
  ∀ (s : Setup) (m : Machine) (o : Operand) (stack : List Value),
    m.stack = operands.reverse ++ stack →
      m.perform s o op = { m with stack := stack }.pushReply (r m.world)

namespace Value

/-- Whether every instruction that calls this value with these arguments takes them off the stack,
and what it found the value by, and goes on with the reply of the world. -/
def Replies (callee : Value) (args : List Value) (r : World → Reply Value) : Prop :=
  ∀ (s : Setup) (m : Machine) (o : Operand) (op : Opcode) (w : World) (below stack : List Value),
    op.extra? = some below.length → m.Calls s o op callee w → o.int.toInt = args.length →
    m.stack = args.reverse ++ (below ++ stack) →
      m.perform s o op = { m with world := w, stack := stack }.pushReply (r w)

/-- Whether this value has a method of a name that, called with these arguments, goes on with the
reply of the world in which it has been bound. -/
def Offers (receiver : Value) (name : Text) (args : List Value) (r : World → Reply Value) : Prop :=
  ∀ (s : Setup) (m : Machine) (o : Operand) (stack : List Value),
    o.name = name → o.int.toInt = args.length → m.stack = args.reverse ++ receiver :: stack →
      m.perform s o .callMethod =
        { m with world := m.world.newRef.2, stack := stack }.pushReply (r m.world.newRef.2)

end Value

variable {s : Setup} {m : Machine} {callee receiver : Value} {args below stack : List Value}
  {r : World → Reply Value}

/-! Native calls. -/

namespace Machine

theorem pushReply_lift (result : Except ErrorCause Value) :
    m.pushReply (m.world.lift result) = m.pushResult result := by
  cases result <;> rfl

theorem pushReply_lift_inj {a b : Except ErrorCause Value}
    (h : m.pushReply (m.world.lift a) = m.pushReply (m.world.lift b)) : a = b := by
  cases a <;> cases b <;> cases h <;> rfl

/-- A failure that is an exception or ends the run is not named again on its way out. -/
theorem answer_effect {name : Text} {reply : Reply Value} (tame : reply.Tame) :
    (m.answer name reply).effect = m.pushReply reply := by
  obtain ⟨result, w⟩ := reply
  cases result with
  | ok v => rfl
  | error f =>
    have hnamed : f.named name = f := by
      rcases tame f rfl with hexception | hfinal
      · exact Failure.named_of_isException hexception name
      · exact Failure.named_of_isFinal hfinal name
    change Effect.failed (f.named name) _ = Effect.failed f _
    rw [hnamed]

/-- A native call that is not refused takes its arguments and the values below them that belong to
it. -/
theorem call_of_native (accepted : callRefusal? s m callee args.length = none)
    (native : ∀ c self, Target.of callee args ≠ .function c self)
    (hs : m.stack = args.reverse ++ (below ++ stack)) :
    m.call s callee args.length below.length =
      (callNative s { m with stack := stack } false callee args).effect := by
  have hthere : args.length + below.length ≤ m.stack.length := by
    rw [hs, List.length_append, List.length_reverse, List.length_append]
    omega
  have hargs : (m.stack.take args.length).reverse = args := by
    rw [hs, List.take_left' List.length_reverse, List.reverse_reverse]
  have hrest : m.stack.drop (args.length + below.length) = stack := by
    rw [hs, ← List.drop_drop, List.drop_left' List.length_reverse, List.drop_left]
  rw [call_of_accepted accepted, popCall_of_le hthere, hargs, hrest, carryOut_eq_effect native]

end Machine

theorem Setup.refusal?_of_accepts {a : Arity} (h : s.arity? callee = some a)
    (accepts : a.accepts args.length = true) : s.refusal? callee args.length = none := by
  rw [refusal?_of_some h, if_pos accepts]

/-! Functions. -/

/-- A call of a value that an instruction has found. -/
theorem Machine.Calls.perform_eq {o : Operand} {op : Opcode} {w : World}
    (calls : m.Calls s o op callee w) (extra : op.extra? = some below.length)
    (counted : o.int.toInt = args.length) :
    m.perform s o op = { m with world := w }.call s callee args.length below.length := by
  have hbelow {n : Nat} (h : op.extra? = some n) : n = below.length :=
    Option.some.inj (h.symm.trans extra)
  cases calls with
  | name found =>
    rw [Machine.perform, found, ← counted, ← hbelow rfl]
    rfl
  | indirect there =>
    rw [Machine.perform, Machine.peek_of_get there (by omega), ← counted, ← hbelow rfl]
    rfl
  | member there found =>
    rw [Machine.perform, Machine.peek_of_get there (by omega), found, ← counted, ← hbelow rfl]
    rfl

/-- A standard function replies to as many arguments as it takes. -/
theorem StandardFunction.replies (f : StandardFunction)
    (accepts : f.arity.accepts args.length = true) (hr : ∀ w n, World.standard w n f args = r w)
    (tame : ∀ w, (r w).Tame) : (Value.builtin (.standard f)).Replies args r := by
  intro s m o op w below stack extra calls counted hs
  have haccepted : Machine.callRefusal? s { m with world := w } (.builtin (.standard f))
      args.length = none := by
    unfold Machine.callRefusal?
    rw [Setup.refusal?_of_accepts (a := f.arity) rfl accepts]
  have htarget : ∀ c self, Target.of (.builtin (.standard f)) args ≠ .function c self :=
    fun c self h => by cases h
  rw [calls.perform_eq extra counted, Machine.call_of_native haccepted htarget hs]
  have hnative {n : Machine} : Machine.callNative s n false (.builtin (.standard f)) args =
      n.answer f.name (r n.world) := by
    rw [← hr n.world s.bufferSize]
    rfl
  rw [hnative]
  exact Machine.answer_effect (tame w)

/-- A value gives one answer to the same arguments in a world. -/
theorem Value.Replies.unique {a b : World → Except ErrorCause Value} (short : args.length < 2 ^ 63)
    (ha : callee.Replies args fun w => w.lift (a w))
    (hb : callee.Replies args fun w => w.lift (b w)) (w : World) : a w = b w := by
  -- It is called from a stack that holds nothing else.
  let s : Setup := { program := {}, regionEnds := #[] }
  let m : Machine := { world := w, stack := args.reverse ++ [callee] }
  let o : Operand := { int := Int64.ofNat args.length }
  have hcount : o.int.toInt = args.length := Int64.toInt_ofNat_of_lt short
  have hcalls : m.Calls s o .callIndirect callee w := by
    refine .indirect ?_
    rw [hcount, Int.toNat_natCast, ← List.length_reverse]
    exact List.getElem?_concat_length
  have ha := ha s m o .callIndirect w [callee] [] rfl hcalls hcount rfl
  have hb := hb s m o .callIndirect w [callee] [] rfl hcalls hcount rfl
  exact Machine.pushReply_lift_inj (ha.symm.trans hb)

/-! Methods. -/

/-- Methods are told apart by their names and the kinds of their receivers. -/
theorem Intrinsic.find?_name (im : Intrinsic) : Intrinsic.find? im.kind im.name = some im := by
  cases im <;> decide +kernel

/-- A method that does not call back replies to as many arguments as it takes, on a receiver that
has no members besides the methods of its kind. -/
theorem Intrinsic.offers (im : Intrinsic) (kind : receiver.kind = im.kind)
    (plain : im.kind = .array ∨ im.kind = .string)
    (accepts : im.info.arity.accepts args.length = true)
    (answers : ∀ elems, Machine.loopOf? elems im args = none)
    (hr : ∀ p here w, World.method p here w im receiver args = r w) (tame : ∀ w, (r w).Tame) :
    receiver.Offers im.name args r := by
  intro s m o stack hname counted hs
  have hload : m.world.loadMember s.program (m.place s) receiver o.name =
      m.world.bindIntrinsic im receiver := by
    have hfind := im.find?_name
    rw [← kind] at hfind plain
    rw [hname]
    cases receiver with
    | array id | string t =>
      rw [World.loadMember]
      · rw [hfind]
      all_goals exact fun _ => by simp
    | _ => simp [Value.kind] at plain
  have hthere : m.stack[o.int.toInt.toNat]? = some receiver := by
    rw [hs, counted, Int.toNat_natCast, ← List.length_reverse,
      List.getElem?_append_right (Nat.le_refl _), Nat.sub_self]
    rfl
  have hcalls : m.Calls s o .callMethod (.boundIntrinsic m.world.store.refs im receiver)
      m.world.newRef.2 := .member hthere hload
  have hperform : m.perform s o .callMethod = { m with world := m.world.newRef.2 }.call s
      (.boundIntrinsic m.world.store.refs im receiver) args.length [receiver].length :=
    hcalls.perform_eq rfl counted
  have haccepted : Machine.callRefusal? s { m with world := m.world.newRef.2 }
      (.boundIntrinsic m.world.store.refs im receiver) args.length = none := by
    unfold Machine.callRefusal?
    rw [Setup.refusal?_of_accepts (a := im.info.arity) rfl accepts]
  have htarget : ∀ c self,
      Target.of (.boundIntrinsic m.world.store.refs im receiver) args ≠ .function c self :=
    fun c self h => by cases h
  rw [hperform, Machine.call_of_native haccepted htarget hs]
  have hnative {n : Machine} :
      Machine.callNative s n false (.boundIntrinsic m.world.store.refs im receiver) args =
        n.answer im.name (r n.world) := by
    unfold Machine.callNative Machine.callMethod
    dsimp only [Target.of]
    rw [answers]
    dsimp only
    rw [hr]
  rw [hnative]
  exact Machine.answer_effect (tame _)

/-- The methods of strings, but for the one that makes an array. -/
theorem Intrinsic.string_offers {t : Text} {a : Except ErrorCause Value} (im : Intrinsic)
    (kind : im.kind = .string) (cuts : im ≠ .stringSplit)
    (accepts : im.info.arity.accepts args.length = true) (ha : World.stringResult t im args = a) :
    (Value.string t).Offers im.name args fun w => w.lift a := by
  subst ha
  refine im.offers kind.symm (.inr kind) accepts (fun _ => ?_) (fun _ _ w => ?_)
    fun w => w.lift_tame _
  · cases im <;> first | rfl | cases kind
  · change w.stringMethod im t args = _
    unfold World.stringMethod
    split
    · exact absurd rfl cuts
    · rfl

/-- A method gives one answer to the same arguments in a world. -/
theorem Value.Offers.unique {name : Text} {a b : World → Except ErrorCause Value}
    (short : args.length < 2 ^ 63) (ha : receiver.Offers name args fun w => w.lift (a w))
    (hb : receiver.Offers name args fun w => w.lift (b w)) (w : World) :
    a w.newRef.2 = b w.newRef.2 := by
  let s : Setup := { program := {}, regionEnds := #[] }
  let m : Machine := { world := w, stack := args.reverse ++ [receiver] }
  let o : Operand := { name := name, int := Int64.ofNat args.length }
  have hcount : o.int.toInt = args.length := Int64.toInt_ofNat_of_lt short
  have ha := ha s m o [] rfl hcount rfl
  have hb := hb s m o [] rfl hcount rfl
  exact Machine.pushReply_lift_inj (ha.symm.trans hb)

end BytecodeMachine
