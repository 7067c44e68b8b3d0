import BytecodeMachine.Machine.Run
import Mathlib.Tactic.Common

/-! How values are taken off the stack, and how calls take theirs. A call is refused before anything is
taken; one that is not refused takes its arguments, where they are all there, and is carried out. -/
namespace BytecodeMachine.Machine

variable {s : Setup} {m : Machine}

theorem pop_of_nil (h : m.stack = []) (K : Value → Machine → Effect) :
    m.pop s K = m.underflow s := by
  unfold pop
  rw [h]

theorem pop_of_cons {v : Value} {stack : List Value} (h : m.stack = v :: stack)
    (K : Value → Machine → Effect) : m.pop s K = K v { m with stack := stack } := by
  unfold pop
  rw [h]

theorem popMany_eq_of_le {n : Int} (hn : 0 ≤ n) (hle : n ≤ (m.stack.length : Int))
    (K : List Value → Machine → Effect) : m.popMany s n K =
      K (m.stack.take n.toNat).reverse { m with stack := m.stack.drop n.toNat } := by
  refine if_neg ?_
  simp only [Bool.or_eq_true, decide_eq_true_eq, not_or, Int.not_lt]
  exact ⟨hn, hle⟩

theorem popMany_of_lt {n : Int} (hlt : (m.stack.length : Int) < n)
    (K : List Value → Machine → Effect) : m.popMany s n K = m.underflow s := by
  refine if_pos ?_
  simp only [Bool.or_eq_true, decide_eq_true_eq]
  exact .inr hlt

theorem mem_of_mem_truncated {stack : List Value} {height : Nat} {v : Value}
    (h : v ∈ truncated stack height) : v ∈ stack := List.mem_of_mem_drop h

theorem tooDeep?_eq_none (h : m.tooDeep? s = none) :
    m.frames.length < s.maxCallDepth := by
  unfold tooDeep? at h
  split at h
  · cases h
  · omega

/-- The arguments of a target come from the callee and the arguments of the call. -/
theorem args_of_target {callee receiver : Value} {args args' : List Value} {im : Intrinsic}
    (h : Target.of callee args = .method im receiver args') : ∀ v ∈ args', v ∈ args := by
  unfold Target.of at h
  split at h <;> cases h
  · exact fun v hv => hv
  · exact fun v hv => List.mem_cons_of_mem _ hv

/-- Why a call is refused. A refused call leaves its arguments on the stack. -/
def callRefusal? (s : Setup) (m : Machine) (callee : Value) (argc : Int) : Option ErrorCause :=
  match s.refusal? callee argc with
  | some e => some e
  | none =>
    match callee with
    | .closure _ | .boundMethod _ _ _ => m.tooDeep? s
    | .intrinsic im =>
      match m.stack[(argc - 1).toNat]? with
      | some receiver => if receiver.kind = im.kind then none else some (.receiver im receiver.kind)
      | none => none
    | _ => none

/-- How many values a call takes off the stack. -/
def callTakes (s : Setup) (m : Machine) (callee : Value) (argc extra : Int) : Nat :=
  if (callRefusal? s m callee argc).isSome then 0 else argc.toNat + extra.toNat

/-- The effect of a native call on behalf of an instruction. -/
def Native.effect : Native → Effect
  | .answered (.ok v) m => .next (m.push v)
  | .answered (.error f) m => .failed f m
  | .loops l m => .next (m.startLoop l)

/-- Carries out a call whose arguments are off the stack. -/
def carryOut (s : Setup) (m : Machine) (callee : Value) (args : List Value) : Effect :=
  match Target.of callee args with
  | .function c self => .next (m.enterFrame c self args false)
  | _ => (callNative s m false callee args).effect

theorem peek_of_get {depth : Int} {v : Value} (h : m.stack[depth.toNat]? = some v)
    (inside : 0 ≤ depth) (K : Value → Effect) : m.peek s depth K = K v := by
  unfold peek
  rw [if_neg (by omega), h]

theorem peek_of_none {depth : Int} (h : m.stack[depth.toNat]? = none) (K : Value → Effect) :
    m.peek s depth K = m.underflow s := by
  have hnone : (if depth < 0 then none else m.stack[depth.toNat]?) = none := by
    rw [h, ite_self]
  unfold peek
  rw [hnone]

/-- A method that is not bound takes its receiver as an argument. -/
theorem one_le_of_refusal?_intrinsic {im : Intrinsic} {argc : Int}
    (h : s.refusal? (.intrinsic im) argc = none) : 1 ≤ argc := by
  have haccepts : im.unboundArity.accepts argc = true := by
    by_contra hno
    simp [Setup.refusal?, Setup.arity?, hno] at h
  have hleast : ((im.info.arity.least + 1 : Nat) : Int) ≤ argc := by
    unfold Arity.accepts at haccepts
    rw [Bool.and_eq_true, decide_eq_true_eq] at haccepts
    exact haccepts.1
  omega

/-- Both kinds of calls refuse the same: those of functions that are too deep, and what a loop refuses
of itself. -/
theorem callRefusal?_pushed (m : Machine) (callee : Value) (args : List Value) :
    callRefusal? s { m with stack := args.reverse ++ m.stack } callee args.length =
      match callbackRefusal? s callee args with
      | some e => some e
      | none =>
        match Target.of callee args with
        | .function _ _ => m.tooDeep? s
        | _ => none := by
  unfold callRefusal? callbackRefusal?
  cases hr : s.refusal? callee args.length with
  | some e => rfl
  | none =>
    cases callee
    case intrinsic im =>
      cases args with
      | nil =>
        have hone := one_le_of_refusal?_intrinsic hr
        exact absurd hone (by simp)
      | cons receiver args =>
        have hget : ((receiver :: args).reverse ++ m.stack)[
            (((receiver :: args).length : Int) - 1).toNat]? = some receiver := by
          simp
        dsimp only
        rw [hget]
        dsimp only
        split <;> rfl
    all_goals rfl

theorem call_of_refused {callee : Value} {argc extra : Int} {e : ErrorCause}
    (h : callRefusal? s m callee argc = some e) :
    m.call s callee argc extra = .failed (.of e) m := by
  unfold callRefusal? at h
  unfold call
  cases hr : s.refusal? callee argc with
  | some e' =>
    rw [hr] at h
    cases h
    rfl
  | none =>
    rw [hr] at h
    cases callee <;> try contradiction
    case closure c =>
      simp only [checkReceiver, acceptCall]
      rw [show m.tooDeep? s = some e from h]
    case boundMethod ref c receiver =>
      simp only [checkReceiver, acceptCall]
      rw [show m.tooDeep? s = some e from h]
    case intrinsic im =>
      have hone := one_le_of_refusal?_intrinsic hr
      cases hg : m.stack[(argc - 1).toNat]? with
      | none =>
        simp only [hg] at h
        cases h
      | some receiver =>
        simp only [hg] at h
        simp only [checkReceiver]
        rw [peek_of_get hg (by omega)]
        by_cases hk : receiver.kind = im.kind
        · rw [if_pos hk] at h
          cases h
        · rw [if_neg hk] at h ⊢
          cases h
          rfl

theorem carryOut_eq_effect {callee : Value} {args : List Value}
    (h : ∀ c self, Target.of callee args ≠ .function c self) :
    carryOut s m callee args = (callNative s m false callee args).effect := by
  unfold carryOut
  split
  · next heq => exact absurd heq (h _ _)
  · rfl

/-- A call that is not refused takes its arguments, where they are all on the stack. -/
theorem call_of_accepted {callee : Value} {argc extra : Int}
    (h : callRefusal? s m callee argc = none) :
    m.call s callee argc extra =
      m.popCall s argc extra fun args n => carryOut s n callee args := by
  unfold callRefusal? at h
  unfold call
  cases hr : s.refusal? callee argc with
  | some e' =>
    rw [hr] at h
    cases h
  | none =>
    rw [hr] at h
    cases callee
    case closure c =>
      simp only [checkReceiver, acceptCall]
      rw [show m.tooDeep? s = none from h]
      rfl
    case boundMethod ref c receiver =>
      simp only [checkReceiver, acceptCall]
      rw [show m.tooDeep? s = none from h]
      rfl
    case intrinsic im =>
      have hone := one_le_of_refusal?_intrinsic hr
      have hfun (args : List Value) (c : Closure) (self : Option Value) :
          Target.of (.intrinsic im) args ≠ .function c self := by
        cases args <;> simp [Target.of]
      simp only [checkReceiver]
      cases hg : m.stack[(argc - 1).toNat]? with
      | none =>
        have hfew : (decide (argc < 0) || decide ((m.stack.length : Int) < argc)) = true := by
          have := List.getElem?_eq_none_iff.mp hg
          simp
          omega
        rw [peek_of_none hg, popCall, popMany, if_pos hfew]
      | some receiver =>
        simp only [hg] at h
        rw [peek_of_get hg (by omega)]
        by_cases hk : receiver.kind = im.kind
        · rw [if_pos hk]
          refine congrArg (m.popCall s argc extra) (funext fun args => funext fun n => ?_)
          rw [carryOut_eq_effect (hfun args)]
          rfl
        · rw [if_neg hk] at h
          cases h
    all_goals rfl

/-- Only functions of the program have to fit among the frames. -/
theorem room_of_accepted {callee : Value} {argc : Int} (h : callRefusal? s m callee argc = none)
    {args : List Value} {c : Closure} {self : Option Value}
    (ht : Target.of callee args = .function c self) : m.frames.length < s.maxCallDepth := by
  unfold callRefusal? at h
  split at h
  · cases h
  · cases callee with
    | closure => exact tooDeep?_eq_none h
    | boundMethod => exact tooDeep?_eq_none h
    | intrinsic => cases args <;> cases ht
    | _ => cases ht

end BytecodeMachine.Machine
