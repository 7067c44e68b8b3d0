import BytecodeMachine.Proofs.Machine.Accord
import BytecodeMachine.Proofs.Machine.Pressure
import BytecodeMachine.Proofs.Machine.Uncatchable

/-! Runs under pressure go the way they would go without it, step by step, until one ends because it is
to stop. No handler is entered on the way that would not have been. -/
namespace BytecodeMachine

namespace Machine

/-- Where an exception goes in a run under pressure. -/
def Thrown.under (x : Pressure) : Thrown → Thrown
  | .handled m => .handled (m.under x)
  | .escaped m => .escaped (m.under x)

end Machine

/-- An effect on a run under pressure. -/
def Effect.under (x : Pressure) : Effect → Effect
  | .next m => .next (m.under x)
  | .returned v m => .returned v (m.under x)
  | .failed f m => .failed f (m.under x)

/-- A run under pressure. -/
def Status.under (x : Pressure) : Status → Status
  | .running m => .running (m.under x)
  | .ended e m => .ended e (m.under x)

/-- What is done under pressure: the same, or the run is to stop. -/
def Effect.Cut (x : Pressure) (e e' : Effect) : Prop :=
  e = e'.under x ∨ ∃ reason m, e = .failed (.stopped reason) m

/-- Where a step leads under pressure: to the same state, or to the end of a run that is to stop. -/
def Status.Cut (x : Pressure) (st st' : Status) : Prop :=
  st = st'.under x ∨ ∃ reason m, st = .ended (.stopped reason) m

/-- How a native call goes on under pressure: likewise, or the run is to stop. -/
def Machine.Native.Cut (x : Pressure) (r r' : Native) : Prop :=
  (match r' with
    | .answered v m => r = .answered v (m.under x)
    | .loops l m => r = .loops l (m.under x)) ∨
  ∃ reason m, r = .answered (.error (.stopped reason)) m

namespace Machine

variable {s : Setup} {x : Pressure}

section Unwinding

theorem popFrame_under (m : Machine) : (m.under x).popFrame = m.popFrame.under x := by
  unfold popFrame
  rw [under_frames]
  split <;> rfl

theorem popFrames_under (n : Nat) (m : Machine) :
    popFrames n (m.under x) = (popFrames n m).under x := by
  induction n generalizing m with
  | zero => rfl
  | succ n ih =>
    rw [popFrames, popFrame_under, ih]
    rfl

theorem leaveScopes_under (n : Nat) (m : Machine) :
    leaveScopes n (m.under x) = (leaveScopes n m).under x := by
  induction n generalizing m with
  | zero => rfl
  | succ n ih => exact ih m.leaveScope

theorem unwindTo_under (m : Machine) (h : Handler) :
    (m.under x).unwindTo h = (m.unwindTo h).under x := by
  unfold unwindTo leaveScopesTo
  rw [under_frames, popFrames_under]
  dsimp only
  rw [under_scopeDepth, leaveScopes_under]
  rfl

theorem enterFinally_under (m : Machine) (h : Handler) (rest : List Handler) (pending : Pending) :
    (m.under x).enterFinally h rest pending = (m.enterFinally h rest pending).under x := by
  unfold enterFinally
  rw [unwindTo_under]
  rfl

theorem enterCatch_under (m : Machine) (h : Handler) (rest : List Handler) (exc : Nat) :
    (m.under x).enterCatch h rest exc = (m.enterCatch h rest exc).under x := by
  unfold enterCatch
  rw [unwindTo_under]
  rfl

theorem throwTo_under (m : Machine) (exc boundary : Nat) (handlers : List Handler) :
    (m.under x).throwTo exc boundary handlers = (m.throwTo exc boundary handlers).under x := by
  have hescape (handlers : List Handler) (n : Nat) :
      popFrames n { m.under x with handlers := handlers } =
        (popFrames n { m with handlers := handlers }).under x :=
    popFrames_under n { m with handlers := handlers }
  induction handlers with
  | nil =>
    rw [throwTo, throwTo]
    exact congrArg Thrown.escaped (hescape [] _)
  | cons h rest ih =>
    rw [throwTo, throwTo]
    split
    · exact congrArg Thrown.escaped (hescape (h :: rest) _)
    · split
      · rw [enterCatch_under]
        rfl
      · split
        · rw [enterFinally_under]
          rfl
        · exact ih

theorem returnThrough_under (m : Machine) (v : Value) (handlers : List Handler) :
    (m.under x).returnThrough v handlers =
      (m.returnThrough v handlers).map (Machine.under x) (Machine.under x) := by
  induction handlers with
  | nil => rfl
  | cons h rest ih =>
    rw [returnThrough, returnThrough, under_frames]
    split
    · rfl
    · split
      · exact congrArg Sum.inl (enterFinally_under m h rest _)
      · exact ih

theorem giveBack_under (m : Machine) (v : Value) :
    (m.under x).giveBack v = (m.giveBack v).under x := by
  unfold giveBack
  rw [under_handlers, returnThrough_under]
  cases m.returnThrough v m.handlers with
  | inl n => rfl
  | inr n =>
    dsimp only [Sum.map_inr]
    rw [under_frames]
    split
    · rfl
    · rw [popFrame_under]
      split <;> rfl

theorem leaveThrough_under (m : Machine) (target dest : Int) (handlers : List Handler) :
    (m.under x).leaveThrough target dest handlers =
      (m.leaveThrough target dest handlers).map (Machine.under x) (Machine.under x) := by
  induction handlers with
  | nil => rfl
  | cons h rest ih =>
    rw [leaveThrough, leaveThrough, under_frames]
    split
    · split
      · exact congrArg Sum.inl (enterFinally_under m h rest _)
      · exact ih
    · rfl

theorem leaveTo_under (m : Machine) (target scopes : Int) :
    leaveTo s (m.under x) target scopes = (leaveTo s m target scopes).under x := by
  have hdepth : (m.under x).leaveDepth scopes = m.leaveDepth scopes := rfl
  unfold leaveTo
  rw [hdepth, under_scopeFloor, under_handlers]
  dsimp only
  rw [leaveThrough_under]
  split
  · rfl
  · cases m.leaveThrough target (m.leaveDepth scopes) m.handlers with
    | inl n => rfl
    | inr n =>
      have hleave : leaveScopesTo (n.under x) (m.leaveDepth scopes) =
          (n.leaveScopesTo (m.leaveDepth scopes)).under x := leaveScopes_under _ n
      dsimp only [Sum.map_inr]
      rw [hleave]
      rfl

theorem endFinally_under (m : Machine) : endFinally s (m.under x) = (endFinally s m).under x := by
  unfold endFinally
  rw [under_handlers]
  split
  · rfl
  · next h rest _ =>
    dsimp only
    split
    · rfl
    · exact giveBack_under { m with handlers := rest } _
    · exact leaveTo_under { m with handlers := rest } _ _
    · rfl

theorem stamp_under (m : Machine) (id : Nat) : stamp s (m.under x) id = (stamp s m id).under x := by
  unfold stamp
  rw [under_world, World.under_store]
  dsimp only
  split <;> rfl

theorem offer_under (m : Machine) (f : Failure) (boundary : Nat) :
    (m.under x).offer s f boundary =
      (m.offer s f boundary).map (Machine.under x) fun r => (r.1, r.2.under x) := by
  have hexception : (m.under x).exceptionOf f =
      (m.exceptionOf f).map fun r => (r.1, r.2.under x) := by
    cases f <;> rfl
  unfold offer
  rw [hexception]
  cases m.exceptionOf f with
  | none => rfl
  | some r =>
    obtain ⟨id, n⟩ := r
    have hthrow : throwException s (n.under x) id boundary =
        (throwException s n id boundary).under x := by
      unfold throwException
      rw [stamp_under]
      exact throwTo_under _ _ _ _
    dsimp only [Option.map_some]
    rw [hthrow]
    cases throwException s n id boundary <;> rfl

theorem fail_under (inside : Bool) (f : Failure) (m : Machine) (loops : List Loop) :
    fail s inside f (m.under x) loops = (fail s inside f m loops).under x := by
  -- Outwards from loop to loop, each with what the one inside it could not handle.
  induction loops generalizing inside f m with
  | nil =>
    unfold fail
    rw [offer_under]
    cases m.offer s f 0 <;> rfl
  | cons l loops ih =>
    have hoffer : (if inside then (m.under x).offer s f l.boundary else .inr (f, m.under x)) =
        (if inside then m.offer s f l.boundary else .inr (f, m)).map (Machine.under x)
          fun r => (r.1, r.2.under x) := by
      cases inside with
      | true => exact offer_under m f l.boundary
      | false => rfl
    unfold fail
    rw [hoffer]
    cases (if inside then m.offer s f l.boundary else .inr (f, m)) with
    | inl n => rfl
    | inr r => exact ih _ _ { r.2 with ip := l.ip, pc := l.pc }

theorem deliver_under (m : Machine) (v : Value) :
    (m.under x).deliver v = (m.deliver v).under x := by
  unfold deliver
  rw [under_loops]
  split <;> rfl

/-- A failure because the run is to stop ends it, whatever handlers and loops there are. -/
theorem fail_stopped_cut (inside : Bool) (reason : StopReason) (m : Machine) (loops : List Loop)
    (st : Status) : (fail s inside (.stopped reason) m loops).Cut x st := by
  obtain ⟨ip, pc, hend⟩ := fail_eq_ended (s := s) (f := .stopped reason) rfl inside m loops
  exact .inr ⟨reason, _, hend⟩

theorem settle_cut {e e' : Effect} (h : e.Cut x e') : (settle s e).Cut x (settle s e') := by
  rcases h with rfl | ⟨reason, n, rfl⟩
  · refine .inl ?_
    cases e' with
    | next m => rfl
    | returned v m => exact deliver_under m v
    | failed f m => exact fail_under true f m m.loops
  · exact fail_stopped_cut true reason n n.loops _

end Unwinding

section Instructions

variable {m : Machine}

theorem ask_under (m : Machine) (q : Query) : (m.under x).ask s q = (m.ask s q).under x := by
  cases q with
  | name name => exact valueOfName_under s m name
  | callee name => exact calleeOfName_under s m name
  | member receiver name => exact World.loadMember_under _ _ _
  | typeMember t name => exact World.typeMember_under _ _ _
  | index obj idx => exact World.indexGet_under _ _ _
  | slice obj start stop => exact World.sliceGet_under _ _ _ _
  | array | joined | dict | closure | object => rfl

theorem tell_under (m : Machine) (u : Update) : (m.under x).tell s u = (m.tell s u).under x := by
  cases u with
  | index obj idx v => exact World.indexSet_under _ _ _ _
  | member receiver name v => exact World.storeMember_under _ _ _ _

theorem assign_cut (m : Machine) (name : Text) (v : Value) :
    ((m.under x).assign name v).Cut x (m.assign name v) := by
  have hassign : (m.under x).world.store.scopes.assign? name v (m.under x).scope =
      m.world.store.scopes.assign? name v m.scope := rfl
  unfold assign
  rw [hassign]
  split <;> exact .inl rfl

theorem print_cut (m : Machine) (v : Value) : ((m.under x).print v).Cut x (m.print v) := by
  have hwrite : (m.under x).world.output.write? ((m.under x).world.text v ++ [10]) =
      m.world.output.write? (m.world.text v ++ [10]) := rfl
  unfold print
  rw [hwrite]
  split <;> exact .inl rfl

theorem answer_cut {name : Text} {r r' : Reply Value} (h : Reply.Cut x r r') :
    ((m.under x).answer name r).Cut x (m.answer name r') := by
  rcases h with rfl | ⟨reason, hr⟩
  · exact .inl rfl
  · obtain ⟨r, w⟩ := r
    cases hr
    exact .inr ⟨reason, _, rfl⟩

theorem callNative_cut (m : Machine) (nested : Bool) (callee : Value) (args : List Value) :
    (callNative s (m.under x) nested callee args).Cut x (callNative s m nested callee args) := by
  unfold callNative
  split
  · exact answer_cut (callBuiltin_cut s m _ _)
  · next im receiver args _ =>
    unfold callMethod
    rw [under_world, World.under_store]
    dsimp only
    split
    · exact .inl rfl
    · exact .inl rfl
    · exact answer_cut (.inl (World.method_under _ _ _ _))
  · exact .inl rfl

theorem carryOut_cut (m : Machine) (callee : Value) (args : List Value) :
    (carryOut s (m.under x) callee args).Cut x (carryOut s m callee args) := by
  unfold carryOut
  split
  · exact .inl rfl
  · have hcall : (callNative s (m.under x) false callee args).Cut x
        (callNative s m false callee args) := callNative_cut m false callee args
    rcases hcall with heq | ⟨reason, n, heq⟩
    · cases hnative : callNative s m false callee args with
      | answered r n =>
        rw [hnative] at heq
        rw [heq]
        cases r <;> exact .inl rfl
      | loops l n =>
        rw [hnative] at heq
        rw [heq]
        exact .inl rfl
    · rw [heq]
      exact .inr ⟨reason, n, rfl⟩

/-- To do the same under pressure, or to stop, is kept by all instructions but the transfers. Only a
call can come to a wait and find out that the run is to stop. -/
def Accord.cut (s : Setup) (x : Pressure) (o : Operand) (op : Opcode) : Accord s o op Unit where
  After _ H n ns := ns = (fun _ => n.under x) ∧ ∀ v, H v
  Ends _ _ e es := (es ()).Cut x e
  stack := by
    rintro j H n _ ⟨rfl, -⟩ -
    rfl
  truthy := by
    rintro j H n _ ⟨rfl, -⟩ - v
    rfl
  text := by
    rintro j H n _ v ⟨rfl, -⟩ - -
    rfl
  refusal := by
    rintro j H n _ ⟨rfl, -⟩ - callee argc
    rfl
  held h v _ := h.2 v
  data h _ := h.2 _
  type h _ := h.2 _
  drop := by
    rintro j H n _ k ⟨rfl, hall⟩
    exact ⟨rfl, hall⟩
  next := by
    rintro j H n _ vs ⟨rfl, -⟩ -
    exact .inl rfl
  fault := by
    rintro j k p H n _ c ⟨rfl, -⟩ - -
    exact .inl rfl
  raise := by
    rintro j k p H n _ c ⟨rfl, -⟩ -
    exact .inl rfl
  thrown := by
    rintro j p H n _ v - ⟨rfl, -⟩ -
    refine .inl ?_
    cases v <;> rfl
  halt := by
    rintro j p H n _ - ⟨rfl, -⟩
    exact .inl rfl
  jump := by
    rintro j H n _ - ⟨rfl, -⟩
    exact .inl rfl
  declare := by
    rintro j H n _ v - ⟨rfl, -⟩ -
    exact .inl rfl
  assign := by
    rintro j H n _ v - ⟨rfl, -⟩ -
    exact assign_cut n o.name v
  print := by
    rintro j H n _ v - ⟨rfl, -⟩ -
    exact print_cut n v
  ask := by
    rintro j k p H n _ q K ⟨rfl, hall⟩ - - hK
    simp only [ask_under]
    rcases hr : n.ask s q with ⟨f | v, w⟩
    · exact .inl rfl
    · exact hK v w (fun _ => w.under x) H hr (hall v) ⟨rfl, hall⟩
  tell := by
    rintro j H n _ u ⟨rfl, -⟩ -
    simp only [tell_under]
    rcases n.tell s u with ⟨f | v, w⟩
    · exact .inl rfl
    · exact .inl rfl
  carryOut := by
    rintro j H n _ callee args - ⟨rfl, -⟩ - - - -
    exact carryOut_cut n callee args

theorem popScope_cut : ((m.under x).popScope s).Cut x (m.popScope s) := by
  unfold popScope
  rw [under_scopeDepth, under_scopeFloor]
  split <;> exact .inl rfl

theorem popHandler_cut : ((m.under x).popHandler s).Cut x (m.popHandler s) := by
  unfold popHandler
  rw [under_handlers]
  split <;> exact .inl rfl

theorem ret_cut (m : Machine) :
    ((m.under x).pop s fun v m => m.giveBack v).Cut x (m.pop s fun v m => m.giveBack v) := by
  cases hst : m.stack with
  | nil =>
    rw [pop_of_nil hst, pop_of_nil (m := m.under x) hst]
    exact .inl rfl
  | cons v stack =>
    rw [pop_of_cons hst, pop_of_cons (m := m.under x) hst]
    exact .inl (giveBack_under { m with stack := stack } v)

/-- An instruction does the same under pressure, unless it finds out that the run is to stop. -/
theorem perform_cut (m : Machine) (o : Operand) (op : Opcode) :
    ((m.under x).perform s o op).Cut x (m.perform s o op) := by
  cases transfers : op.transfers with
  | false =>
    have hstart : (Accord.cut s x o op).After 0 (fun _ => True) m fun _ => m.under x :=
      ⟨rfl, fun _ => trivial⟩
    exact (Accord.cut s x o op).perform hstart transfers fun _ _ => trivial
  | true =>
    cases op
    case pushScope => exact .inl rfl
    case popScope => exact popScope_cut
    case leave => exact .inl (leaveTo_under m _ _)
    case ret => exact ret_cut m
    case tryPush => exact .inl rfl
    case tryPop => exact popHandler_cut
    case endFinally => exact .inl (endFinally_under m)
    all_goals cases transfers

end Instructions

section Steps

variable {m : Machine}

theorem markFinalizing_under (m : Machine) :
    (m.under x).markFinalizing = m.markFinalizing.under x := by
  unfold markFinalizing
  rw [under_handlers]
  split
  · rfl
  · rw [under_ip, under_frames]
    split <;> rfl

theorem begun_under (m : Machine) (ins : Instruction) :
    (m.under x).begun s ins = (m.begun s ins).under x := by
  unfold begun
  rw [under_tick, markFinalizing_under]
  unfold traced
  split <;> rfl

/-- A step that is executed under pressure is executed without. -/
theorem stopBefore?_of_under (go : (m.under x).tick.stopBefore? = none) :
    m.tick.stopBefore? = none := by
  unfold stopBefore? at go ⊢
  rw [under_tick, under_steps] at go
  split
  · next hnumber =>
    rw [if_pos hnumber] at go
    exact World.stop?_of_under m.tick.world go
  · rfl

theorem fetch_cut (m : Machine) : ((m.under x).fetch s).Cut x (m.fetch s) := by
  cases has : s.program.instruction? m.ip with
  | none =>
    unfold fetch
    rw [under_ip, has, under_frames]
    dsimp only
    split
    · exact .inl (deliver_under m .null)
    · exact .inl (fail_under true _ { m with pc := m.ip } m.loops)
  | some ins =>
    cases hstop : (m.under x).tick.stopBefore? with
    | some reason =>
      -- No handler is asked: the failure goes through all the loops to the end of the run.
      have hcut : (m.under x).fetch s = fail s true (.stopped reason) (m.under x).tick m.loops := by
        unfold fetch
        rw [under_ip, has]
        dsimp only
        rw [hstop]
        rfl
      rw [hcut]
      exact fail_stopped_cut true reason _ m.loops _
    | none =>
      rw [fetch_eq_settle (m := m.under x) has hstop, fetch_eq_settle has (stopBefore?_of_under hstop),
        begun_under]
      refine settle_cut ?_
      unfold step
      split
      · exact perform_cut _ ins.operand _
      · exact .inl rfl

theorem callBack_cut (m : Machine) (callee : Value) (args : List Value) :
    ((m.under x).callBack s callee args).Cut x (m.callBack s callee args) := by
  unfold callBack
  rw [under_loops, under_tooDeep?]
  split
  · exact .inl (fail_under false _ m m.loops)
  · split
    · split
      · exact .inl (fail_under false _ m m.loops)
      · exact .inl rfl
    · rcases callNative_cut (s := s) (x := x) m true callee args with heq | ⟨reason, n, heq⟩
      · cases hnative : callNative s m true callee args with
        | answered r n =>
          rw [hnative] at heq
          rw [heq]
          cases r with
          | ok v => exact .inl (deliver_under n v)
          | error f => exact .inl (fail_under false f n n.loops)
        | loops l n =>
          rw [hnative] at heq
          rw [heq]
          exact .inl rfl
      · rw [heq]
        exact fail_stopped_cut false reason n n.loops _

theorem endLoop_under (m : Machine) (l : Loop) (loops : List Loop) :
    (m.under x).endLoop l loops = (m.endLoop l loops).under x := by
  unfold endLoop
  rw [under_world, Loop.result_under]
  dsimp only
  split
  · exact deliver_under { m with world := (l.result m.world).2, loops := loops } _
  · rfl

theorem iterate_cut (m : Machine) : ((m.under x).iterate s).Cut x (m.iterate s) := by
  unfold iterate
  rw [under_loops]
  split
  · exact .inl rfl
  · next l loops _ =>
    split
    · exact .inl (endLoop_under m l loops)
    · next e rest _ =>
      obtain ⟨l', args⟩ := l.take e rest
      exact callBack_cut
        { m with loops := { l' with boundary := m.frames.length + 1 } :: loops } l'.callee args

/-- Under pressure a step leads where it leads without, or the run ends because it is to stop. -/
theorem advance_cut (m : Machine) : ((m.under x).advance s).Cut x (m.advance s) := by
  unfold advance
  rw [under_control]
  split
  · exact fetch_cut m
  · exact iterate_cut m

end Steps

end Machine

end BytecodeMachine
