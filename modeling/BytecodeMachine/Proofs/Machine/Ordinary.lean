import BytecodeMachine.Proofs.Machine.Answers
import BytecodeMachine.Proofs.Machine.Steps

/-! Ordinary instructions: all but those that transfer control, enter or leave a scope, or open or
close a region. They leave the frames, the handlers and the scopes as they are, take a number of
values off the stack and put some on it, and see neither which native loops are around nor which
frames belong to callbacks. Calls are ordinary up to what they enter: one frame, or one loop. -/
namespace BytecodeMachine

variable {s : Setup}

namespace Machine

/-- The machine among other frames and other native loops. -/
def dress (m : Machine) (frames : List Frame) (loops : List Loop) : Machine :=
  { m with frames := frames, loops := loops }

/-- A change that takes the top `takes` values off the stack and puts `puts` others on it. -/
structure Calm (m : Machine) (takes puts : Nat) (n : Machine) : Prop extends Quiet m n where
  loops : n.loops = m.loops
  control : n.control = m.control
  pc : n.pc = m.pc
  stack : ∃ new : List Value, new.length = puts ∧ n.stack = new ++ m.stack.drop takes

theorem Calm.refl (m : Machine) : m.Calm 0 0 m := ⟨Quiet.refl m, rfl, rfl, rfl, [], rfl, rfl⟩

/-- Values that were put on in between would be taken first, so there are none. -/
theorem Calm.trans {m n o : Machine} {j k puts : Nat} (h : m.Calm j 0 n) (h' : n.Calm k puts o) :
    m.Calm (j + k) puts o := by
  refine ⟨h.toQuiet.trans h'.toQuiet, h'.loops.trans h.loops, h'.control.trans h.control,
    h'.pc.trans h.pc, ?_⟩
  obtain ⟨none, hnone, hn⟩ := h.stack
  obtain ⟨new, hnew, ho⟩ := h'.stack
  have hnil : none = [] := List.length_eq_zero_iff.mp hnone
  refine ⟨new, hnew, ?_⟩
  rw [ho, hn, hnil, List.nil_append, List.drop_drop]

theorem Calm.of_works {m : Machine} {w : World} (h : m.world.Works s.program true w) :
    m.Calm 0 0 { m with world := w } := ⟨Quiet.of_works h, rfl, rfl, rfl, [], rfl, rfl⟩

theorem Calm.push (m : Machine) (v : Value) : m.Calm 0 1 (m.push v) :=
  ⟨m.quiet_stack _, rfl, rfl, rfl, [v], rfl, rfl⟩

theorem calm_drop (m : Machine) (n : Nat) : m.Calm n 0 { m with stack := m.stack.drop n } :=
  ⟨m.quiet_stack _, rfl, rfl, rfl, [], rfl, rfl⟩

end Machine

/-- The effect of an ordinary instruction: it is the same among any other frames and loops, as long as
there are as many frames. -/
inductive Effect.Ordinary (s : Setup) (m : Machine) (takes puts : Nat)
    (e : List Frame → List Loop → Effect) : Prop
  | next {n : Machine} (calm : m.Calm takes puts n)
      (same : ∀ F L, F.length = m.frames.length → e F L = .next (n.dress F L))
  | failed {f : Failure} {n : Machine} {j : Nat} (calm : m.Calm j 0 n) (part : j ≤ takes)
      (usual : f.isException = true ∨ f.isFinal = true ∨ ∃ t, f = .output t)
      (same : ∀ F L, F.length = m.frames.length → e F L = .failed f (n.dress F L))
  | enters {n : Machine} {c : Closure} {self : Option Value} {args : List Value}
      (calm : m.Calm takes 0 n) (room : m.frames.length < s.maxCallDepth)
      (same : ∀ F L, F.length = m.frames.length →
        e F L = .next ((n.dress F L).enterFrame c self args false))
  | loops {n : Machine} {l : Loop} (calm : m.Calm takes 0 n) (place : l.ip = n.ip ∧ l.pc = n.pc)
      (boundary : l.boundary = m.frames.length + 1) (outer : l.nested = false)
      (same : ∀ F L, F.length = m.frames.length → e F L = .next ((n.dress F L).startLoop l))

namespace Effect.Ordinary

variable {m n : Machine} {j k puts : Nat} {e : List Frame → List Loop → Effect}

theorem after (h : m.Calm j 0 n) (he : Effect.Ordinary s n k puts e) :
    Effect.Ordinary s m (j + k) puts e := by
  have hlen : n.frames.length = m.frames.length := congrArg List.length h.frames
  cases he with
  | next calm same =>
    refine .next (h.trans calm) ?_
    intro F L hF
    exact same F L (hF.trans hlen.symm)
  | failed calm part usual same =>
    refine .failed (h.trans calm) (Nat.add_le_add_left part j) usual ?_
    intro F L hF
    exact same F L (hF.trans hlen.symm)
  | enters calm room same =>
    exact .enters (h.trans calm) (hlen ▸ room) fun F L hF => same F L (hF.trans hlen.symm)
  | loops calm place boundary outer same =>
    refine .loops (h.trans calm) place (hlen ▸ boundary) outer ?_
    intro F L hF
    exact same F L (hF.trans hlen.symm)

/-- Effects that agree among as many frames as there are. -/
theorem congr {e' : List Frame → List Loop → Effect}
    (heq : ∀ F L, F.length = m.frames.length → e F L = e' F L)
    (he : Effect.Ordinary s m k puts e') : Effect.Ordinary s m k puts e := by
  cases he with
  | next calm same => exact .next calm fun F L hF => (heq F L hF).trans (same F L hF)
  | failed calm part usual same =>
    exact .failed calm part usual fun F L hF => (heq F L hF).trans (same F L hF)
  | enters calm room same => exact .enters calm room fun F L hF => (heq F L hF).trans (same F L hF)
  | loops calm place boundary outer same =>
    exact .loops calm place boundary outer fun F L hF => (heq F L hF).trans (same F L hF)

end Effect.Ordinary

namespace Machine

variable {m : Machine} {k puts : Nat}

/-- A fault is met before anything is taken off the stack. -/
theorem fault_ordinary (c : FaultCause) :
    Effect.Ordinary s m k puts fun F L => .failed ((m.dress F L).fault s c) (m.dress F L) := by
  refine .failed (f := m.fault s c) (Calm.refl m) (Nat.zero_le k) ?_ fun _ _ _ => rfl
  exact Or.inr (Or.inl rfl)

theorem raise_ordinary (c : ErrorCause) :
    Effect.Ordinary s m k puts fun F L => (m.dress F L).raise c := by
  refine .failed (f := .of c) (Calm.refl m) (Nat.zero_le k) ?_ fun _ _ _ => rfl
  exact Or.inl rfl

theorem still_ordinary : Effect.Ordinary s m 0 0 fun F L => .next (m.dress F L) :=
  .next (Calm.refl m) fun _ _ _ => rfl

theorem declare_ordinary (name : Text) (v : Value) :
    Effect.Ordinary s m 0 0 fun F L => .next ((m.dress F L).declare name v) :=
  .next (n := m.declare name v) ⟨m.declare_quiet name v, rfl, rfl, rfl, [], rfl, rfl⟩
    fun _ _ _ => rfl

theorem assign_eq (name : Text) (v : Value) (F : List Frame) (L : List Loop) :
    (m.dress F L).assign name v =
      match m.world.store.scopes.assign? name v m.scope with
      | some scopes => .next ({ m with world :=
          { m.world with store := { m.world.store with scopes := scopes } } }.dress F L)
      | none => (m.dress F L).raise (.undeclaredVariable name) := rfl

theorem assign_ordinary (name : Text) (v : Value) :
    Effect.Ordinary s m 0 0 fun F L => (m.dress F L).assign name v := by
  cases ha : m.world.store.scopes.assign? name v m.scope with
  | none =>
    refine (raise_ordinary (.undeclaredVariable name)).congr fun F L _ => ?_
    rw [assign_eq, ha]
  | some scopes =>
    have hcalm : m.Calm 0 0 { m with world :=
        { m.world with store := { m.world.store with scopes := scopes } } } :=
      ⟨⟨rfl, rfl, rfl, rfl, Scopes.extends_assign ha⟩, rfl, rfl, rfl, [], rfl, rfl⟩
    refine .next hcalm fun F L _ => ?_
    rw [assign_eq, ha]

theorem print_eq (v : Value) (F : List Frame) (L : List Loop) : (m.dress F L).print v =
    match m.world.output.write? (m.world.text v ++ [10]) with
    | some o => .next ({ m with world := { m.world with output := o } }.dress F L)
    | none => .failed (.output "vm: print: output limit") (m.dress F L) := rfl

theorem print_ordinary (v : Value) :
    Effect.Ordinary s m 0 0 fun F L => (m.dress F L).print v := by
  cases ho : m.world.output.write? (m.world.text v ++ [10]) with
  | none =>
    refine .failed (f := .output "vm: print: output limit") (Calm.refl m) (Nat.le_refl 0) ?_
      fun F L _ => ?_
    · exact Or.inr (Or.inr ⟨_, rfl⟩)
    · rw [print_eq, ho]
  | some o =>
    have hcalm : m.Calm 0 0 { m with world := { m.world with output := o } } :=
      ⟨Quiet.of_eq rfl rfl rfl rfl rfl, rfl, rfl, rfl, [], rfl, rfl⟩
    refine .next hcalm fun F L _ => ?_
    rw [print_eq, ho]

/-- The same machine after native code among other frames and loops. -/
def Native.dress (F : List Frame) (L : List Loop) : Native → Native
  | .answered r m => .answered r (m.dress F L)
  | .loops l m => .loops l (m.dress F L)

/-- Native code sees how many frames there are and nothing else of them. -/
theorem callNative_dress {F : List Frame} (hF : F.length = m.frames.length) (L : List Loop)
    (nested : Bool) (callee : Value) (args : List Value) :
    callNative s (m.dress F L) nested callee args =
      (callNative s m nested callee args).dress F L := by
  have hdepths : (m.dress F L).depths = m.depths := by
    unfold depths
    rw [show (m.dress F L).frames.length = m.frames.length from hF]
    rfl
  unfold callNative
  cases Target.of callee args with
  | builtin b =>
    have hb : callBuiltin s (m.dress F L) b args = callBuiltin s m b args := by
      unfold callBuiltin
      rw [hdepths]
      rfl
    dsimp only
    rw [hb]
    rfl
  | method im receiver args =>
    dsimp only
    unfold callMethod
    rw [show (m.dress F L).frames.length = m.frames.length from hF]
    simp only [show (m.dress F L).world = m.world from rfl]
    split <;> rfl
  | function c self => rfl
  | nobody => rfl

theorem enter_ordinary (c : Closure) (self : Option Value) (args : List Value)
    (room : m.frames.length < s.maxCallDepth) :
    Effect.Ordinary s m 0 1 fun F L => .next ((m.dress F L).enterFrame c self args false) :=
  .enters (Calm.refl m) room fun _ _ _ => rfl

theorem answer_ordinary {name : Text} {r : Reply Value} (works : m.world.Works s.program true r.2) :
    Effect.Ordinary s m 0 1 fun F L => ((m.answer name r).dress F L).effect := by
  obtain ⟨answer, w⟩ := r
  cases answer with
  | ok v => exact .next ((Calm.of_works works).trans (Calm.push _ v)) fun _ _ _ => rfl
  | error f =>
    refine .failed (f := f.named name) (Calm.of_works works) (Nat.le_refl 0) ?_ fun _ _ _ => rfl
    cases hf : f.isFinal with
    | false => exact Or.inl (Failure.isException_named hf name)
    | true => exact Or.inr (Or.inl (by rwa [Failure.named_of_isFinal hf]))

theorem native_ordinary (callee : Value) (args : List Value) :
    Effect.Ordinary s m 0 1 fun F L => ((callNative s m false callee args).dress F L).effect := by
  unfold callNative
  split
  · exact answer_ordinary (callBuiltin_works s m _ _)
  · unfold callMethod
    dsimp only
    split
    · exact .loops (Calm.refl m) ⟨rfl, rfl⟩ rfl rfl fun _ _ _ => rfl
    · exact raise_ordinary _
    · exact answer_ordinary (World.method_works _ _ _ _)
  · exact .next (Calm.push m .null) fun _ _ _ => rfl

theorem carryOut_ordinary (callee : Value) (args : List Value)
    (room : ∀ c self, Target.of callee args = .function c self →
      m.frames.length < s.maxCallDepth) :
    Effect.Ordinary s m 0 1 fun F L => carryOut s (m.dress F L) callee args := by
  cases ht : Target.of callee args with
  | function c self =>
    refine (enter_ordinary c self args (room c self ht)).congr fun F L _ => ?_
    unfold carryOut
    rw [ht]
  | builtin | method | nobody =>
    refine (native_ordinary callee args).congr fun F L hF => ?_
    rw [carryOut_eq_effect (by simp [ht]), callNative_dress hF]

/-! Native code sees neither the frames nor the loops. -/

theorem ask_dress (m : Machine) (q : Query) (F : List Frame) (L : List Loop) :
    (m.dress F L).ask s q = m.ask s q := by
  cases q <;> rfl

theorem tell_dress (m : Machine) (u : Update) (F : List Frame) (L : List Loop) :
    (m.dress F L).tell s u = m.tell s u := by
  cases u <;> rfl

theorem callRefusal?_dress (m : Machine) {F : List Frame} (hF : F.length = m.frames.length)
    (L : List Loop) (callee : Value) (argc : Int) :
    callRefusal? s (m.dress F L) callee argc = callRefusal? s m callee argc := by
  unfold callRefusal? tooDeep?
  rw [show (m.dress F L).frames.length = m.frames.length from hF]
  rfl

/-- To be the same among any other frames and loops is kept by all instructions but the transfers. -/
def Accord.ordinary (s : Setup) (m₀ : Machine) (o : Operand) (op : Opcode) :
    Accord s o op ({ F : List Frame // F.length = m₀.frames.length } × List Loop) where
  After j H m ms := m₀.Calm j 0 m ∧ ms = (fun i => m.dress i.1 i.2) ∧ ∀ v, H v
  Ends k p _ es := ∃ e, Effect.Ordinary s m₀ k p e ∧ ∀ i, es i = e i.1 i.2
  stack := by
    rintro j H m _ ⟨-, rfl, -⟩ i
    rfl
  truthy := by
    rintro j H m _ ⟨-, rfl, -⟩ i v
    rfl
  text := by
    rintro j H m _ v ⟨-, rfl, -⟩ _ i
    rfl
  refusal := by
    rintro j H m _ ⟨hcalm, rfl, -⟩ i callee argc
    exact m.callRefusal?_dress (i.1.2.trans (congrArg List.length hcalm.frames).symm) i.2 callee argc
  held h v _ := h.2.2 v
  data h _ := h.2.2 _
  type h _ := h.2.2 _
  drop := by
    rintro j H m _ n ⟨hcalm, rfl, hall⟩
    exact ⟨hcalm.trans (m.calm_drop n), rfl, hall⟩
  next := by
    rintro j H m _ vs ⟨hcalm, rfl, -⟩ _
    have hput : m.Calm 0 vs.length { m with stack := vs ++ m.stack } :=
      ⟨m.quiet_stack _, rfl, rfl, rfl, vs, rfl, rfl⟩
    exact ⟨_, .next (hcalm.trans hput) fun _ _ _ => rfl, fun _ => rfl⟩
  fault := by
    rintro j k p H m _ c ⟨hcalm, rfl, -⟩ hj -
    exact ⟨_, .failed (f := m.fault s c) hcalm hj (.inr (.inl rfl)) fun _ _ _ => rfl, fun _ => rfl⟩
  raise := by
    rintro j k p H m _ c ⟨hcalm, rfl, -⟩ hj
    exact ⟨_, .failed (f := .of c) hcalm hj (.inl rfl) fun _ _ _ => rfl, fun _ => rfl⟩
  thrown := by
    rintro j p H m _ v - ⟨hcalm, rfl, -⟩ -
    have husual : (m.thrown v).isException = true := by cases v <;> rfl
    refine ⟨_, .failed (f := m.thrown v) hcalm (Nat.le_refl j) (.inl husual) fun _ _ _ => rfl, ?_⟩
    intro i
    cases v <;> rfl
  halt := by
    rintro j p H m _ - ⟨hcalm, rfl, -⟩
    exact ⟨_, .failed (f := .halt .null) hcalm (Nat.le_refl j) (.inr (.inl rfl)) fun _ _ _ => rfl,
      fun _ => rfl⟩
  jump := by
    rintro j H m _ - ⟨hcalm, rfl, -⟩
    have hjump : m.Calm 0 0 { m with ip := o.int.toInt } :=
      ⟨m.quiet_ip _, rfl, rfl, rfl, [], rfl, rfl⟩
    exact ⟨_, .next (hcalm.trans hjump) fun _ _ _ => rfl, fun _ => rfl⟩
  declare := by
    rintro j H m _ v - ⟨hcalm, rfl, -⟩ -
    exact ⟨_, (declare_ordinary o.name v).after hcalm, fun _ => rfl⟩
  assign := by
    rintro j H m _ v - ⟨hcalm, rfl, -⟩ -
    exact ⟨_, (assign_ordinary o.name v).after hcalm, fun _ => rfl⟩
  print := by
    rintro j H m _ v - ⟨hcalm, rfl, -⟩ -
    exact ⟨_, (print_ordinary v).after hcalm, fun _ => rfl⟩
  ask := by
    rintro j k p H m _ q K ⟨hcalm, rfl, hall⟩ asks hj hK
    have hworks : m.Calm 0 0 { m with world := (m.ask s q).2 } := Calm.of_works (m.ask_works q)
    have htame := m.ask_tame asks
    simp only [ask_dress]
    rcases hr : m.ask s q with ⟨f | v, w⟩ <;> rw [hr] at hworks htame
    · refine ⟨_, .failed (f := f) (hcalm.trans hworks) hj ?_ fun _ _ _ => rfl, fun _ => rfl⟩
      exact (htame f rfl).imp_right .inl
    · exact hK v w (fun _ => w) H hr (hall v) ⟨hcalm.trans hworks, rfl, hall⟩
  tell := by
    rintro j H m _ u ⟨hcalm, rfl, -⟩ tells
    have hworks : m.Calm 0 0 { m with world := (m.tell s u).2 } := Calm.of_works (m.tell_works u)
    have htame := m.tell_tame tells
    simp only [tell_dress]
    rcases hr : m.tell s u with ⟨f | v, w⟩ <;> rw [hr] at hworks htame
    · refine ⟨_, .failed (f := f) (hcalm.trans hworks) (Nat.le_refl j) ?_ fun _ _ _ => rfl,
        fun _ => rfl⟩
      exact (htame f rfl).imp_right .inl
    · exact ⟨_, .next (hcalm.trans hworks) fun _ _ _ => rfl, fun _ => rfl⟩
  carryOut := by
    rintro j H m _ callee args - ⟨hcalm, rfl, -⟩ - - - room
    exact ⟨_, (carryOut_ordinary callee args room).after hcalm, fun _ => rfl⟩

theorem perform_ordinary (o : Operand) {op : Opcode} (h : op.transfers = false) :
    Effect.Ordinary s m (m.takes s o op) op.puts fun F L => (m.dress F L).perform s o op := by
  have hstart : (Accord.ordinary s m o op).After 0 (fun _ => True) m fun i => m.dress i.1 i.2 :=
    ⟨Calm.refl m, rfl, fun _ => trivial⟩
  obtain ⟨e, he, hes⟩ := (Accord.ordinary s m o op).perform hstart h fun _ _ => trivial
  exact he.congr fun F L hF => hes ⟨⟨F, hF⟩, L⟩

theorem ordinary_ne_returned (o : Operand) {op : Opcode} (h : op.transfers = false) (v : Value)
    (n : Machine) : m.perform s o op ≠ .returned v n := by
  have hself : m.perform s o op = (m.dress m.frames m.loops).perform s o op := rfl
  intro hreturned
  rw [hself] at hreturned
  cases perform_ordinary (s := s) (m := m) o h with
  | next _ same => cases (same _ _ rfl).symm.trans hreturned
  | failed _ _ _ same => cases (same _ _ rfl).symm.trans hreturned
  | enters _ _ same => cases (same _ _ rfl).symm.trans hreturned
  | loops _ _ _ _ same => cases (same _ _ rfl).symm.trans hreturned

end Machine

end BytecodeMachine
