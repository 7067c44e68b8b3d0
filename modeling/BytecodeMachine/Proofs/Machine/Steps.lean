import BytecodeMachine.Proofs.Machine.Accord
import BytecodeMachine.Proofs.Machine.Unwinding

/-! What one step of a machine does, said once for all instructions and for the native loops: it
enters one frame, or it is made of changes that only unwind. -/
namespace BytecodeMachine

variable {s : Setup}

/-- The way into a new frame, whose scope is new too. -/
structure Machine.Enters (s : Setup) (m m' : Machine) : Prop where
  room : m.frames.length < s.maxCallDepth
  frame : ∃ f, m'.frames = f :: m.frames ∧ f.scope = m.scope ∧ f.scopeDepth = m.scopeDepth
  handlers : m'.handlers = m.handlers
  scopeDepth : m'.scopeDepth = m.scopeDepth + 1
  fresh : m'.scope = m.scopes.cells.size
  parents : m.scopes.Extends m'.scopes

/-- The effect of an instruction that does not touch handlers and leaves no scope. -/
inductive Effect.Plain (s : Setup) (m : Machine) : Effect → Prop
  | next {m' : Machine} (h : m.Quiet m') : Plain s m (.next m')
  | failed {f : Failure} {m' : Machine} (h : m.Quiet m') : Plain s m (.failed f m')
  | enters {m₁ m' : Machine} (h : m.Quiet m₁) (h' : m₁.Enters s m') : Plain s m (.next m')

theorem Effect.Plain.after {m m' : Machine} {e : Effect} (h : m.Quiet m') (he : e.Plain s m') :
    e.Plain s m := by
  cases he with
  | next h' => exact .next (h.trans h')
  | failed h' => exact .failed (h.trans h')
  | enters h' hi => exact .enters (h.trans h') hi

namespace Machine

theorem quiet_stack (m : Machine) (stack : List Value) : m.Quiet { m with stack := stack } :=
  Quiet.of_eq rfl rfl rfl rfl rfl

theorem quiet_ip (m : Machine) (ip : Int) : m.Quiet { m with ip := ip } :=
  Quiet.of_eq rfl rfl rfl rfl rfl

theorem declare_quiet (m : Machine) (name : Text) (v : Value) : m.Quiet (m.declare name v) :=
  ⟨rfl, rfl, rfl, rfl, Scopes.extends_declare _ _ _ _⟩

theorem assign_plain (m : Machine) (name : Text) (v : Value) : (m.assign name v).Plain s m := by
  unfold assign
  split
  · next h => exact .next ⟨rfl, rfl, rfl, rfl, Scopes.extends_assign h⟩
  · exact .failed (Quiet.refl m)

theorem print_plain (m : Machine) (v : Value) : (m.print v).Plain s m := by
  unfold print
  split
  · exact .next (Quiet.of_eq rfl rfl rfl rfl rfl)
  · exact .failed (Quiet.refl m)

theorem enterFrame_enters (m : Machine) (c : Closure) (self : Option Value) (args : List Value)
    (callback : Bool) (room : m.frames.length < s.maxCallDepth) :
    m.Enters s (m.enterFrame c self args callback) :=
  ⟨room, ⟨_, rfl, rfl, rfl⟩, rfl, rfl, rfl,
    (Scopes.extends_push _ _).trans (Scopes.extends_bindings _ _ _)⟩

/-! Native code. -/

theorem ask_works (m : Machine) (q : Query) {writes : Bool} :
    m.world.Works s.program writes (m.ask s q).2 := by
  cases q with
  | name name => exact valueOfName_works s m name
  | callee name => exact calleeOfName_works s m name
  | member receiver name => exact World.loadMember_works _ _ _
  | typeMember t name => exact World.typeMember_works _ _ _
  | index obj idx => exact World.indexGet_works _ _ _
  | slice obj start stop => exact World.sliceGet_works _ _ _ _
  | object name => exact World.newObject_works _ _
  | array | joined | dict | closure => exact .aside rfl

/-- What is told may set fields. -/
theorem tell_works (m : Machine) (u : Update) : m.world.Works s.program true (m.tell s u).2 := by
  cases u with
  | index obj idx v => exact World.indexSet_works _ _ _ _
  | member receiver name v => exact World.storeMember_works _ _ _ _

def Native.machine : Native → Machine
  | .answered _ m => m
  | .loops _ m => m

/-- A native call changes the world only; one that starts a loop leaves everything else to it. -/
theorem callNative_works (m : Machine) (nested : Bool) (callee : Value) (args : List Value)
    {writes : Bool} : ∃ w, (callNative s m nested callee args).machine = { m with world := w } ∧
      m.world.Works s.program writes w := by
  unfold callNative
  split
  · exact ⟨_, rfl, callBuiltin_works s m _ _⟩
  · unfold callMethod
    dsimp only
    split
    · exact ⟨_, rfl, .refl _⟩
    · exact ⟨_, rfl, .refl _⟩
    · exact ⟨_, rfl, World.method_works _ _ _ _⟩
  · exact ⟨_, rfl, .refl _⟩

theorem callNative_quiet (m : Machine) (nested : Bool) (callee : Value) (args : List Value) :
    m.Quiet (callNative s m nested callee args).machine := by
  obtain ⟨w, heq, hw⟩ := callNative_works (s := s) m nested callee args
  rw [heq]
  exact .of_works hw

theorem carryOut_plain (m : Machine) (callee : Value) (args : List Value)
    (room : ∀ c self, Target.of callee args = .function c self →
      m.frames.length < s.maxCallDepth) : (carryOut s m callee args).Plain s m := by
  unfold carryOut
  split
  · next c self ht =>
    exact .enters (Quiet.refl m) (m.enterFrame_enters c self args false (room c self ht))
  · have hq := callNative_quiet (s := s) m false callee args
    generalize callNative s m false callee args = r at hq ⊢
    match r, hq with
    | .answered (.ok v) n, hq => exact .next (hq.trans (n.quiet_stack _))
    | .answered (.error f) n, hq => exact .failed hq
    | .loops l n, hq => exact .next (hq.trans (Quiet.of_eq rfl rfl rfl rfl rfl))

/-- To touch no handlers and to leave no scope is kept by all instructions but the transfers. -/
def Accord.plain (s : Setup) (m : Machine) (o : Operand) (op : Opcode) : Accord s o op Empty where
  After _ H n _ := m.Quiet n ∧ ∀ v, H v
  Ends _ _ e _ := e.Plain s m
  stack _ i := i.elim
  truthy _ i := i.elim
  text _ _ i := i.elim
  refusal _ i := i.elim
  held h v _ := h.2 v
  data h _ := h.2 _
  type h _ := h.2 _
  drop n h := ⟨h.1.trans (quiet_stack _ _), h.2⟩
  next _ h _ := .next (h.1.trans (quiet_stack _ _))
  fault h _ _ := .failed h.1
  raise _ h _ := .failed h.1
  thrown _ h _ := .failed h.1
  halt _ h := .failed h.1
  jump _ h := .next (h.1.trans (quiet_ip _ _))
  declare _ h _ := .next (h.1.trans (declare_quiet _ _ _))
  assign _ h _ := (assign_plain _ _ _).after h.1
  print _ h _ := (print_plain _ _).after h.1
  ask {_ _ _ H n _ q _} h _ _ hK := by
    have hq := h.1.trans (Quiet.of_works (n.ask_works (s := s) q))
    rcases hr : n.ask s q with ⟨f | v, w⟩ <;> rw [hr] at hq
    · exact .failed hq
    · exact hK v w Empty.elim H hr (h.2 v) ⟨hq, h.2⟩
  tell {_ _ n _ u} h _ := by
    have hq := h.1.trans (Quiet.of_works (n.tell_works (s := s) u))
    rcases hr : n.tell s u with ⟨f | v, w⟩ <;> rw [hr] at hq
    · exact .failed hq
    · exact .next hq
  carryOut _ h _ _ _ room := (carryOut_plain _ _ _ room).after h.1

/-- What an instruction does with the handlers of the machine `m` that has come to it: the events of
that, and the state of the run after the step. -/
inductive Course (s : Setup) (m : Machine) (o : Operand) :
    Option Opcode → List HandlerEvent → Status → Prop
  | tryPush {h : Handler} {n : Machine} (trying : h.phase = .trying)
      (catchAddr : h.catchAddr = o.int.toInt) (finallyAddr : h.finallyAddr = o.int2.toInt)
      (callDepth : h.callDepth = m.frames.length) (handlers : n.handlers = h :: m.handlers) :
      Course s m o (some .tryPush) [.pushed] (.running n)
  | tryPop {h : Handler} {rest : List Handler} {n : Machine} (top : m.handlers = h :: rest)
      (handlers : n.handlers = rest) : Course s m o (some .tryPop) [.popped] (.running n)
  /-- What was put off begins again without the handler, with the same value, exception or target. -/
  | endFinally {h : Handler} {rest : List Handler} {log : List HandlerEvent} {st : Status}
      (top : m.handlers = h :: rest) (proceeds : Proceeds s { m with handlers := rest } h.pending log st) :
      Course s m o (some .endFinally) (.ended h.pending :: log) st
  | ret {v : Value} {stack : List Value} {log : List HandlerEvent} {st : Status}
      (top : m.stack = v :: stack) (proceeds : Proceeds s { m with stack := stack } (.giveBack v) log st) :
      Course s m o (some .ret) log st
  | leave {log : List HandlerEvent} {st : Status}
      (proceeds : Proceeds s m (.leave o.int.toInt o.int2.toInt) log st) : Course s m o (some .leave) log st
  /-- A region is closed where none is open. -/
  | unopened {op : Opcode} {e : Ending} {n : Machine} (closes : op = .tryPop ∨ op = .endFinally)
      (none : m.handlers = []) (handlers : n.handlers = []) : Course s m o (some op) [] (.ended e n)
  | unreturned {e : Ending} {n : Machine} (none : m.stack = []) (handlers : n.handlers = m.handlers) :
      Course s m o (some .ret) [] (.ended e n)
  /-- All other instructions leave the handlers alone unless they raise an exception. -/
  | still {op : Option Opcode} {st : Status}
      (other : ∀ t, op = some t → t.transfers = false ∨ t = .pushScope ∨ t = .popScope)
      (handlers : st.machine.handlers = m.handlers) : Course s m o op [] st
  | raises {op : Opcode} {f : Failure} {log : List HandlerEvent} {st : Status}
      (other : op.transfers = false) (raises : Raised s m f log st) : Course s m o (some op) log st

/-- A machine enters one frame, or it changes without entering any. -/
def Advances (s : Setup) (m : Machine) (log : List HandlerEvent) (m' : Machine) : Prop :=
  Changes s m log m' ∨ ∃ m₁, Changes s m log m₁ ∧ m₁.frames = m.frames ∧ m₁.Enters s m'

theorem deliver_quiet (m : Machine) (v : Value) : m.Quiet (m.deliver v).machine := by
  unfold deliver
  split
  · exact Quiet.refl m
  · exact Quiet.of_eq rfl rfl rfl rfl rfl

theorem fail_quiet {f : Failure} (hf : f.isFinal = true) (inside : Bool) (m : Machine)
    (loops : List Loop) : m.Quiet (fail s inside f m loops).machine := by
  obtain ⟨ip, pc, he⟩ := fail_eq_ended (s := s) hf inside m loops
  rw [he]
  exact Quiet.of_eq rfl rfl rfl rfl rfl

theorem settle_plain {m : Machine} {e : Effect} (o : Operand) {op : Opcode}
    (other : op.transfers = false) (h : e.Plain s m) :
    ∃ log, Course s m o (some op) log (settle s e) ∧ Advances s m log (settle s e).machine := by
  have hother : ∀ t, some op = some t → t.transfers = false ∨ t = .pushScope ∨ t = .popScope := by
    rintro t ⟨⟩
    exact Or.inl other
  cases h with
  | next h => exact ⟨[], .still hother h.handlers, Or.inl (Changes.quiet h)⟩
  | @failed f m' h =>
    obtain ⟨log, hch, hr⟩ := fail_changes (s := s) true f m' m'.loops
    exact ⟨log, .raises other (hr.congr h.handlers), Or.inl (Changes.after_quiet h hch)⟩
  | enters h h' =>
    exact ⟨[], .still hother (h'.handlers.trans h.handlers),
      Or.inr ⟨_, Changes.quiet h, h.frames, h'⟩⟩

theorem giveBack_failed {m m' : Machine} {v : Value} {f : Failure}
    (h : m.giveBack v = .failed f m') : f.isFinal = true := by
  rw [giveBack_eq] at h
  cases hr : m.returnThrough v m.handlers with
  | inl n => simp [hr] at h
  | inr n =>
    rw [hr] at h
    change n.returnFrom v = _ at h
    unfold returnFrom at h
    split at h
    · cases h
      rfl
    · split at h <;> cases h

theorem leaveTo_failed {m m' : Machine} {target scopes : Int} {f : Failure}
    (h : leaveTo s m target scopes = .failed f m') : f.isFinal = true := by
  unfold leaveTo at h
  dsimp only at h
  split at h
  · cases h
    rfl
  · split at h <;> cases h

/-- An effect whose failures are all final is settled quietly. -/
theorem settle_changes {m : Machine} {log : List HandlerEvent} {e : Effect}
    (h : Changes s m log e.machine) (hf : ∀ f m', e = .failed f m' → f.isFinal = true) :
    Changes s m log (settle s e).machine := by
  cases e with
  | next m' => exact h
  | returned v m' => exact h.then_quiet (m'.deliver_quiet v)
  | failed f m' => exact h.then_quiet (fail_quiet (hf f m' rfl) true m' m'.loops)

/-- The end of a finally block drops its handler, and what was put off goes on from there. -/
theorem endFinally_settles (m : Machine) (o : Operand) (control : m.control = .fetch) :
    ∃ log, Course s m o (some .endFinally) log (settle s (endFinally s m)) ∧
      Changes s m log (settle s (endFinally s m)).machine := by
  cases hh : m.handlers with
  | nil =>
    have he : endFinally s m = .failed (m.fault s .endFinallyWithoutHandler) m := by
      unfold endFinally
      rw [hh]
    obtain ⟨ip, pc, hend⟩ := fail_eq_ended (s := s) (f := m.fault s .endFinallyWithoutHandler) rfl
      true m m.loops
    refine ⟨[], ?_, ?_⟩
    · rw [he, settle, hend]
      exact .unopened (Or.inr rfl) hh hh
    · rw [he]
      exact Changes.quiet (fail_quiet rfl true m m.loops)
  | cons h rest =>
    have hone : Changes s m [.ended h.pending] { m with handlers := rest } :=
      Changes.one (Change.shift (by rw [hh]; exact Shift.ended) (by simp))
    have hgoes : ∃ log, Changes s { m with handlers := rest } log
        (settle s (replay s { m with handlers := rest } h.pending)).machine ∧
        Proceeds s { m with handlers := rest } h.pending log
          (settle s (replay s { m with handlers := rest } h.pending)) := by
      cases h.pending with
      | nothing => exact ⟨[], Changes.refl _, .nothing⟩
      | exception id =>
        obtain ⟨log, hch, hr⟩ := fail_changes (s := s) true (.rethrow id)
          { m with handlers := rest } m.loops
        exact ⟨log, hch, hr.proceeds⟩
      | giveBack v =>
        obtain ⟨log, hch, hg⟩ := giveBack_proceeds (s := s) { m with handlers := rest } v control
        exact ⟨log, settle_changes hch fun _ _ => giveBack_failed, hg⟩
      | leave target scopes =>
        obtain ⟨log, hch, hg⟩ :=
          leaveTo_proceeds (s := s) { m with handlers := rest } target scopes control
        exact ⟨log, settle_changes hch fun _ _ => leaveTo_failed, hg⟩
    obtain ⟨log, hch, hg⟩ := hgoes
    rw [endFinally_eq_replay hh]
    exact ⟨_, .endFinally hh hg, hone.trans hch⟩

theorem ret_settles (m : Machine) (o : Operand) (control : m.control = .fetch) :
    ∃ log, Course s m o (some .ret) log (settle s (m.pop s fun v m => m.giveBack v)) ∧
      Changes s m log (settle s (m.pop s fun v m => m.giveBack v)).machine := by
  unfold pop
  split
  · next hnone =>
    obtain ⟨ip, pc, hend⟩ := fail_eq_ended (s := s) (f := m.fault s .stackUnderflow) rfl true m m.loops
    refine ⟨[], ?_, Changes.quiet (fail_quiet rfl true m m.loops)⟩
    rw [underflow, settle, hend]
    exact .unreturned hnone rfl
  · next v stack htop =>
    obtain ⟨log, hch, hg⟩ := giveBack_proceeds (s := s) { m with stack := stack } v control
    exact ⟨log, .ret htop hg, Changes.after_quiet (m.quiet_stack stack)
      (settle_changes hch fun _ _ => giveBack_failed)⟩

theorem tryPop_settles (m : Machine) (o : Operand) :
    ∃ log, Course s m o (some .tryPop) log (settle s (m.popHandler s)) ∧
      Changes s m log (settle s (m.popHandler s)).machine := by
  unfold popHandler
  split
  · next hnone =>
    obtain ⟨ip, pc, hend⟩ := fail_eq_ended (s := s) (f := m.fault s .tryPopWithoutHandler) rfl true m
      m.loops
    refine ⟨[], ?_, Changes.quiet (fail_quiet rfl true m m.loops)⟩
    rw [settle, hend]
    exact .unopened (Or.inl rfl) hnone hnone
  · next hh =>
    exact ⟨[.popped], .tryPop hh rfl,
      Changes.one (Change.shift (by rw [hh]; exact Shift.popped) (by simp))⟩

theorem popScope_settles (m : Machine) (o : Operand) :
    Course s m o (some .popScope) [] (settle s (m.popScope s)) ∧
      Changes s m [] (settle s (m.popScope s)).machine := by
  have hother : ∀ t, some Opcode.popScope = some t →
      t.transfers = false ∨ t = .pushScope ∨ t = .popScope := by
    rintro t ⟨⟩
    exact Or.inr (Or.inr rfl)
  unfold popScope
  split
  · have hq := fail_quiet (s := s) (f := m.fault s .scopeUnderflow) rfl true m m.loops
    exact ⟨.still hother hq.handlers, Changes.quiet hq⟩
  · exact ⟨.still hother rfl, Changes.one (Change.popScope (by omega))⟩

/-- All instructions but the transfers leave the handlers alone and leave no scope. -/
theorem perform_plain (m : Machine) (o : Operand) {op : Opcode} (other : op.transfers = false) :
    (m.perform s o op).Plain s m := by
  have hstart : (Accord.plain s m o op).After 0 (fun _ => True) m Empty.elim :=
    ⟨Quiet.refl m, fun _ => trivial⟩
  exact (Accord.plain s m o op).perform hstart other fun _ _ => trivial

/-- So do the calls of an instruction, of whatever callee. -/
theorem call_plain (m : Machine) (callee : Value) (argc extra : Int) :
    (m.call s callee argc extra).Plain s m := by
  have hstart : (Accord.plain s m {} .call).After 0 (fun _ => True) m Empty.elim :=
    ⟨Quiet.refl m, fun _ => trivial⟩
  exact (Accord.plain s m {} .call).call rfl (by decide) hstart trivial trivial argc extra

/-- What one instruction does to a machine that has come to it. -/
theorem perform_settles (m : Machine) (o : Operand) (op : Opcode) (control : m.control = .fetch) :
    ∃ log, Course s m o (some op) log (settle s (m.perform s o op)) ∧
      Advances s m log (settle s (m.perform s o op)).machine := by
  cases hother : op.transfers with
  | false => exact settle_plain o hother (m.perform_plain o hother)
  | true =>
    cases op with
    | pushScope =>
      exact ⟨[], .still (by rintro t ⟨⟩; simp) rfl, Or.inl (Changes.one (Change.pushScope m))⟩
    | popScope =>
      obtain ⟨hc, hch⟩ := popScope_settles (s := s) m o
      exact ⟨[], hc, Or.inl hch⟩
    | leave =>
      obtain ⟨log, hch, hg⟩ := leaveTo_proceeds (s := s) m o.int.toInt o.int2.toInt control
      exact ⟨log, .leave hg, Or.inl (settle_changes hch fun _ _ => leaveTo_failed)⟩
    | ret =>
      obtain ⟨log, hc, hch⟩ := ret_settles (s := s) m o control
      exact ⟨log, hc, Or.inl hch⟩
    | tryPush =>
      exact ⟨[.pushed], .tryPush rfl rfl rfl rfl rfl, Or.inl (Changes.one (Change.pushHandler m _ _))⟩
    | tryPop =>
      obtain ⟨log, hc, hch⟩ := tryPop_settles (s := s) m o
      exact ⟨log, hc, Or.inl hch⟩
    | endFinally =>
      obtain ⟨log, hc, hch⟩ := endFinally_settles (s := s) m o control
      exact ⟨log, hc, Or.inl hch⟩
    | _ => cases hother

/-- The opcode of the instruction that the next step executes, none where it executes none. -/
def opcode? (s : Setup) (m : Machine) : Option Opcode :=
  match m.control with
  | .iterate => none
  | .fetch => (s.program.instruction? m.ip).bind fun ins => Opcode.ofCode? ins.op

theorem executes_of_opcode? {m : Machine} {op : Opcode} (h : m.opcode? s = some op) :
    m.control = .fetch ∧
      ∃ ins, s.program.instruction? m.ip = some ins ∧ Opcode.ofCode? ins.op = some op := by
  unfold opcode? at h
  cases hc : m.control with
  | iterate =>
    rw [hc] at h
    cases h
  | fetch =>
    rw [hc] at h
    exact ⟨rfl, Option.bind_eq_some_iff.mp h⟩

/-- An instruction that the next step executes: there is one, and the run is not stopped before it. -/
structure Starts (s : Setup) (m : Machine) (ins : Instruction) : Prop where
  control : m.control = .fetch
  has : s.program.instruction? m.ip = some ins
  go : m.tick.stopBefore? = none

theorem opcode?_of_starts {m : Machine} {ins : Instruction} (h : m.Starts s ins) :
    m.opcode? s = Opcode.ofCode? ins.op := by
  unfold opcode?
  rw [h.control, h.has]
  rfl

theorem instruction?_nonneg {p : Program} {address : Int} {ins : Instruction}
    (h : p.instruction? address = some ins) : 0 ≤ address := by
  unfold Program.instruction? at h
  split at h
  · cases h
  · omega

theorem Advances.after {m m' m'' : Machine} {log log' : List HandlerEvent}
    (h : Changes s m log m') (hf : m'.frames = m.frames) (h' : Advances s m' log' m'') :
    Advances s m (log ++ log') m'' := by
  rcases h' with h' | ⟨m₁, h', hf', hi⟩
  · exact Or.inl (h.trans h')
  · exact Or.inr ⟨m₁, h.trans h', hf'.trans hf, hi⟩

/-- The machine about to execute an instruction it has come to. -/
def begun (s : Setup) (m : Machine) (ins : Instruction) : Machine :=
  traced s { m.tick.markFinalizing with
    pc := m.tick.markFinalizing.ip, ip := m.tick.markFinalizing.ip + 1 } ins

theorem fetch_eq_settle {m : Machine} {ins : Instruction}
    (hi : s.program.instruction? m.ip = some ins) (hgo : m.tick.stopBefore? = none) :
    m.fetch s = settle s ((m.begun s ins).step s ins) := by
  unfold fetch
  rw [hi]
  dsimp only
  rw [hgo]
  rfl

theorem markFinalizing_eq (m : Machine) :
    m.markFinalizing = { m with handlers := m.markFinalizing.handlers } := by
  unfold markFinalizing
  split
  · rfl
  · split <;> rfl

/-- A handler that is marked has put nothing off. -/
theorem mem_markFinalizing {m : Machine} {d : Handler} (h : d ∈ m.markFinalizing.handlers) :
    d ∈ m.handlers ∨ ∃ e ∈ m.handlers, d = { e with phase := .finalizing .nothing } := by
  unfold markFinalizing at h
  split at h
  · exact .inl h
  · next e rest top =>
    split at h
    · rcases List.mem_cons.mp h with rfl | h
      · exact .inr ⟨e, top ▸ List.mem_cons_self .., rfl⟩
      · exact .inl (top ▸ List.mem_cons_of_mem _ h)
    · exact .inl h

/-- Coming to an instruction counts the step, notes an event at most, and may mark the innermost
handler. -/
theorem begun_eq (m : Machine) (ins : Instruction) :
    ∃ events, m.begun s ins = { m with
      world := { m.tick.world with events := events }
      handlers := m.tick.markFinalizing.handlers
      ip := m.ip + 1
      pc := m.ip
      steps := m.steps + 1 } := by
  unfold begun traced
  rw [markFinalizing_eq]
  split <;> exact ⟨_, rfl⟩

theorem begun_frames (m : Machine) (ins : Instruction) : (m.begun s ins).frames = m.frames := by
  obtain ⟨_, heq⟩ := m.begun_eq (s := s) ins
  rw [heq]

theorem begun_control (m : Machine) (ins : Instruction) : (m.begun s ins).control = m.control := by
  obtain ⟨_, heq⟩ := m.begun_eq (s := s) ins
  rw [heq]

theorem begun_handlers (m : Machine) (ins : Instruction) :
    (m.begun s ins).handlers = m.tick.markFinalizing.handlers := by
  obtain ⟨_, heq⟩ := m.begun_eq (s := s) ins
  rw [heq]

theorem begun_pc (m : Machine) (ins : Instruction) : (m.begun s ins).pc = m.ip := by
  obtain ⟨_, heq⟩ := m.begun_eq (s := s) ins
  rw [heq]

/-- The events of a whole step, and the state of the run after it. -/
inductive StepLog (s : Setup) (m : Machine) : List HandlerEvent → Status → Prop
  /-- The run ends before an instruction, or a native loop goes on. -/
  | idle {st : Status} (aside : ∀ ins, ¬ m.Starts s ins) (handlers : st.machine.handlers = m.handlers) :
      StepLog s m [] st
  | raises {f : Failure} {log : List HandlerEvent} {st : Status} (aside : ∀ ins, ¬ m.Starts s ins)
      (raises : Raised s m f log st) : StepLog s m log st
  | executes {ins : Instruction} {log : List HandlerEvent} {st : Status} (starts : m.Starts s ins)
      (elsewhere : ∀ h rest, ¬ m.Arrives h rest) (unmarked : (m.begun s ins).handlers = m.handlers)
      (course : Course s (m.begun s ins) ins.operand (Opcode.ofCode? ins.op) log st) :
      StepLog s m log st
  /-- Ordinary flow has come to the finally block of the top handler, which it enters first. -/
  | arrives {ins : Instruction} {h : Handler} {rest : List Handler} {log : List HandlerEvent}
      {st : Status} (starts : m.Starts s ins) (comes : m.Arrives h rest)
      (marked : (m.begun s ins).handlers = { h with phase := .finalizing .nothing } :: rest)
      (course : Course s (m.begun s ins) ins.operand (Opcode.ofCode? ins.op) log st) :
      StepLog s m (.arrived :: log) st

theorem step_settles (m : Machine) (ins : Instruction) (control : m.control = .fetch) :
    ∃ log, Course s m ins.operand (Opcode.ofCode? ins.op) log (settle s (m.step s ins)) ∧
      Advances s m log (settle s (m.step s ins)).machine := by
  unfold step
  cases Opcode.ofCode? ins.op with
  | some op => exact m.perform_settles ins.operand op control
  | none =>
    have hq := fail_quiet (s := s) (f := m.fault s (.unknownOpcode ins.op)) rfl true m m.loops
    exact ⟨[], .still (fun t ht => by cases ht) hq.handlers, Or.inl (Changes.quiet hq)⟩

theorem fetch_advances (m : Machine) (hc : m.control = .fetch) :
    ∃ log, StepLog s m log (m.fetch s) ∧ Advances s m log (m.fetch s).machine := by
  cases hi : s.program.instruction? m.ip with
  | none =>
    have haside : ∀ ins, ¬ m.Starts s ins := fun ins h => by simpa [hi] using h.has
    have hq : m.Quiet (m.fetch s).machine := by
      unfold fetch
      rw [hi]
      dsimp only
      split
      · exact m.deliver_quiet .null
      · have hpc : m.Quiet { m with pc := m.ip } := Quiet.of_eq rfl rfl rfl rfl rfl
        exact hpc.trans (fail_quiet rfl true _ m.loops)
    exact ⟨[], .idle haside hq.handlers, Or.inl (Changes.quiet hq)⟩
  | some ins =>
    have htick : m.Quiet m.tick := Quiet.of_eq rfl rfl rfl rfl rfl
    cases hgo : m.tick.stopBefore? with
    | some reason =>
      have haside : ∀ ins, ¬ m.Starts s ins := fun ins h => by simpa [hgo] using h.go
      have hq : m.Quiet (m.fetch s).machine := by
        unfold fetch
        rw [hi]
        dsimp only
        rw [hgo]
        exact htick.trans (fail_quiet rfl true _ m.loops)
      exact ⟨[], .idle haside hq.handlers, Or.inl (Changes.quiet hq)⟩
    | none =>
      have hstarts : m.Starts s ins := ⟨hc, hi, hgo⟩
      have hnote : m.tick.markFinalizing.Quiet (m.begun s ins) := by
        unfold begun traced
        split <;> exact Quiet.of_eq rfl rfl rfl rfl rfl
      have hcontrol : (m.begun s ins).control = .fetch := (m.begun_control ins).trans hc
      obtain ⟨log, hcourse, hadv⟩ := (m.begun s ins).step_settles (s := s) ins hcontrol
      rw [fetch_eq_settle hi hgo]
      rcases markFinalizing_changes (s := s) m.tick (instruction?_nonneg hi) with
        ⟨h, rest, hcomes, hmark, hmarked⟩ | ⟨helsewhere, hsame⟩
      · exact ⟨.arrived :: log, .arrives hstarts hcomes (hnote.handlers.trans hmarked) hcourse,
          Advances.after (Changes.after_quiet htick (hmark.then_quiet hnote)) (m.begun_frames ins)
            hadv⟩
      · rw [hsame] at hnote
        exact ⟨log, .executes hstarts helsewhere hnote.handlers hcourse,
          Advances.after (Changes.quiet (htick.trans hnote)) (m.begun_frames ins) hadv⟩

/-- Between instructions, handlers are left alone unless an exception is raised. -/
def Aside (s : Setup) (m : Machine) (log : List HandlerEvent) (st : Status) : Prop :=
  (log = [] ∧ st.machine.handlers = m.handlers) ∨ ∃ f, Raised s m f log st

theorem Quiet.aside {m : Machine} {st : Status} (h : m.Quiet st.machine) :
    ∃ log, Aside s m log st ∧ Advances s m log st.machine :=
  ⟨[], Or.inl ⟨rfl, h.handlers⟩, Or.inl (Changes.quiet h)⟩

theorem callBack_advances (m : Machine) (callee : Value) (args : List Value) :
    ∃ log, Aside s m log (m.callBack s callee args) ∧
      Advances s m log (m.callBack s callee args).machine := by
  have hfail (f : Failure) (n : Machine) (hq : m.Quiet n) (loops : List Loop) :
      ∃ log, Aside s m log (fail s false f n loops) ∧
        Advances s m log (fail s false f n loops).machine := by
    obtain ⟨log, hch, hr⟩ := fail_changes (s := s) false f n loops
    exact ⟨log, Or.inr ⟨f, hr.congr hq.handlers⟩, Or.inl (Changes.after_quiet hq hch)⟩
  unfold callBack
  split
  · exact hfail _ m (Quiet.refl m) m.loops
  · split
    · next c self _ =>
      split
      · exact hfail _ m (Quiet.refl m) m.loops
      · next hroom =>
        have hi := m.enterFrame_enters (s := s) c self args true (tooDeep?_eq_none hroom)
        exact ⟨[], Or.inl ⟨rfl, hi.handlers⟩, Or.inr ⟨m, Changes.refl m, rfl,
          ⟨hi.room, hi.frame, hi.handlers, hi.scopeDepth, hi.fresh, hi.parents⟩⟩⟩
    · have hq := callNative_quiet (s := s) m true callee args
      split
      · next heq =>
        rw [heq] at hq
        exact (hq.trans (deliver_quiet _ _)).aside
      · next heq =>
        rw [heq] at hq
        exact hfail _ _ hq _
      · next heq =>
        rw [heq] at hq
        exact Quiet.aside (hq.trans (Quiet.of_eq rfl rfl rfl rfl rfl))

theorem iterate_advances (m : Machine) :
    ∃ log, Aside s m log (m.iterate s) ∧ Advances s m log (m.iterate s).machine := by
  unfold iterate
  split
  · exact Quiet.aside (Quiet.of_eq rfl rfl rfl rfl rfl)
  · next l loops _ =>
    split
    · refine Quiet.aside ?_
      unfold endLoop
      dsimp only
      have hq : m.Quiet { m with world := (l.result m.world).2, loops := loops } :=
        Quiet.of_eq rfl rfl rfl rfl (l.result_works m.world : m.world.Works s.program true _).scopes
      split
      · exact hq.trans (deliver_quiet _ _)
      · exact hq.trans (Quiet.of_eq rfl rfl rfl rfl rfl)
    · next e rest _ =>
      let l' := { (l.take e rest).1 with boundary := m.frames.length + 1 }
      obtain ⟨log, hb, hadv⟩ := callBack_advances (s := s) { m with loops := l' :: loops } l'.callee
        (l.take e rest).2
      have hq : m.Quiet { m with loops := l' :: loops } := Quiet.of_eq rfl rfl rfl rfl rfl
      refine ⟨log, ?_, Advances.after (Changes.quiet hq) rfl hadv⟩
      rcases hb with hb | ⟨f, hr⟩
      · exact Or.inl hb
      · exact Or.inr ⟨f, hr.congr rfl⟩

/-- What one step does to a machine, whatever it executes. -/
theorem advance_advances (m : Machine) :
    ∃ log, StepLog s m log (m.advance s) ∧ Advances s m log (m.advance s).machine := by
  unfold advance
  split
  · next hc => exact fetch_advances m hc
  · next hc =>
    have haside : ∀ ins, ¬ m.Starts s ins := fun ins h => by simpa [hc] using h.control
    obtain ⟨log, hb, hadv⟩ := iterate_advances (s := s) m
    refine ⟨log, ?_, hadv⟩
    rcases hb with ⟨rfl, hsame⟩ | ⟨f, hr⟩
    · exact .idle haside hsame
    · exact .raises haside hr

end Machine

end BytecodeMachine
