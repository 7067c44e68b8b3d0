import BytecodeMachine.Proofs.Machine.Addresses
import BytecodeMachine.Proofs.Machine.Ordinary

/-! What each instruction of a program without defects can do: it keeps the machine linked, and where it
faults, the fault is one of its own. -/
namespace BytecodeMachine

variable {s : Setup}

/-- What a program without defects and its host promise. -/
structure Setup.Sound (s : Setup) : Prop where
  checked : s.program.Checked
  ends : s.regionEnds = Region.ends s.program.code
  host : ∀ h ∈ s.host, h.Linked s.program

theorem Setup.Sound.stable (sound : s.Sound) {F : Fault → Prop} :
    (Condition.linked s.program).Stable s.program fun n f => f.Linked s.program F n :=
  Condition.linked_stable sound.checked

/-- A native call that leaves the machine linked. -/
inductive Machine.Native.Linked (s : Setup) : Machine.Native → Prop
  | answered {v : Value} {m : Machine} (machine : m.Linked s.program)
      (value : v.Linked s.program m.world.objects) : Linked s (.answered (.ok v) m)
  | failed {f : Failure} {m : Machine} (machine : m.Linked s.program)
      (failure : f.Linked s.program (Fault.Listed s m.frames) m.world.objects) :
      Linked s (.answered (.error f) m)
  | loops {l : Loop} {m : Machine} (machine : m.Linked s.program)
      (loop : l.Linked s.program m.world.objects) : Linked s (.loops l m)

namespace Machine

variable {m : Machine}

/-- The instruction that a machine is executing. -/
structure Executes (s : Setup) (m : Machine) (ins : Instruction) (op : Opcode) : Prop where
  here : s.program.instruction? m.pc = some ins
  known : Opcode.ofCode? ins.op = some op

/-! Calls. -/

theorem callBuiltin_linked (sound : s.Sound) (h : m.Linked s.program) (b : Builtin)
    {args : List Value} (ha : ∀ v ∈ args, v.Linked s.program m.world.objects) :
    Reply.LinkedValue s.program (Fault.Listed s m.frames) m.world (callBuiltin s m b args) := by
  unfold callBuiltin
  split
  · exact (World.standard_obeys sound.stable h.world.obeys _ _ ha).linked
  · split
    · next f hf =>
      have hmem : f ∈ s.host := List.mem_of_find?_eq_some hf
      let view : HostView := ⟨s.program, m.world.store, m.depths⟩
      have hreply : (f.call view args).Linked s.program m.world.objects :=
        sound.host f hmem view args rfl h.world.store ha
      refine h.world.carryOut sound.checked hreply fun x hx => ?_
      exact .host hmem ⟨view, args, hx⟩
    · exact h.world.gives trivial

theorem answer_linked (h : m.Linked s.program) (name : Text) {r : Reply Value}
    (hr : Reply.LinkedValue s.program (Fault.Listed s m.frames) m.world r) :
    (m.answer name r).Linked s := by
  have hm : Linked s.program { m with world := r.2 } := h.with_world hr.world hr.grown
  unfold answer
  obtain ⟨r, w⟩ := r
  cases r with
  | ok v => exact .answered hm (hr.given v rfl)
  | error f => exact .failed hm ((hr.failed f rfl).named name)

theorem callMethod_linked (sound : s.Sound) (h : m.Linked s.program) (nested : Bool)
    (im : Intrinsic) (receiver : Value) {args : List Value}
    (ha : ∀ v ∈ args, v.Linked s.program m.world.objects) :
    (callMethod s m nested im receiver args).Linked s := by
  unfold callMethod
  dsimp only
  split
  · next gathered callee rest heq =>
    have helems := elements_hold (fun id => h.world.store.values.array id) receiver
    obtain ⟨hg, hc, hrest⟩ := loopOf?_holds trivial helems ha heq
    exact .loops h ⟨h.ip, h.pc, hc, hrest, hg⟩
  · exact .failed h trivial
  · exact answer_linked h _ (World.method_obeys sound.stable h.world.obeys _ _ ha).linked

theorem callNative_linked (sound : s.Sound) (h : m.Linked s.program) (nested : Bool)
    (callee : Value) {args : List Value}
    (ha : ∀ v ∈ args, v.Linked s.program m.world.objects) :
    (callNative s m nested callee args).Linked s := by
  unfold callNative
  split
  · exact answer_linked h _ (callBuiltin_linked sound h _ ha)
  · next heq =>
    exact callMethod_linked sound h nested _ _ fun v hv => ha v (args_of_target heq v hv)
  · exact .answered h trivial

/-- The entry of a linked closure is an address of the program. -/
theorem enterFrame_linked (sound : s.Sound) (h : m.Linked s.program) {c : Closure}
    (hc : c.Linked s.program) {self : Option Value}
    (hself : ∀ v ∈ self, v.Linked s.program m.world.objects) {args : List Value}
    (ha : ∀ v ∈ args, v.Linked s.program m.world.objects) (callback : Bool) :
    (m.enterFrame c self args callback).Linked s.program := by
  obtain ⟨key, fn, hget, -, hentry, -⟩ := hc
  -- Functions begin inside the code, so their first instruction is a place to stand.
  have haddress : s.program.Address c.entry := by
    have := sound.checked.entry hget
    rw [hentry]
    exact ⟨this.1, by omega⟩
  have hbound : Bound (Value.Linked s.program m.world.objects)
      ((self.toList.map fun v => (Text.ofString "self", v)) ++ c.params.zip args) := by
    intro e he
    rcases List.mem_append.mp he with he | he
    · obtain ⟨v, hv, rfl⟩ := List.mem_map.mp he
      exact hself v (Option.mem_toList.mp hv)
    · exact ha e.2 (List.of_mem_zip he).2
  have hscopes := (h.world.store.values.scopes.push (some c.scope)).bindings hbound
    m.world.store.scopes.cells.size
  have hm := h.with_world (h.world.with_scopes hscopes) (Nat.le_refl _)
  unfold enterFrame
  refine { hm with frames := fun f hf => ?_, ip := haddress }
  rcases List.mem_cons.mp hf with rfl | hf
  · exact h.ip
  · exact h.frames f hf

theorem closure_of_target {callee : Value} {args : List Value} {c : Closure}
    {self : Option Value} {n : Nat} (hc : callee.Linked s.program n)
    (h : Target.of callee args = .function c self) :
    c.Linked s.program ∧ ∀ v ∈ self, v.Linked s.program n := by
  unfold Target.of at h
  split at h <;> cases h
  · exact ⟨hc, fun v hv => by cases hv⟩
  · refine ⟨hc.1, fun v hv => ?_⟩
    cases hv
    exact hc.2

theorem startLoop_linked (h : m.Linked s.program) {l : Loop}
    (hl : l.Linked s.program m.world.objects) : (m.startLoop l).Linked s.program := by
  refine { h with loops := fun k hk => ?_ }
  rcases List.mem_cons.mp hk with rfl | hk
  · exact hl
  · exact h.loops k hk

theorem carryOut_linked (sound : s.Sound) (h : m.Linked s.program) {callee : Value}
    (hc : callee.Linked s.program m.world.objects) {args : List Value}
    (ha : ∀ v ∈ args, v.Linked s.program m.world.objects) :
    (carryOut s m callee args).Linked s := by
  unfold carryOut
  split
  · next c self heq =>
    obtain ⟨hclosure, hself⟩ := closure_of_target hc heq
    exact .next (enterFrame_linked sound h hclosure hself ha false)
  · have hn := callNative_linked sound h false callee ha
    cases hcall : callNative s m false callee args with
    | answered r n =>
      rw [hcall] at hn
      cases hn with
      | answered machine value => exact .next (machine.push value)
      | failed machine failure => exact .failed machine failure
    | loops l n =>
      rw [hcall] at hn
      cases hn with
      | loops machine loop => exact .next (startLoop_linked machine loop)

/-! Instructions. What they take off the stack is linked, as is what native code answers. -/

variable {ins : Instruction} {op : Opcode}

theorem fault_linked (h : m.Linked s.program) (ex : m.Executes s ins op) {c : FaultCause}
    (raised : op.Faults s.program ins.operand c) : (Effect.failed (m.fault s c) m).Linked s :=
  .failed h (.instruction ex.here ex.known raised)

theorem declare_linked (h : m.Linked s.program) (name : Text) {v : Value}
    (hv : v.Linked s.program m.world.objects) : (m.declare name v).Linked s.program :=
  h.with_world (h.world.with_scopes (h.world.store.values.scopes.declare name hv m.scope))
    (Nat.le_refl _)

theorem assign_linked (h : m.Linked s.program) (name : Text) {v : Value}
    (hv : v.Linked s.program m.world.objects) : (m.assign name v).Linked s := by
  unfold assign
  split
  · next scopes hs =>
    have hscopes := h.world.store.values.scopes.assign? hv hs
    exact .next (h.with_world (h.world.with_scopes hscopes) (Nat.le_refl _))
  · exact .failed h trivial

theorem calleeOfName_linked (sound : s.Sound) (h : m.Linked s.program) (name : Text)
    {F : Fault → Prop} : Reply.LinkedValue s.program F m.world (m.calleeOfName s name) :=
  (calleeOfName_obeys sound.stable h.world.obeys name).linked

theorem ask_linked (sound : s.Sound) (h : m.Linked s.program) {o : Operand} {q : Query}
    (asks : op.Asks s o (Value.Linked s.program m.world.objects) q) {F : Fault → Prop} :
    Reply.LinkedValue s.program F m.world (m.ask s q) :=
  (ask_obeys sound.stable h.world.obeys (fun hget => ⟨_, _, hget, rfl, rfl, rfl⟩) asks).linked

theorem print_linked (h : m.Linked s.program) (v : Value) : (m.print v).Linked s := by
  unfold print
  split
  · refine .next (h.with_world ?_ (Nat.le_refl _))
    exact h.world.of_values rfl
  · exact .failed h trivial

theorem thrown_linked {v : Value} (hv : v.Linked s.program m.world.objects) {F : Fault → Prop} :
    (m.thrown v).Linked s.program F m.world.objects := by
  unfold thrown
  split
  · exact trivial
  · exact hv

/-- To be linked is kept by all instructions but the transfers. A literal is never missing. -/
def Accord.linked (sound : s.Sound) (ins : Instruction) (op : Opcode) :
    Accord s ins.operand op Empty where
  After _ H n _ :=
    n.Linked s.program ∧ n.Executes s ins op ∧ H = Value.Linked s.program n.world.objects
  Ends _ _ e _ := e.Linked s
  stack _ i := i.elim
  truthy _ i := i.elim
  text _ _ i := i.elim
  refusal _ i := i.elim
  held h := h.2.2 ▸ h.1.stack
  data h hv := h.2.2 ▸ hv.plain.linked
  type h ht := h.2.2 ▸ Program.type_linked _ ht
  drop n h := ⟨h.1.with_stack fun _ => List.mem_of_mem_drop, ⟨h.2.1.here, h.2.1.known⟩, h.2.2⟩
  next vs h hvs := .next { h.1 with
    stack := List.forall_mem_append.mpr ⟨h.2.2 ▸ hvs, h.1.stack⟩ }
  fault h _ raised := by
    rcases raised with raised | ⟨rfl, missing⟩
    · exact fault_linked h.1 h.2.1 raised
    · have hthere := sound.checked.literal h.2.1.here h.2.1.known
      rw [missing] at hthere
      cases hthere
  raise _ h _ := .failed h.1 trivial
  thrown _ h hv := .failed h.1 (thrown_linked (h.2.2 ▸ hv))
  halt _ h := .failed h.1 trivial
  jump jumps h := .next (h.1.with_ip (sound.checked.target h.2.1.here h.2.1.known jumps))
  declare _ h hv := .next (declare_linked h.1 _ (h.2.2 ▸ hv))
  assign _ h hv := assign_linked h.1 _ (h.2.2 ▸ hv)
  print _ h _ := print_linked h.1 _
  ask {_ _ _ H n _ q _} h asks _ hK := by
    have hreply : Reply.LinkedValue s.program (Fault.Listed s n.frames) n.world (n.ask s q) :=
      ask_linked sound h.1 (h.2.2 ▸ asks)
    rcases hr : n.ask s q with ⟨f | v, w⟩ <;> rw [hr] at hreply
    · exact .failed (h.1.with_world hreply.world hreply.grown) (hreply.failed f rfl)
    · exact hK v w Empty.elim _ hr (hreply.given v rfl)
        ⟨h.1.with_world hreply.world hreply.grown, ⟨h.2.1.here, h.2.1.known⟩, rfl⟩
  tell {_ _ n _ u} h tells := by
    have hreply : Reply.Linked s.program (Fault.Listed s n.frames) (fun _ _ => True) n.world
        (n.tell s u) := (tell_obeys sound.stable h.1.world.obeys (h.2.2 ▸ tells)).linked
    rcases hr : n.tell s u with ⟨f | v, w⟩ <;> rw [hr] at hreply
    · exact .failed (h.1.with_world hreply.world hreply.grown) (hreply.failed f rfl)
    · exact .next (h.1.with_world hreply.world hreply.grown)
  carryOut _ h hc _ ha _ := carryOut_linked sound h.1 (h.2.2 ▸ hc) (h.2.2 ▸ ha)

/-- The handler of a region has the addresses that its instruction names, which are inside the code
where they are not negative. -/
theorem pushHandler_linked (sound : s.Sound) (h : m.Linked s.program)
    (ex : m.Executes s ins .tryPush) :
    (m.pushHandler s ins.operand.int.toInt ins.operand.int2.toInt).Linked s.program := by
  obtain ⟨hcatch, hfinally⟩ := sound.checked.handler ex.here ex.known
  refine { h with handlers := fun d hd => ?_ }
  rcases List.mem_cons.mp hd with rfl | hd
  · refine ⟨fun has => ?_, fun has => ?_, trivial⟩
    · exact ⟨of_decide_eq_true has, Int.le_of_lt hcatch⟩
    · exact ⟨of_decide_eq_true has, Int.le_of_lt hfinally⟩
  · exact h.handlers d hd

theorem ret_linked (h : m.Linked s.program) (ex : m.Executes s ins .ret) :
    (m.pop s fun v m => m.giveBack v).Linked s := by
  cases hst : m.stack with
  | nil =>
    rw [pop_of_nil hst]
    exact fault_linked h ex (.stackUnderflow (by decide))
  | cons v stack =>
    rw [pop_of_cons hst]
    refine giveBack_linked (h.with_stack fun u hu => ?_) (h.stack v ?_)
    · exact hst ▸ List.mem_cons_of_mem v hu
    · exact hst ▸ List.mem_cons_self ..

theorem perform_linked (sound : s.Sound) (h : m.Linked s.program) (ex : m.Executes s ins op) :
    (m.perform s ins.operand op).Linked s := by
  cases transfers : op.transfers with
  | false =>
    have hstart : (Accord.linked sound ins op).After 0 (Value.Linked s.program m.world.objects) m
        Empty.elim := ⟨h, ex, rfl⟩
    exact (Accord.linked sound ins op).perform hstart transfers fun _ _ => trivial
  | true =>
    cases op
    case pushScope =>
      have hscopes := h.world.store.values.scopes.push (some m.scope)
      exact .next { h.with_world (h.world.with_scopes hscopes) (Nat.le_refl _) with }
    case popScope =>
      dsimp only [perform, popScope]
      split
      · exact fault_linked h ex .scopeUnderflow
      · exact .next { h with }
    case leave =>
      exact leaveTo_linked h (sound.checked.target ex.here ex.known rfl)
        (.instruction ex.here ex.known .leavePast)
    case ret => exact ret_linked h ex
    case tryPush => exact .next (pushHandler_linked sound h ex)
    case tryPop =>
      dsimp only [perform, popHandler]
      split
      · exact fault_linked h ex .tryPopWithoutHandler
      · next d rest hd =>
        exact .next (h.with_handlers fun e he => h.handlers e (hd ▸ List.mem_cons_of_mem _ he))
    case endFinally =>
      exact endFinally_linked h (.instruction ex.here ex.known .endFinallyWithoutHandler)
        fun scopes => .instruction ex.here ex.known (.resumedLeavePast scopes)
    all_goals cases transfers

end Machine

end BytecodeMachine
