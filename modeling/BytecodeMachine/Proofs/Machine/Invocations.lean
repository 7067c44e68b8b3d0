import BytecodeMachine.Proofs.Machine.Records

/-! What a step calls, and how it goes on. An instruction that calls looks its callee up and takes the
arguments off the stack, a native loop calls back with an element. Whatever else a step does, the
exceptions and the files are those that the call leaves, until the step has a failure to offer to the
handlers. -/
namespace BytecodeMachine

/-- A call that is carried out: the machine without its arguments, the callee and the arguments. -/
structure Invocation where
  machine : Machine
  callee : Value
  args : List Value

namespace Machine

variable {s : Setup} {m : Machine} {callee : Value} {argc extra : Int}

/-- What a call comes to that is not refused and has all its values on the stack. -/
def accepted? (s : Setup) (m : Machine) (callee : Value) (argc extra : Int) : Option Invocation :=
  if (callRefusal? s m callee argc).isNone && argc + extra ≤ (m.stack.length : Int) then
    some
      { machine := { m with stack := (m.stack.drop argc.toNat).drop extra.toNat }
        callee := callee
        args := (m.stack.take argc.toNat).reverse }
  else none

/-- What a call comes to whose callee is looked up first. -/
def found? (s : Setup) (m : Machine) (r : Reply Value) (argc extra : Int) : Option Invocation :=
  match r with
  | (.ok callee, w) => accepted? s { m with world := w } callee argc extra
  | (.error _, _) => none

/-- What an instruction calls. -/
def calls? (s : Setup) (m : Machine) (o : Operand) : Opcode → Option Invocation
  | .call => found? s m (m.calleeOfName s o.name) o.int.toInt 0
  | .callIndirect =>
    m.stack[o.int.toInt.toNat]?.bind fun callee => accepted? s m callee o.int.toInt 1
  | .callMethod =>
    m.stack[o.int.toInt.toNat]?.bind fun receiver =>
      found? s m (m.world.loadMember s.program (m.place s) receiver o.name) o.int.toInt 1
  | _ => none

/-- What the next step of a machine calls. -/
def invocation? (s : Setup) (m : Machine) : Option Invocation :=
  match m.control with
  | .fetch =>
    match s.program.instruction? m.ip, m.tick.stopBefore? with
    | some ins, none =>
      (Opcode.ofCode? ins.op).bind fun op => (m.begun s ins).calls? s ins.operand op
    | _, _ => none
  | .iterate =>
    match m.loops with
    | [] => none
    | l :: loops =>
      match l.rest with
      | [] => none
      | e :: rest =>
        let (l', args) := l.take e rest
        if (callbackRefusal? s l'.callee args).isNone then
          some
            { machine := { m with loops := { l' with boundary := m.frames.length + 1 } :: loops }
              callee := l'.callee
              args := args }
        else none

theorem argc_nonneg_of_accepted (h : callRefusal? s m callee argc = none) : 0 ≤ argc := by
  unfold callRefusal? Setup.refusal? at h
  split at h
  · cases h
  · next hr =>
    split at hr
    · cases hr
    · next a _ =>
      split at hr
      · next haccepts =>
        unfold Arity.accepts at haccepts
        rw [Bool.and_eq_true, decide_eq_true_eq] at haccepts
        omega
      · cases hr

end Machine

/-- A call made by a machine: what is around it is as the machine has it. -/
structure Invocation.By (c : Invocation) (m : Machine) : Prop where
  records : c.machine.world.records = m.world.records
  frames : c.machine.frames = m.frames
  loops : c.machine.loops = m.loops
  control : c.machine.control = m.control
  pc : c.machine.pc = m.pc

namespace Machine

variable {s : Setup} {m : Machine} {callee : Value} {argc extra : Int}

/-- An effect is that of the call, or there is no call and the machine stays where it is. -/
def CarriesOut (s : Setup) (m : Machine) (call : Option Invocation) (e : Effect) : Prop :=
  (∃ c, call = some c ∧ c.By m ∧ e = carryOut s c.machine c.callee c.args) ∨
    call = none ∧ e.Spares m

theorem call_carriesOut (m : Machine) (callee : Value) (argc : Int) (hextra : 0 ≤ extra) :
    m.CarriesOut s (accepted? s m callee argc extra) (m.call s callee argc extra) := by
  unfold accepted?
  cases hr : callRefusal? s m callee argc with
  | some e =>
    rw [call_of_refused hr]
    exact .inr ⟨rfl, m.failed_spares _⟩
  | none =>
    have hargc := argc_nonneg_of_accepted hr
    rw [call_of_accepted hr]
    unfold popCall
    -- The arguments are popped before the callee below them, and either may be missing.
    by_cases hall : argc + extra ≤ (m.stack.length : Int)
    · refine .inl ⟨_, if_pos (by simpa using hall), ⟨rfl, rfl, rfl, rfl, rfl⟩, ?_⟩
      rw [popMany_eq_of_le hargc (by omega), popMany_eq_of_le hextra]
      simp only [List.length_drop]
      omega
    · refine .inr ⟨if_neg (by simpa using hall), ?_⟩
      by_cases hfew : (m.stack.length : Int) < argc
      · rw [popMany_of_lt hfew]
        exact m.failed_spares _
      · rw [popMany_eq_of_le hargc (by omega), popMany_of_lt]
        · exact ⟨rfl, rfl, rfl, Nat.le_refl _⟩
        · simp only [List.length_drop]
          omega

/-- Looking a callee up may make functions and objects, but no exceptions, and uses no files. -/
theorem found_carriesOut {r : Reply Value} (same : r.2.records = m.world.records) (argc : Int)
    (hextra : 0 ≤ extra) : m.CarriesOut s (found? s m r argc extra)
      (m.reply r fun callee n => n.call s callee argc extra) := by
  obtain ⟨f | callee, w⟩ := r
  · exact .inr ⟨rfl, .of_world same⟩
  · have hcarries : CarriesOut s { m with world := w } _ _ :=
      call_carriesOut { m with world := w } callee argc hextra
    obtain ⟨c, hc, hby, hcall⟩ | ⟨hnone, hcall⟩ := hcarries
    · exact .inl ⟨c, hc, { hby with records := hby.records.trans same }, hcall⟩
    · exact .inr ⟨hnone, hcall.after (.of_world same)⟩

theorem peek_carriesOut {depth : Int} {call : Value → Option Invocation} {K : Value → Effect}
    (hneg : depth < 0 → ∀ v, call v = none) (hK : ∀ v, m.CarriesOut s (call v) (K v)) :
    m.CarriesOut s (m.stack[depth.toNat]?.bind call) (m.peek s depth K) := by
  by_cases hdepth : depth < 0
  · refine .inr ⟨?_, ?_⟩
    · cases m.stack[depth.toNat]? with
      | none => rfl
      | some v => exact hneg hdepth v
    · unfold peek
      rw [if_pos hdepth]
      exact m.failed_spares _
  · cases hv : m.stack[depth.toNat]? with
    | none =>
      rw [peek_of_none hv]
      exact .inr ⟨rfl, m.failed_spares _⟩
    | some v =>
      rw [peek_of_get hv (by omega)]
      exact hK v

theorem accepted?_of_neg (m : Machine) (callee : Value) (hargc : argc < 0) :
    accepted? s m callee argc extra = none := by
  refine if_neg fun h => ?_
  rw [Bool.and_eq_true, Option.isNone_iff_eq_none] at h
  exact absurd (argc_nonneg_of_accepted h.1) (by omega)

theorem found?_of_neg (m : Machine) (r : Reply Value) (hargc : argc < 0) :
    found? s m r argc extra = none := by
  unfold found?
  split
  · exact accepted?_of_neg _ _ hargc
  · rfl

/-- The transfers stay in place, too. -/
theorem perform_spares (m : Machine) (o : Operand) {op : Opcode} (other : op.calls = false) :
    (m.perform s o op).Spares m := by
  cases hop : op.transfers with
  | false =>
    have hstart : (Accord.spares s m o other).After 0 (fun _ => True) m Empty.elim :=
      ⟨.refl m, fun _ => trivial⟩
    exact (Accord.spares s m o other).perform hstart hop fun _ _ => trivial
  | true =>
    cases op
    case pushScope => exact ⟨rfl, rfl, rfl, Nat.le_refl _⟩
    case popScope =>
      dsimp only [perform, popScope]
      split
      · exact m.failed_spares _
      · exact leaveScopes_inPlace 1 m
    case leave => exact leaveTo_spares m _ _
    case ret =>
      change (m.pop s fun v m => m.giveBack v).Spares m
      cases hst : m.stack with
      | nil =>
        rw [pop_of_nil hst]
        exact m.failed_spares _
      | cons v stack =>
        rw [pop_of_cons hst]
        exact (giveBack_spares _ _).after ⟨rfl, rfl, rfl, Nat.le_refl _⟩
    case tryPush => exact ⟨rfl, rfl, rfl, Nat.le_refl _⟩
    case tryPop =>
      dsimp only [perform, popHandler]
      split
      · exact m.failed_spares _
      · exact ⟨rfl, rfl, rfl, Nat.le_refl _⟩
    case endFinally => exact endFinally_spares m
    all_goals cases hop

/-- An instruction carries out its call, if it makes one. -/
theorem perform_carriesOut (m : Machine) (o : Operand) (op : Opcode) :
    m.CarriesOut s (m.calls? s o op) (m.perform s o op) := by
  cases hop : op.calls with
  | false =>
    refine .inr ⟨?_, m.perform_spares o hop⟩
    cases op <;> first | rfl | cases hop
  | true =>
    cases op
    case call => exact found_carriesOut (m.records_calleeOfName o.name) o.int.toInt (Int.le_refl 0)
    case callIndirect =>
      exact peek_carriesOut (fun hneg v => accepted?_of_neg m v hneg)
        fun callee => call_carriesOut m callee o.int.toInt Int.one_nonneg
    case callMethod =>
      refine peek_carriesOut (fun hneg v => found?_of_neg m _ hneg) fun receiver => ?_
      exact found_carriesOut (World.records_loadMember _ _ _) o.int.toInt Int.one_nonneg
    all_goals cases hop

/-- An instruction that calls is one of three. -/
theorem isCall_of_calls? {o : Operand} {op : Opcode} {c : Invocation}
    (h : m.calls? s o op = some c) : op = .call ∨ op = .callIndirect ∨ op = .callMethod := by
  unfold calls? at h
  split at h
  · exact .inl rfl
  · exact .inr (.inl rfl)
  · exact .inr (.inr rfl)
  · cases h

/-- Coming to an instruction changes none of the records. -/
theorem records_begun (m : Machine) (ins : Instruction) :
    (m.begun s ins).world.records = m.world.records := by
  obtain ⟨_, heq⟩ := m.begun_eq (s := s) ins
  rw [heq]
  rfl

/-- An instruction that is executed carries out the call of its step, if there is one. -/
theorem step_carriesOut {ins : Instruction} (control : m.control = .fetch)
    (has : s.program.instruction? m.ip = some ins) (go : m.tick.stopBefore? = none) :
    (m.begun s ins).CarriesOut s (m.invocation? s) ((m.begun s ins).step s ins) := by
  unfold invocation? step
  rw [control]
  dsimp only
  rw [has, go]
  dsimp only
  cases Opcode.ofCode? ins.op with
  | none => exact .inr ⟨rfl, failed_spares _ _⟩
  | some op => exact perform_carriesOut _ ins.operand op

/-! How a step goes on. -/

theorem advance_of_fetch (control : m.control = .fetch) : m.advance s = m.fetch s := by
  rw [advance, control]

theorem advance_of_iterate (control : m.control = .iterate) : m.advance s = m.iterate s := by
  rw [advance, control]

/-- A loop that has an element left calls its callee. -/
theorem advance_of_take {l l' : Loop} {loops : List Loop} {e : Value} {rest args : List Value}
    (control : m.control = .iterate) (inner : m.loops = l :: loops) (next : l.rest = e :: rest)
    (taken : l.take e rest = (l', args)) :
    m.advance s = callBack s
      { m with loops := { l' with boundary := m.frames.length + 1 } :: loops } l'.callee args := by
  rw [advance_of_iterate control, iterate, inner]
  dsimp only
  rw [next]
  dsimp only
  rw [taken]

/-- A loop that calls back carries its call out. -/
theorem advance_of_invocation? {c : Invocation} (control : m.control = .iterate)
    (h : m.invocation? s = some c) : c.machine.world = m.world ∧
      callbackRefusal? s c.callee c.args = none ∧
      m.advance s = callBack s c.machine c.callee c.args := by
  unfold invocation? at h
  rw [control] at h
  dsimp only at h
  split at h
  · cases h
  · next l loops inner =>
    split at h
    · cases h
    · next e rest next =>
      obtain ⟨l', args, taken⟩ : ∃ l' args, l.take e rest = (l', args) := ⟨_, _, rfl⟩
      rw [taken] at h
      split at h
      · next accepted =>
        cases h
        refine ⟨rfl, Option.isNone_iff_eq_none.mp accepted, ?_⟩
        rw [advance_of_take control inner next taken, control]
      · cases h

theorem deliver_world (m : Machine) (v : Value) : (m.deliver v).machine.world = m.world := by
  unfold deliver
  split <;> rfl

/-- An exception that is offered to the handlers inside a loop is stamped, whether one takes it or
not. -/
theorem offer_world {q : Machine} {f : Failure} {exc : Nat} (he : m.exceptionOf f = some (exc, q))
    (b : Nat) :
    (∃ o, m.offer s f b = .inl o ∧ o.world = (stamp s q exc).world) ∨
      ∃ o, m.offer s f b = .inr (.rethrow exc, o) ∧ o.world = (stamp s q exc).world := by
  have hthrow := throwTo_world (stamp s q exc) exc b q.handlers
  unfold offer
  rw [he]
  dsimp only
  unfold throwException
  cases ht : (stamp s q exc).throwTo exc b q.handlers with
  | handled o =>
    rw [ht] at hthrow
    exact .inl ⟨_, rfl, hthrow⟩
  | escaped o =>
    rw [ht] at hthrow
    exact .inr ⟨_, rfl, hthrow⟩

/-- On its way outwards a failure does to the world what making an exception and stamping it do, once
or repeatedly. -/
theorem fail_world {R : World → World → Prop} (refl : ∀ w, R w w)
    (trans : ∀ {u v w}, R u v → R v w → R u w)
    (raise : ∀ {m q : Machine} {f : Failure} {exc : Nat}, m.exceptionOf f = some (exc, q) →
      R m.world (stamp s q exc).world)
    (inside : Bool) (f : Failure) (m : Machine) (loops : List Loop) :
    R m.world (fail s inside f m loops).machine.world := by
  have hoffer (m : Machine) (f : Failure) (b : Nat) :
      R m.world ((m.offer s f b).elim id (·.2)).world := by
    cases he : m.exceptionOf f with
    | none =>
      rw [offer, he]
      exact refl m.world
    | some r =>
      have hraise := raise he
      obtain ⟨o, ho, hworld⟩ | ⟨o, ho, hworld⟩ := offer_world (s := s) he b
      · rw [ho, Sum.elim_inl, id, hworld]
        exact hraise
      · rw [ho, Sum.elim_inr, hworld]
        exact hraise
  induction loops generalizing inside f m with
  | nil =>
    have ho := hoffer m f 0
    unfold fail
    split
    · next heq =>
      rw [heq] at ho
      exact ho
    · next heq =>
      rw [heq] at ho
      exact ho
  | cons l loops ih =>
    -- Only what comes from the instructions inside the loop is offered to the handlers inside it.
    have ho : R m.world
        ((if inside then m.offer s f l.boundary else .inr (f, m)).elim id (·.2)).world := by
      cases inside with
      | true => exact hoffer m f l.boundary
      | false => exact refl m.world
    unfold fail
    split
    · next heq =>
      rw [heq] at ho
      exact ho
    · next f' n heq =>
      rw [heq] at ho
      exact trans ho (ih _ _ { n with ip := l.ip, pc := l.pc })

end Machine

end BytecodeMachine
