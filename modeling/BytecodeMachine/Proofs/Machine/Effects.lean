import BytecodeMachine.Proofs.Machine.Invocations
import BytecodeMachine.Proofs.Machine.Landing

/-! What the table of opcodes says of an instruction is what the machine does with it. An instruction
that takes a fixed number of values off the stack faults where there are fewer; where it goes on, it has
taken that many and put the listed number on what was below them. It moves the machine among frames,
scopes and handlers only where that is what it is for. -/
namespace BytecodeMachine

variable {s : Setup} {m m' : Machine} {o : Operand} {op : Opcode} {pops : Nat}

/-- The opcodes that hand control over to somewhere else, or end the run. -/
def Opcode.handsOver : Opcode → Bool
  | ret | throw | leave | endFinally | halt => true
  | _ => false

/-- Why an instruction faults that does not find its values. A type that is not there is missed before
the value to be stored in it. -/
def Opcode.Starves (s : Setup) (op : Opcode) (o : Operand) (c : FaultCause) : Prop :=
  c = .stackUnderflow ∨
    op = .storeStatic ∧ s.program.resolveType? o.name = none ∧ c = .undefinedType o.name

namespace Machine

/-- The machine after an instruction that does as the table says. -/
structure Tabled (m : Machine) (op : Opcode) (pops : Nat) (m' : Machine) : Prop where
  there : pops ≤ m.stack.length
  stack : ∃ new : List Value, new.length = op.info.pushes ∧ m'.stack = new ++ m.stack.drop pops
  frames : m'.frames = m.frames
  scope : op ≠ .pushScope → op ≠ .popScope → m'.scope = m.scope ∧ m'.scopeDepth = m.scopeDepth
  handlers : op ≠ .tryPush → op ≠ .tryPop → m'.handlers = m.handlers

end Machine

/-- The effect of an instruction that goes on only as the table says, and gives no value back. -/
def Effect.Tabled (op : Opcode) (pops : Nat) (m : Machine) : Effect → Prop
  | .next m' => m.Tabled op pops m'
  | .returned _ _ => False
  | .failed _ _ => True

namespace Machine

/-! Values that are not there. -/

/-- The effect of an instruction that finds too few values. -/
def Short (s : Setup) (m : Machine) (e : Effect) : Prop :=
  ∃ m', e = .failed (m.fault s .stackUnderflow) m'

theorem pop_short {k : Nat} {K : Value → Machine → Effect} (few : m.stack.length < k + 1)
    (hK : ∀ v stack, stack.length < k →
      Short s { m with stack := stack } (K v { m with stack := stack })) :
    m.Short s (m.pop s K) := by
  cases hst : m.stack with
  | nil => exact ⟨m, pop_of_nil hst K⟩
  | cons v stack =>
    rw [hst, List.length_cons] at few
    rw [pop_of_cons hst]
    exact hK v stack (Nat.lt_of_succ_lt_succ few)

theorem pop1_short {K : Value → Machine → Effect} (few : m.stack.length < 1) :
    m.Short s (m.pop s K) :=
  pop_short few fun _ _ hnone => absurd hnone (Nat.not_lt_zero _)

theorem pop2_short {K : Value → Value → Machine → Effect} (few : m.stack.length < 2) :
    m.Short s (m.pop2 s K) := pop_short few fun _ _ hone => pop1_short hone

theorem pop3_short {K : Value → Value → Value → Machine → Effect} (few : m.stack.length < 3) :
    m.Short s (m.pop3 s K) :=
  pop_short few fun _ _ htwo => pop_short htwo fun _ _ hone => pop1_short hone

theorem peek_short {K : Value → Effect} (few : m.stack.length < 1) : m.Short s (m.peek s 0 K) := by
  have hnone : m.stack[(0 : Int).toNat]? = none := List.getElem?_eq_none (by omega)
  exact ⟨m, peek_of_none hnone K⟩

/-- An instruction that takes values takes them first, except that one looks its type up before. -/
theorem perform_short (counted : op.info.pops = some pops) (few : m.stack.length < pops) :
    ∃ c m', op.Starves s o c ∧ m.perform s o op = .failed (m.fault s c) m' := by
  have hshort (h : m.Short s (m.perform s o op)) :
      ∃ c m', op.Starves s o c ∧ m.perform s o op = .failed (m.fault s c) m' := by
    obtain ⟨m', hm⟩ := h
    exact ⟨.stackUnderflow, m', Or.inl rfl, hm⟩
  cases op
  case storeStatic =>
    obtain rfl : 1 = pops := Option.some.inj counted
    cases ht : s.program.resolveType? o.name with
    | none =>
      refine ⟨.undefinedType o.name, m, Or.inr ⟨rfl, ht, rfl⟩, ?_⟩
      simp only [perform, withType, ht]
    | some t =>
      refine hshort ?_
      simp only [perform, withType, ht]
      exact pop1_short few
  case dup =>
    obtain rfl : 1 = pops := Option.some.inj counted
    exact hshort (peek_short few)
  case pop | varDecl | storeVar | neg | not | jumpIfFalse | jumpIfTrue | ret | loadMember | throw |
      print =>
    obtain rfl : 1 = pops := Option.some.inj counted
    refine hshort ?_
    simp only [perform, branch]
    exact pop1_short few
  case swap | add | sub | mul | div | mod | eq | ne | lt | le | gt | ge | indexGet | storeMember =>
    obtain rfl : 2 = pops := Option.some.inj counted
    exact hshort (pop2_short few)
  case indexSet | sliceGet =>
    obtain rfl : 3 = pops := Option.some.inj counted
    exact hshort (pop3_short few)
  case call | callIndirect | callMethod | makeArray | makeDict => cases counted
  -- The others take none, and there are not fewer than that.
  all_goals
    obtain rfl : 0 = pops := Option.some.inj counted
    exact absurd few (Nat.not_lt_zero _)

theorem there_of_next (counted : op.info.pops = some pops) (hn : m.perform s o op = .next m') :
    pops ≤ m.stack.length := by
  by_contra hfew
  obtain ⟨c, n, -, hfault⟩ := perform_short (s := s) (o := o) counted (Nat.lt_of_not_le hfew)
  cases hn.symm.trans hfault

/-! Values that are taken and put. -/

theorem takes_eq (counted : op.info.pops = some pops) (looks : op ≠ .dup) :
    m.takes s o op = pops := by
  unfold takes
  split
  · exact absurd rfl looks
  · cases counted
  · cases counted
  · cases counted
  · cases counted
  · cases counted
  · rw [counted]
    rfl

theorem puts_eq (looks : op ≠ .dup) : op.puts = op.info.pushes := by
  unfold Opcode.puts
  split
  · exact absurd rfl looks
  · rfl

theorem calls?_eq_none (counted : op.info.pops = some pops) : m.calls? s o op = none := by
  cases hcall : m.calls? s o op with
  | none => rfl
  | some c =>
    obtain rfl | rfl | rfl := isCall_of_calls? hcall <;> cases counted

/-- An instruction that takes a fixed number of values enters nothing. -/
theorem inPlace_of_next (counted : op.info.pops = some pops) (hn : m.perform s o op = .next m') :
    m.InPlace m' := by
  obtain ⟨c, hcall, -⟩ | ⟨-, hspares⟩ := perform_carriesOut (s := s) m o op
  · cases hcall.symm.trans (calls?_eq_none counted)
  · rw [hn] at hspares
    exact hspares

/-- One that only looks at the top value counts as taking it and putting it back. -/
theorem Calm.tabled (counted : op.info.pops = some pops) (there : pops ≤ m.stack.length)
    (calm : m.Calm (m.takes s o op) op.puts m') : m.Tabled op pops m' := by
  refine ⟨there, ?_, calm.frames, fun _ _ => ⟨calm.scope, calm.scopeDepth⟩, fun _ _ => calm.handlers⟩
  obtain ⟨new, hnew, hstack⟩ := calm.stack
  by_cases hdup : op = .dup
  · subst hdup
    obtain rfl : 1 = pops := Option.some.inj counted
    obtain ⟨v, stack, hst⟩ := List.exists_cons_of_length_pos there
    refine ⟨new ++ [v], ?_, ?_⟩
    · rw [List.length_append, hnew]
      rfl
    · rw [hstack, hst, List.append_assoc]
      rfl
  · rw [takes_eq counted hdup] at hstack
    exact ⟨new, hnew.trans (puts_eq hdup), hstack⟩

theorem ordinary_tabled (counted : op.info.pops = some pops) (ordinary : op.transfers = false)
    (hn : m.perform s o op = .next m') : m.Tabled op pops m' := by
  have there := there_of_next counted hn
  have hplace := inPlace_of_next counted hn
  have here {e : List Frame → List Loop → Effect}
      (same : ∀ F L, F.length = m.frames.length → (m.dress F L).perform s o op = e F L) :
      .next m' = e m.frames m.loops := hn.symm.trans (same m.frames m.loops rfl)
  cases perform_ordinary (s := s) (m := m) o ordinary with
  | @next n calm same =>
    have hdress : m' = n := by
      rw [Effect.next.inj (here same), ← calm.frames, ← calm.loops]
      rfl
    exact (hdress ▸ calm).tabled counted there
  | failed _ _ _ same => cases here same
  -- A call would leave a frame or a loop more than there was.
  | enters _ _ same =>
    have hheight := hplace.height
    rw [Effect.next.inj (here same)] at hheight
    exact absurd hheight (Nat.not_succ_le_self _)
  | loops _ _ _ _ same =>
    have hloops := hplace.loops
    rw [Effect.next.inj (here same)] at hloops
    exact absurd (congrArg List.length hloops) (Nat.succ_ne_self _)

/-- The instructions for scopes and for handlers take no value and put none. -/
theorem perform_tabled (counted : op.info.pops = some pops) (stays : op.handsOver = false) :
    Effect.Tabled op pops m (m.perform s o op) := by
  cases hordinary : op.transfers with
  | false =>
    cases he : m.perform s o op with
    | next m' => exact ordinary_tabled counted hordinary he
    | returned v m' => exact ordinary_ne_returned o hordinary v m' he
    | failed f m' => trivial
  | true =>
    cases op
    case ret | leave | endFinally => cases stays
    case pushScope =>
      obtain rfl : 0 = pops := Option.some.inj counted
      exact ⟨Nat.zero_le _, ⟨[], rfl, rfl⟩, rfl, fun h => absurd rfl h, fun _ _ => rfl⟩
    case popScope =>
      obtain rfl : 0 = pops := Option.some.inj counted
      simp only [perform, popScope]
      split
      · trivial
      · exact ⟨Nat.zero_le _, ⟨[], rfl, rfl⟩, rfl, fun _ h => absurd rfl h, fun _ _ => rfl⟩
    case tryPush =>
      obtain rfl : 0 = pops := Option.some.inj counted
      exact ⟨Nat.zero_le _, ⟨[], rfl, rfl⟩, rfl, fun _ _ => ⟨rfl, rfl⟩, fun h => absurd rfl h⟩
    case tryPop =>
      obtain rfl : 0 = pops := Option.some.inj counted
      simp only [perform, popHandler]
      split
      · trivial
      · exact ⟨Nat.zero_le _, ⟨[], rfl, rfl⟩, rfl, fun _ _ => ⟨rfl, rfl⟩, fun _ h => absurd rfl h⟩
    all_goals cases hordinary

theorem step_eq_perform {ins : Instruction} (known : Opcode.ofCode? ins.op = some op) :
    m.step s ins = m.perform s ins.operand op := by
  rw [step, known]

theorem begun_place {ins : Instruction} (has : s.program.instruction? m.ip = some ins)
    (known : Opcode.ofCode? ins.op = some op) :
    (m.begun s ins).place s = ⟨m.ip, op.mnemonic⟩ := by
  rw [place, begun_pc, has]
  dsimp only
  rw [Opcode.nameOfCode, known]

/-- What comes before an instruction leaves the machine as it is, but for the phase of a handler whose
finally block flow has come to. -/
theorem Tabled.of_begun {ins : Instruction} (h : (m.begun s ins).Tabled op pops m') :
    Tabled { m with handlers := m.tick.markFinalizing.handlers } op pops m' := by
  have hsame := m.begun_same (s := s) ins
  refine ⟨hsame.stack ▸ h.there, hsame.stack ▸ h.stack, h.frames.trans hsame.frames,
    fun hpush hpop => ?_, fun hpush hpop => ?_⟩
  · obtain ⟨hscope, hdepth⟩ := h.scope hpush hpop
    exact ⟨hscope.trans hsame.scope, hdepth.trans hsame.scopeDepth⟩
  · exact (h.handlers hpush hpop).trans (m.begun_handlers ins)

end Machine

/-- A step of a run that comes to an instruction. -/
theorem Setup.stateAfter_of_fetch {w : World} {r : RunOptions} {n : Nat} {ins : Instruction}
    (running : s.stateAfter w r n = .running m) (control : m.control = .fetch)
    (has : s.program.instruction? m.ip = some ins) (go : m.tick.stopBefore? = none) :
    s.stateAfter w r (n + 1) = Machine.settle s ((m.begun s ins).step s ins) := by
  rw [stateAfter_succ, running]
  exact (Machine.advance_of_fetch control).trans (Machine.fetch_eq_settle has go)

/-- The table of opcodes is right about the machine. Take an instruction that the table says takes a
fixed number of values, and that does not hand control over. On a stack of fewer values it faults,
wherever it stands. Otherwise it fails, or it goes on with as many values taken from the top of the
stack as the table says, as many put, those below untouched, and with frames, scope and handlers left
alone but by the instructions made for them. A run that comes to the instruction ends with the fault,
or goes on likewise. -/
theorem Setup.step_follows_opcode_table {ins : Instruction} (known : Opcode.ofCode? ins.op = some op)
    (counted : op.info.pops = some pops) (stays : op.handsOver = false) (m : Machine) :
    (m.stack.length < pops →
      ∃ c m', op.Starves s ins.operand c ∧ m.step s ins = .failed (m.fault s c) m') ∧
    Effect.Tabled op pops m (m.step s ins) ∧
    ∀ w r n, s.stateAfter w r n = .running m → m.control = .fetch →
      s.program.instruction? m.ip = some ins → m.tick.stopBefore? = none →
        (m.stack.length < pops →
          ∃ c m', op.Starves s ins.operand c ∧
            s.stateAfter w r (n + 1) = .ended (.fault ⟨m.ip, op.mnemonic, c⟩) m') ∧
        ∀ m', (m.begun s ins).step s ins = .next m' →
          s.stateAfter w r (n + 1) = .running m' ∧
            Machine.Tabled { m with handlers := m.tick.markFinalizing.handlers } op pops m' := by
  have hshort (m : Machine) (few : m.stack.length < pops) :
      ∃ c m', op.Starves s ins.operand c ∧ m.step s ins = .failed (m.fault s c) m' := by
    rw [Machine.step_eq_perform known]
    exact Machine.perform_short counted few
  have htabled (m : Machine) : Effect.Tabled op pops m (m.step s ins) := by
    rw [Machine.step_eq_perform known]
    exact Machine.perform_tabled counted stays
  refine ⟨hshort m, htabled m, fun w r n running control has go => ⟨fun few => ?_, fun m' hn => ?_⟩⟩
  · obtain ⟨c, n', hstarves, hfails⟩ := hshort (m.begun s ins)
      ((m.begun_same ins).stack.symm ▸ few)
    obtain ⟨ip, pc, hended⟩ := Machine.fail_eq_ended (s := s) (f := (m.begun s ins).fault s c) rfl
      true n' n'.loops
    refine ⟨c, { n' with loops := [], ip := ip, pc := pc }, hstarves, ?_⟩
    rw [stateAfter_of_fetch running control has go, hfails, Machine.settle, hended, Machine.fault,
      Machine.begun_place has known]
    rfl
  · have hbegun := htabled (m.begun s ins)
    rw [hn] at hbegun
    refine ⟨?_, hbegun.of_begun⟩
    rw [stateAfter_of_fetch running control has go, hn]
    rfl

/-- Two values that are swapped, and one that cannot be. -/
def Program.swapping : Program where
  code? := some #[
    { op := Opcode.pushTrue.code },
    { op := Opcode.pushNull.code },
    { op := Opcode.swap.code },
    { op := Opcode.pop.code },
    { op := Opcode.swap.code }]

def Setup.swapping : Setup where
  program := Program.swapping
  regionEnds := Region.ends Program.swapping.code

theorem Setup.swapping_follows_opcode_table :
    Opcode.ofCode? Opcode.swap.code = some .swap ∧ Opcode.swap.info.pops = some 2 ∧
    Opcode.swap.handsOver = false ∧
    (∃ m m', swapping.stateAfter {} {} 2 = .running m ∧ swapping.stateAfter {} {} 3 = .running m' ∧
      Machine.Tabled { m with handlers := m.tick.markFinalizing.handlers } .swap 2 m') ∧
    ∃ c m', swapping.stateAfter {} {} 5 = .ended (.fault ⟨4, Opcode.swap.mnemonic, c⟩) m' := by
  let swap : Instruction := { op := Opcode.swap.code }
  have hknown : Opcode.ofCode? swap.op = some .swap := by decide
  have hcounted : Opcode.swap.info.pops = some 2 := rfl
  have hstays : Opcode.swap.handsOver = false := rfl
  have hfollows := step_follows_opcode_table (s := swapping) hknown hcounted hstays
  obtain ⟨m, running, control, has, go, m', hn⟩ : ∃ m, swapping.stateAfter {} {} 2 = .running m ∧
      m.control = .fetch ∧ swapping.program.instruction? m.ip = some swap ∧
      m.tick.stopBefore? = none ∧
      ∃ m', (m.begun swapping swap).step swapping swap = .next m' := ⟨_, rfl, rfl, rfl, rfl, _, rfl⟩
  obtain ⟨hrunning, htabled⟩ := ((hfollows m).2.2 {} {} 2 running control has go).2 m' hn
  obtain ⟨n, running', control', has', go', few, place⟩ : ∃ n,
      swapping.stateAfter {} {} 4 = .running n ∧ n.control = .fetch ∧
      swapping.program.instruction? n.ip = some swap ∧ n.tick.stopBefore? = none ∧
      n.stack.length < 2 ∧ n.ip = 4 := ⟨_, rfl, rfl, rfl, rfl, Nat.lt_succ_self 1, rfl⟩
  obtain ⟨c, n', -, hended⟩ := ((hfollows n).2.2 {} {} 4 running' control' has' go').1 few
  rw [place] at hended
  exact ⟨hknown, hcounted, hstays, ⟨m, m', running, hrunning, htabled⟩, c, n', hended⟩

end BytecodeMachine
