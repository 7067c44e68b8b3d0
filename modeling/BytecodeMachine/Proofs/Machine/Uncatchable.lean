import BytecodeMachine.Proofs.Machine.WellFormed

/-! Failures that are no exceptions. A fault, the end of the program or a stop from outside ends a run
at once, at any depth of native loops. A refused write does so only outside all loops: the innermost
loop takes it for an error of the host and raises an exception of its own. -/
namespace BytecodeMachine

variable {s : Setup}

def Failure.isException : Failure → Bool
  | .raise _ _ | .rethrow _ => true
  | _ => false

theorem Failure.named_of_isException {f : Failure} (h : f.isException = true) (name : Text) :
    f.named name = f := by
  cases f <;> first | rfl | cases h

/-- An error of the output or the host becomes an exception. -/
theorem Failure.isException_named {f : Failure} (h : f.isFinal = false) (name : Text) :
    (f.named name).isException = true := by
  cases f <;> first | rfl | cases h

namespace Machine

/-- What the next step of a machine fails with, and the machine that meets the failure. -/
inductive Fails (s : Setup) (m : Machine) : Failure → Machine → Prop
  | outside (control : m.control = .fetch) (none : s.program.instruction? m.ip = none)
      (past : (m.ip = (s.program.code.size : Int) && m.frames.isEmpty) = false) :
      Fails s m ({ m with pc := m.ip }.fault s (.outsideProgram m.ip)) { m with pc := m.ip }
  | stopped {ins : Instruction} {reason : StopReason} (control : m.control = .fetch)
      (has : s.program.instruction? m.ip = some ins) (stop : m.tick.stopBefore? = some reason) :
      Fails s m (.stopped reason) m.tick
  | instruction {ins : Instruction} {f : Failure} {m' : Machine} (control : m.control = .fetch)
      (has : s.program.instruction? m.ip = some ins) (go : m.tick.stopBefore? = none)
      (failed : (m.begun s ins).step s ins = .failed f m') : Fails s m f m'
  /-- A native function that a loop calls back. -/
  | callback {l l' : Loop} {loops : List Loop} {e : Value} {rest args : List Value} {f : Failure}
      {m' : Machine} (control : m.control = .iterate) (inner : m.loops = l :: loops)
      (next : l.rest = e :: rest) (taken : l.take e rest = (l', args))
      (accepted : callbackRefusal? s l'.callee args = none)
      (failed : callNative s
        { m with loops := { l' with boundary := m.frames.length + 1 } :: loops } true l'.callee args
          = .answered (.error f) m') : Fails s m f m'

/-- Native functions answer with exceptions and final failures only. -/
theorem callNative_error {m m' : Machine} {nested : Bool} {callee : Value} {args : List Value}
    {f : Failure} (h : callNative s m nested callee args = .answered (.error f) m') :
    f.isException = true ∨ f.isFinal = true := by
  have hanswer {m : Machine} {name : Text} {r : Reply Value}
      (h : m.answer name r = .answered (.error f) m') :
      f.isException = true ∨ f.isFinal = true := by
    obtain ⟨r, w⟩ := r
    cases r with
    | ok v => cases h
    | error g =>
      cases h
      cases hg : g.isFinal with
      | false => exact Or.inl (Failure.isException_named hg name)
      | true => exact Or.inr (by rwa [Failure.named_of_isFinal hg])
  unfold callNative at h
  split at h
  · exact hanswer h
  · unfold callMethod at h
    dsimp only at h
    split at h
    · cases h
    · cases h
      exact Or.inl rfl
    · exact hanswer h
  · cases h

/-- A step that fails hands its failure to the loops around it. -/
theorem Fails.advance_eq {m m' : Machine} {f : Failure} (h : m.Fails s f m') :
    ∃ inside, m.advance s = fail s inside f m' m'.loops ∧
      (inside = true ∨ f.isException = true ∨ f.isFinal = true) := by
  cases h with
  | outside control none past =>
    refine ⟨true, ?_, Or.inl rfl⟩
    unfold advance fetch
    rw [control]
    dsimp only
    rw [none, past]
    rfl
  | stopped control has stop =>
    refine ⟨true, ?_, Or.inl rfl⟩
    unfold advance fetch
    rw [control]
    dsimp only
    rw [has]
    dsimp only
    rw [stop]
  | instruction control has go failed =>
    refine ⟨true, ?_, Or.inl rfl⟩
    unfold advance
    rw [control]
    dsimp only
    rw [fetch_eq_settle has go, failed]
    rfl
  | callback control inner next taken accepted failed =>
    refine ⟨false, ?_, Or.inr (callNative_error failed)⟩
    unfold advance
    rw [control]
    dsimp only
    unfold iterate
    rw [inner]
    dsimp only
    rw [next]
    dsimp only
    rw [taken]
    dsimp only
    unfold callBack
    rw [accepted]
    dsimp only
    split
    · next target =>
      unfold callNative at failed
      rw [target] at failed
      cases failed
    · rw [failed]

theorem exceptionOf_eq_some {f : Failure} (hf : f.isException = true) (m : Machine) :
    ∃ id q, m.exceptionOf f = some (id, q) := by
  cases f with
  | raise => exact ⟨_, _, rfl⟩
  | rethrow => exact ⟨_, _, rfl⟩
  | _ => cases hf

/-- An exception that no handler takes is passed on as the exception that it has become. -/
theorem offer_eq_inr {f g : Failure} {b : Nat} {m n : Machine} (hf : f.isException = true)
    (h : m.offer s f b = .inr (g, n)) : ∃ id q, m.exceptionOf f = some (id, q) ∧
      g = .rethrow id ∧ (stamp s q id).throwTo id b q.handlers = .escaped n := by
  obtain ⟨id, q, he⟩ := exceptionOf_eq_some hf m
  unfold offer at h
  rw [he] at h
  dsimp only [throwException] at h
  cases ht : (stamp s q id).throwTo id b q.handlers with
  | handled o =>
    rw [ht] at h
    cases h
  | escaped o =>
    rw [ht] at h
    cases h
    exact ⟨id, q, he, rfl, ht⟩

/-- An exception that ends a run ends it as one. -/
theorem fail_exception {inside : Bool} {f : Failure} {m m' : Machine} {loops : List Loop}
    {e : Ending} (hf : f.isException = true) (h : fail s inside f m loops = .ended e m') :
    ∃ id, e = .exception id := by
  have hoffer (m : Machine) (boundary : Nat) {f : Failure} (hf : f.isException = true) :
      (∃ m', m.offer s f boundary = .inl m') ∨
        ∃ id m', m.offer s f boundary = .inr (.rethrow id, m') := by
    cases ho : m.offer s f boundary with
    | inl m' => exact Or.inl ⟨m', rfl⟩
    | inr r =>
      obtain ⟨id, -, -, hg, -⟩ := offer_eq_inr hf ho
      exact Or.inr ⟨id, r.2, congrArg Sum.inr (Prod.ext hg rfl)⟩
  induction loops generalizing inside f m with
  | nil =>
    unfold fail at h
    obtain ⟨m₁, ho⟩ | ⟨id, m₁, ho⟩ := hoffer m 0 hf
    · rw [ho] at h
      cases h
    · rw [ho] at h
      cases h
      exact ⟨id, rfl⟩
  | cons l loops ih =>
    unfold fail at h
    cases inside with
    | false =>
      simp only [Bool.false_eq_true, if_false] at h
      rw [Failure.named_of_isException hf] at h
      exact ih hf h
    | true =>
      simp only [if_true] at h
      obtain ⟨m₁, ho⟩ | ⟨id, m₁, ho⟩ := hoffer m l.boundary hf
      · rw [ho] at h
        cases h
      · rw [ho] at h
        exact ih rfl h

/-- The innermost loop names itself in a failure that no handler inside it is offered. -/
theorem fail_cons {f : Failure} (hf : f.isException = false) (m : Machine) (l : Loop)
    (loops : List Loop) :
    fail s true f m (l :: loops) =
      fail s (!l.nested) (f.named l.name) { m with ip := l.ip, pc := l.pc } loops := by
  cases f <;> first | rfl | cases hf

theorem endingOf_ne_exception {f : Failure} (hf : f.isException = false) (id : Nat) :
    endingOf f ≠ .exception id := by
  intro he
  cases f with
  | rethrow => cases hf
  | raise | fault | halt | stopped | output | host => cases he

/-- A failure that is no exception ends the run as it is where it is final, or outside all loops. -/
theorem fail_ended_iff {f : Failure} (hf : f.isException = false) (m : Machine)
    (loops : List Loop) :
    (∃ m', fail s true f m loops = .ended (endingOf f) m') ↔ f.isFinal = true ∨ loops = [] := by
  constructor
  · rintro ⟨m', h⟩
    by_contra hno
    obtain ⟨hfinal, hloops⟩ := not_or.mp hno
    obtain ⟨l, loops, rfl⟩ := List.exists_cons_of_ne_nil hloops
    rw [fail_cons hf] at h
    obtain ⟨id, he⟩ := fail_exception
      (Failure.isException_named (Bool.eq_false_iff.mpr hfinal) l.name) h
    exact endingOf_ne_exception hf id he
  · rintro (hfinal | rfl)
    · obtain ⟨ip, pc, he⟩ := fail_eq_ended (s := s) hfinal true m loops
      exact ⟨_, he⟩
    · refine ⟨{ m with loops := [] }, ?_⟩
      cases f <;> first | rfl | cases hf

end Machine

theorem Setup.stateAfter_ended {w : World} {o : RunOptions} {n : Nat} {e : Ending} {m : Machine}
    (h : s.stateAfter w o n = .ended e m) (k : Nat) : s.stateAfter w o (n + k) = .ended e m :=
  Machine.runFor_mono h (Nat.le_add_right n k)

/-- A step that fails with no exception ends the run with that very failure exactly when the failure
is a fault, the end of the program or a stop, or when no native loop is under way; then no handler
runs and nothing is executed any more. A refused write inside a loop is raised as an exception at the
call that started the loop. -/
theorem Setup.nonexception_ends_run_iff {w : World} {o : RunOptions} {n : Nat} {m m' : Machine}
    {f : Failure} (running : s.stateAfter w o n = .running m) (fails : m.Fails s f m')
    (hf : f.isException = false) :
    ((∃ m'', s.stateAfter w o (n + 1) = .ended (Machine.endingOf f) m'') ↔
        f.isFinal = true ∨ m'.loops = []) ∧
      (f.isFinal = true ∨ m'.loops = [] → ∃ ip pc, ∀ k,
        s.stateAfter w o (n + 1 + k) =
          .ended (Machine.endingOf f) { m' with loops := [], ip := ip, pc := pc }) ∧
      ∀ t l loops, f = .output t → m'.loops = l :: loops →
        s.stateAfter w o (n + 1) = Machine.fail s (!l.nested) (.of (.host l.name t))
          { m' with ip := l.ip, pc := l.pc } loops := by
  have hnext : s.stateAfter w o (n + 1) = m.advance s := by
    rw [stateAfter_succ, running]
    rfl
  obtain ⟨inside, hadv, hin⟩ := fails.advance_eq
  have hstep : s.stateAfter w o (n + 1) = Machine.fail s true f m' m'.loops ∨
      f.isFinal = true ∧ s.stateAfter w o (n + 1) = Machine.fail s inside f m' m'.loops := by
    rcases hin with rfl | hex | hfinal
    · exact Or.inl (hnext.trans hadv)
    · simp [hf] at hex
    · exact Or.inr ⟨hfinal, hnext.trans hadv⟩
  have hends (h : f.isFinal = true ∨ m'.loops = []) : ∃ ip pc, s.stateAfter w o (n + 1) =
      .ended (Machine.endingOf f) { m' with loops := [], ip := ip, pc := pc } := by
    cases hfinal : f.isFinal with
    | true =>
      obtain ⟨ip, pc, he⟩ := Machine.fail_eq_ended (s := s) hfinal inside m' m'.loops
      exact ⟨ip, pc, (hnext.trans hadv).trans he⟩
    | false =>
      have hloops : m'.loops = [] := h.resolve_left (by simp [hfinal])
      rcases hstep with hstep | ⟨hyes, _⟩
      · refine ⟨m'.ip, m'.pc, ?_⟩
        rw [hstep, hloops]
        cases f <;> first | rfl | cases hf
      · simp [hfinal] at hyes
  refine ⟨⟨fun ⟨m'', he⟩ => ?_, fun h => ?_⟩, fun h => ?_, fun t l loops hft hl => ?_⟩
  · rcases hstep with hstep | ⟨hyes, _⟩
    · exact (Machine.fail_ended_iff hf m' m'.loops).mp ⟨m'', hstep ▸ he⟩
    · exact Or.inl hyes
  · obtain ⟨ip, pc, he⟩ := hends h
    exact ⟨_, he⟩
  · obtain ⟨ip, pc, he⟩ := hends h
    exact ⟨ip, pc, stateAfter_ended he⟩
  · subst hft
    rcases hstep with hstep | ⟨hyes, _⟩
    · have hinner : Machine.fail s true (.output t) m' m'.loops =
          Machine.fail s true (.output t) m' (l :: loops) := by rw [hl]
      exact (hstep.trans hinner).trans (Machine.fail_cons hf m' l loops)
    · cases hyes

/-- Maps a function over an array inside a protected region; all the function does to an element is
one instruction. -/
def Program.mapping (op : Opcode) : Program where
  code? := some #[
    { op := Opcode.tryPush.code, operand := { int := 6, int2 := -1 } },
    { op := Opcode.pushConst.code, operand := { lit := some (Literal.ofInt 1) } },
    { op := Opcode.makeArray.code, operand := { int := 1 } },
    { op := Opcode.pushClosure.code, operand := { name := [102] } },
    { op := Opcode.callMethod.code, operand := { name := "map", int := 1 } },
    { op := Opcode.halt.code },
    { op := Opcode.ret.code },
    { op := Opcode.loadVar.code, operand := { name := [120] } },
    { op := op.code },
    { op := Opcode.pushNull.code },
    { op := Opcode.ret.code }]
  functions := Table.ofList [([102], { name := [102], address := 7, params := [[120]] })]

def Setup.mapping (op : Opcode) : Setup where
  program := Program.mapping op
  regionEnds := Region.ends (Program.mapping op).code

/-- A program that ends inside a callback ends at once, under the handler around the call. -/
theorem Setup.halt_in_callback_ends_run : ∃ m m',
    (mapping .halt).stateAfter {} {} 7 = .running m ∧
      m.Fails (mapping .halt) (.halt .null) m' ∧ m'.loops.length = 1 ∧ m'.handlers.length = 1 ∧
      ∃ ip pc, ∀ k, (mapping .halt).stateAfter {} {} (7 + 1 + k) =
        .ended (.value .null) { m' with loops := [], ip := ip, pc := pc } := by
  let m := ((mapping .halt).stateAfter {} {} 7).machine
  have hm : (mapping .halt).stateAfter {} {} 7 = .running m := rfl
  obtain ⟨m', hf, hl, hh⟩ : ∃ m', m.Fails (mapping .halt) (.halt .null) m' ∧
      m'.loops.length = 1 ∧ m'.handlers.length = 1 :=
    ⟨_, .instruction rfl rfl rfl rfl, rfl, rfl⟩
  exact ⟨m, m', hm, hf, hl, hh, (nonexception_ends_run_iff hm hf rfl).2.1 (Or.inl rfl)⟩

/-- A refused write inside a callback is caught by the handler around the call, so failures that are
no exceptions do not all end the run. -/
theorem Setup.print_in_callback_is_caught :
    ¬ ∀ (p : Program) (options : Options) (s : Setup) (w : World) (o : RunOptions) (n : Nat)
      (m m' : Machine) (f : Failure), Setup.prepare p options = .ok s →
      s.stateAfter w o n = .running m → m.Fails s f m' → f.isException = false →
      ∃ m'', s.stateAfter w o (n + 1) = .ended (Machine.endingOf f) m'' := by
  intro h
  obtain ⟨m'', he⟩ := h (.mapping .print) {} (mapping .print) {} { outputLimit := some 1 } 7 _ _
    (.output "vm: print: output limit") rfl rfl (.instruction rfl rfl rfl rfl) rfl
  cases he

end BytecodeMachine
