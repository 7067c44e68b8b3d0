import BytecodeMachine.Proofs.Machine.Threads
import Mathlib.Algebra.GroupWithZero.Nat

/-! How deep callbacks are nested. The depth of calls bounds them as far as they have frames. A loop
that another loop calls has none, and nothing counts such calls: an array that holds its own methods
nests them without an end. -/
namespace BytecodeMachine

variable {s : Setup}

namespace Machine

/-- How many callbacks are under way inside one another: every loop waits for one, but for the
innermost loop where it is about to make its next one. -/
def activations (m : Machine) : Nat :=
  match m.control with
  | .fetch => m.loops.length
  | .iterate => m.loops.length - 1

/-- How many loops another loop has called, without a function in between. -/
def nestedLoops (m : Machine) : Nat := m.loops.countP (·.nested)

/-- The elements that the loops under way have still to go through, and their ends. -/
def owed (m : Machine) : Nat := (m.loops.map fun l => l.rest.length + 1).sum

/-- The innermost loop calls another one directly. -/
def CallsLoop (s : Setup) (m : Machine) : Prop :=
  ∃ l n, m.loops ≠ [] ∧ m.advance s = .running n ∧ n.control = .iterate ∧
    l.nested = true ∧ n.loops.head? = some l ∧ n.loops.length = m.loops.length + 1

theorem Threaded.activations_bound {m : Machine} (h : Threaded m.control m.loops m.frames) :
    m.activations ≤ m.frames.length + m.nestedLoops := by
  have hlen := h.length_le
  unfold activations nestedLoops
  cases hc : m.control with
  | fetch =>
    rw [hc, if_neg (by decide)] at hlen
    exact hlen
  | iterate =>
    rw [hc, if_pos rfl] at hlen
    dsimp only
    omega

/-- A failure is handled by instructions. -/
theorem fail_control {inside : Bool} {f : Failure} {m n : Machine} {L : List Loop}
    (h : fail s inside f m L = .running n) : n.control = .fetch := by
  induction L generalizing inside f m with
  | nil =>
    have hoffer := offer_frames s m f 0
    unfold fail at h
    cases ho : m.offer s f 0 with
    | inl o =>
      rw [ho] at h hoffer
      cases h
      exact hoffer.1
    | inr e =>
      rw [ho] at h
      cases h
  | cons l L ih =>
    have hoffer := offer_frames s m f l.boundary
    unfold fail at h
    cases inside with
    | false => exact ih h
    | true =>
      simp only [if_true] at h
      cases ho : m.offer s f l.boundary with
      | inl o =>
        rw [ho] at h hoffer
        cases h
        exact hoffer.1
      | inr e =>
        rw [ho] at h
        exact ih h

/-- A value that is handed to a loop leaves the elements of that loop as they are. -/
theorem deliver_owed {m n : Machine} {v : Value} (h : m.deliver v = .running n) :
    n.control = .iterate ∧ n.owed = m.owed := by
  unfold deliver at h
  cases hl : m.loops with
  | nil =>
    rw [hl] at h
    cases h
  | cons l L =>
    rw [hl] at h
    cases h
    have hrest : (l.absorb m.world.store v).rest = l.rest := by
      unfold Loop.absorb
      split <;> rfl
    refine ⟨rfl, ?_⟩
    simp only [owed, hl, List.map_cons, List.sum_cons, hrest]

theorem endLoop_progress {m n : Machine} {l : Loop} {L : List Loop} (hl : m.loops = l :: L)
    (h : m.endLoop l L = .running n) :
    n.control = .fetch ∨ n.control = .iterate ∧ n.owed < m.owed := by
  have howed : m.owed = l.rest.length + 1 + (L.map fun l => l.rest.length + 1).sum := by
    unfold owed
    rw [hl, List.map_cons, List.sum_cons]
  unfold endLoop at h
  dsimp only at h
  cases hn : l.nested with
  | true =>
    rw [hn, if_pos rfl] at h
    obtain ⟨hcontrol, heq⟩ := deliver_owed h
    refine Or.inr ⟨hcontrol, ?_⟩
    rw [heq, howed]
    change (L.map fun l => l.rest.length + 1).sum < _
    omega
  | false =>
    rw [hn, if_neg (by decide)] at h
    cases h
    exact Or.inl rfl

/-- A callback fails, enters a function, answers at once, or is a loop itself. -/
theorem callBack_progress {m n : Machine} {callee : Value} {args : List Value}
    (h : m.callBack s callee args = .running n) :
    n.control = .fetch ∨ n.control = .iterate ∧ n.owed = m.owed ∨
      ∃ l, l.nested = true ∧ n = m.startLoop l := by
  unfold callBack at h
  split at h
  · exact Or.inl (fail_control h)
  · split at h
    · split at h
      · exact Or.inl (fail_control h)
      · cases h
        exact Or.inl rfl
    · obtain ⟨r, w, hnative⟩ | ⟨l, hnative, hnested, -⟩ := callNative_cases s m true callee args
      · rw [hnative] at h
        cases r with
        | ok v =>
          obtain ⟨hcontrol, heq⟩ := deliver_owed (m := { m with world := w }) h
          exact Or.inr (Or.inl ⟨hcontrol, heq⟩)
        | error f => exact Or.inl (fail_control h)
      · rw [hnative] at h
        cases h
        exact Or.inr (Or.inr ⟨l, hnested, rfl⟩)

/-- A step of the native loops: it ends the run, goes on with instructions, goes through another
element, or calls a loop. -/
theorem iterate_progress {m n : Machine} (hc : m.control = .iterate)
    (h : m.advance s = .running n) :
    n.control = .fetch ∨ n.control = .iterate ∧ n.owed < m.owed ∨ m.CallsLoop s := by
  have hstep := h
  unfold advance at h
  rw [hc] at h
  dsimp only at h
  unfold iterate at h
  cases hl : m.loops with
  | nil =>
    rw [hl] at h
    cases h
    exact Or.inl rfl
  | cons l L =>
    rw [hl] at h
    dsimp only at h
    cases hr : l.rest with
    | nil =>
      rw [hr] at h
      rcases endLoop_progress hl h with hfetch | hless
      · exact Or.inl hfetch
      · exact Or.inr (Or.inl hless)
    | cons e rest =>
      rw [hr] at h
      dsimp only at h
      let l' : Loop := { (l.take e rest).1 with boundary := m.frames.length + 1 }
      change callBack s { m with loops := l' :: L } l'.callee (l.take e rest).2 = _ at h
      have hrest : l'.rest = rest := by
        change (l.take e rest).1.rest = rest
        unfold Loop.take
        split <;> rfl
      -- The element has been taken out before its callback begins.
      have hless : owed { m with loops := l' :: L } < m.owed := by
        simp only [owed, hl, hr, List.map_cons, List.sum_cons, hrest, List.length_cons]
        omega
      rcases callBack_progress h with hfetch | ⟨hcontrol, heq⟩ | ⟨x, hnested, rfl⟩
      · exact Or.inl hfetch
      · exact Or.inr (Or.inl ⟨hcontrol, heq ▸ hless⟩)
      · exact Or.inr (Or.inr ⟨x, _, by simp [hl], hstep, rfl, hnested, rfl, by simp [startLoop, hl]⟩)

/-- The native work of an instruction is over after a known number of steps, or a loop calls a
loop. -/
theorem native_work_ends (m : Machine) (hc : m.control = .iterate) :
    ∃ k, k ≤ m.owed + 1 ∧ ((∃ e n, runFor s k (.running m) = .ended e n) ∨
      ∃ n, runFor s k (.running m) = .running n ∧ (n.control = .fetch ∨ n.CallsLoop s)) := by
  induction hb : m.owed using Nat.strongRecOn generalizing m with
  | ind b ih =>
    cases hadv : m.advance s with
    | ended e n => exact ⟨1, by omega, Or.inl ⟨e, n, hadv⟩⟩
    | running n =>
      rcases iterate_progress hc hadv with hfetch | ⟨hn, hless⟩ | hcalls
      · exact ⟨1, by omega, Or.inr ⟨n, hadv, Or.inl hfetch⟩⟩
      · obtain ⟨k, hk, hend⟩ := ih n.owed (hb ▸ hless) n hn rfl
        have hrun : runFor s (k + 1) (.running m) = runFor s k (.running n) := by
          rw [runFor, hadv]
        refine ⟨k + 1, by omega, ?_⟩
        rw [hrun]
        exact hend
      · exact ⟨0, Nat.zero_le _, Or.inr ⟨m, rfl, Or.inr hcalls⟩⟩

end Machine

/-- Callbacks are nested no deeper than the call depth allows, but for the loops that loops call
directly: a function at the full depth is refused with an exception, and the native work of an
instruction ends or goes on with instructions, unless a loop calls a loop. -/
theorem Setup.activations_le {w : World} {o : RunOptions} {n : Nat} {m : Machine}
    (running : s.stateAfter w o n = .running m) :
    m.activations ≤ s.maxCallDepth + m.nestedLoops ∧
      (∀ callee args c self, Machine.callbackRefusal? s callee args = none →
        Target.of callee args = .function c self → s.maxCallDepth ≤ m.frames.length →
        m.callBack s callee args =
          Machine.fail s false (.of (.callDepth s.maxCallDepth)) m m.loops) ∧
      (m.control = .iterate → ∃ k, k ≤ m.owed + 1 ∧
        ((∃ e m', s.stateAfter w o (n + k) = .ended e m') ∨
          ∃ m', s.stateAfter w o (n + k) = .running m' ∧
            (m'.control = .fetch ∨ m'.CallsLoop s))) := by
  refine ⟨?_, ?_, ?_⟩
  · have hthread := s.threaded_stateAfter w o n
    have hformed := s.wellFormed_stateAfter w o n
    rw [running] at hthread hformed
    have hle : m.frames.length ≤ s.maxCallDepth := hformed.frames_le
    have hact := Machine.Threaded.activations_bound hthread
    omega
  · intro callee args c self haccept htarget hfull
    have hdeep : m.tooDeep? s = some (.callDepth s.maxCallDepth) := if_pos hfull
    unfold Machine.callBack
    rw [haccept]
    dsimp only
    rw [htarget]
    dsimp only
    rw [hdeep]
  · intro hc
    obtain ⟨k, hk, hend⟩ := Machine.native_work_ends (s := s) m hc
    have hrun : s.stateAfter w o (n + k) = Machine.runFor s k (.running m) := by
      rw [← running]
      exact Machine.runFor_add n k _
    refine ⟨k, hk, ?_⟩
    rw [hrun]
    exact hend

/-- Calls the `map` of an array that holds its own `map` on that very method. -/
def Program.selfMapping : Program where
  code? := some #[
    { op := Opcode.makeArray.code },
    { op := Opcode.varDecl.code, operand := { name := [97] } },
    { op := Opcode.loadVar.code, operand := { name := [97] } },
    { op := Opcode.loadVar.code, operand := { name := [97] } },
    { op := Opcode.loadMember.code, operand := { name := "map" } },
    { op := Opcode.callMethod.code, operand := { name := "push", int := 1 } },
    { op := Opcode.pop.code },
    { op := Opcode.loadVar.code, operand := { name := [97] } },
    { op := Opcode.loadVar.code, operand := { name := [97] } },
    { op := Opcode.loadMember.code, operand := { name := "map" } },
    { op := Opcode.callMethod.code, operand := { name := "map", int := 1 } },
    { op := Opcode.halt.code }]

def Setup.selfMapping : Setup where
  program := Program.selfMapping
  regionEnds := Region.ends Program.selfMapping.code

/-- The innermost loop maps a `map` of an array over that array, which holds nothing else. -/
structure Machine.SelfMapping (m : Machine) (id ref : Nat) : Prop where
  control : m.control = .iterate
  inner : ∃ l L callee, m.loops = l :: L ∧ l.callee = .boundIntrinsic callee .arrayMap (.array id) ∧
    l.rest = [.boundIntrinsic ref .arrayMap (.array id)] ∧ l.gathered = .mapped []
  elements : m.world.store.array id = [.boundIntrinsic ref .arrayMap (.array id)]

/-- Such a loop calls another one like it, and no instruction is executed. -/
theorem Machine.SelfMapping.advance {m : Machine} {id ref : Nat} (h : m.SelfMapping id ref) :
    ∃ n, m.advance s = .running n ∧ n.SelfMapping id ref ∧ n.steps = m.steps ∧
      n.loops.length = m.loops.length + 1 := by
  obtain ⟨⟨name, _, _, _, ip, pc, boundary, nested⟩, L, callee, hl, rfl, rfl, rfl⟩ := h.inner
  let e : Value := .boundIntrinsic ref .arrayMap (.array id)
  let caller : Value := .boundIntrinsic callee .arrayMap (.array id)
  let outer : Loop := ⟨name, .mapped [], caller, [], ip, pc, m.frames.length + 1, nested⟩
  let inner : Loop :=
    ⟨Intrinsic.arrayMap.name, .mapped [], e, [e], m.ip, m.pc, m.frames.length + 1, true⟩
  have hnative : callNative s { m with loops := outer :: L } true caller [e] =
      .loops inner { m with loops := outer :: L } := by
    unfold callNative callMethod
    dsimp only [Target.of, caller]
    rw [h.elements]
    rfl
  have haccept : callbackRefusal? s caller [e] = none := rfl
  have hstep : m.advance s = .running { m with loops := inner :: outer :: L, control := .iterate } := by
    unfold Machine.advance
    rw [h.control]
    dsimp only
    unfold iterate
    rw [hl]
    change callBack s { m with loops := outer :: L } caller [e] = _
    unfold callBack
    rw [haccept]
    dsimp only
    rw [hnative]
    rfl
  refine ⟨_, hstep, ⟨rfl, ⟨inner, outer :: L, ref, rfl, rfl, rfl, rfl⟩, h.elements⟩, rfl, ?_⟩
  rw [hl]
  rfl

theorem Setup.selfMapping_stateAfter (k : Nat) :
    ∃ m, selfMapping.stateAfter {} {} (11 + k) = .running m ∧ m.SelfMapping 0 0 ∧
      m.steps = 11 ∧ m.loops.length = k + 1 := by
  induction k with
  | zero => exact ⟨_, rfl, ⟨rfl, ⟨_, _, _, rfl, rfl, rfl, rfl⟩, rfl⟩, rfl, rfl⟩
  | succ k ih =>
    obtain ⟨m, hm, hself, hsteps, hlen⟩ := ih
    obtain ⟨n, hn, hself', hsteps', hlen'⟩ := hself.advance (s := selfMapping)
    refine ⟨n, ?_, hself', hsteps'.trans hsteps, by omega⟩
    rw [← Nat.add_assoc, stateAfter_succ, hm]
    exact hn

/-- Two steps into the loops the bound is reached through nested loops alone. -/
theorem Setup.selfMapping_activations_le : ∃ m, selfMapping.stateAfter {} {} 13 = .running m ∧
    m.activations = 2 ∧ m.nestedLoops = 2 ∧ m.frames = [] ∧
    m.activations ≤ selfMapping.maxCallDepth + m.nestedLoops := by
  let m := (selfMapping.stateAfter {} {} 13).machine
  have hm : selfMapping.stateAfter {} {} 13 = .running m := rfl
  exact ⟨m, hm, rfl, rfl, rfl, (activations_le hm).1⟩

/-- Callbacks of loops that call loops are nested without a bound, all within one instruction. -/
theorem Setup.activations_unbounded :
    ¬ ∀ (p : Program) (options : Options) (s : Setup) (w : World) (o : RunOptions) (n : Nat)
      (m : Machine), Setup.prepare p options = .ok s → s.stateAfter w o n = .running m →
      m.activations ≤ s.maxCallDepth := by
  intro h
  obtain ⟨m, hm, hself, -, hlen⟩ := selfMapping_stateAfter 1025
  have hle := h .selfMapping {} selfMapping {} {} _ m rfl hm
  have hdeep : selfMapping.maxCallDepth = 1024 := rfl
  unfold Machine.activations at hle
  rw [hself.control, hlen] at hle
  dsimp only at hle
  omega

end BytecodeMachine
