import BytecodeMachine.Proofs.Machine.Edits
import BytecodeMachine.Proofs.Machine.Uninterrupted
import Mathlib.Order.Bounds.Basic

/-! Runs that are stopped from outside. Once a run is to stop it stays so, and the next step whose number
is a multiple of 1024 finds out, whichever native loop it belongs to. -/
namespace BytecodeMachine

namespace World

/-- A world as it can be later in the same run: a run that is to stop is still to stop. -/
structure Later (w w' : World) : Prop where
  cancelled : w.cancelled = true → w'.cancelled = true
  deadline : w'.deadline = w.deadline
  clock : w.clock ≤ w'.clock

theorem Later.refl (w : World) : w.Later w := ⟨id, rfl, Nat.le_refl _⟩

theorem Later.trans {w w' w'' : World} (h : w.Later w') (h' : w'.Later w'') : w.Later w'' :=
  ⟨h'.cancelled ∘ h.cancelled, h'.deadline.trans h.deadline, h.clock.trans h'.clock⟩

theorem Edit.later {p : Program} {writes : Bool} {w w' : World} (h : Edit p writes w w') :
    w.Later w' := by
  cases h with
  | aside same =>
    simp only [lasting, Prod.mk.injEq] at same
    obtain ⟨-, -, hcancelled, hclock, hdeadline⟩ := same
    exact ⟨fun h => hcancelled.trans h, hdeadline, hclock.ge⟩
  | object _ => exact ⟨id, rfl, Nat.le_refl _⟩
  | static key new =>
    rw [staticObject_of_none new]
    exact ⟨id, rfl, Nat.le_refl _⟩
  | field _ _ _ _ => exact ⟨id, rfl, Nat.le_refl _⟩
  | elapse time later => exact ⟨id, rfl, later⟩
  | cancel => exact ⟨fun _ => rfl, rfl, Nat.le_refl _⟩

theorem Edits.later {p : Program} {writes : Bool} {w w' : World} (h : Edits p writes w w') :
    w.Later w' := by
  induction h with
  | refl => exact .refl w
  | tail _ hlast ih => exact ih.trans hlast.later

theorem stop?_isSome_iff (w : World) :
    w.stop?.isSome = true ↔ w.cancelled = true ∨ ∃ t, w.deadline = some t ∧ t ≤ w.clock := by
  unfold stop?
  cases w.cancelled with
  | true => simp
  | false =>
    cases w.deadline with
    | none => simp
    | some t => by_cases h : t ≤ w.clock <;> simp [h]

theorem Later.stop? {w w' : World} (h : w.Later w') (stop : w.stop?.isSome = true) :
    w'.stop?.isSome = true := by
  rw [stop?_isSome_iff] at stop ⊢
  rcases stop with hcancelled | ⟨t, hdeadline, hclock⟩
  · exact Or.inl (h.cancelled hcancelled)
  · exact Or.inr ⟨t, h.deadline.trans hdeadline, hclock.trans h.clock⟩

end World

variable {s : Setup}

namespace Machine

theorem tick_later {m m' : Machine} (h : m.world.Later m'.world) :
    m.tick.world.Later m'.tick.world :=
  ⟨h.cancelled, h.deadline, Nat.add_le_add_right h.clock _⟩

theorem later_tick (m : Machine) : m.world.Later m.tick.world :=
  ⟨id, rfl, Nat.le_add_right _ _⟩

/-- A step that comes to an instruction is counted, others are not. -/
theorem steps_advance (m : Machine) :
    (m.advance s).machine.steps = m.steps + 1 ∧ m.control = .fetch ∧
        (∃ ins, s.program.instruction? m.ip = some ins) ∧
        m.tick.world.Later (m.advance s).machine.world ∨
      (m.advance s).machine.steps = m.steps ∧ m.world.Later (m.advance s).machine.world := by
  by_cases hfetch : m.control = .fetch ∧ ∃ ins, s.program.instruction? m.ip = some ins
  · obtain ⟨control, ins, has⟩ := hfetch
    have hstep : m.advance s = m.fetch s := by rw [advance, control]
    have hturns : m.tick.Turns s true (m.fetch s).machine := fetch_turns has fun _ _ _ _ => rfl
    rw [hstep]
    exact Or.inl ⟨hturns.steps, control, ⟨ins, has⟩, hturns.edits.later⟩
  · have hturns : m.Turns s true (m.advance s).machine := idle_turns fun control =>
      Option.eq_none_iff_forall_ne_some.mpr fun ins has => hfetch ⟨control, ins, has⟩
    exact Or.inr ⟨hturns.steps, hturns.edits.later⟩

end Machine

theorem Machine.steps_advance_of_has {m : Machine} {ins : Instruction} (control : m.control = .fetch)
    (has : s.program.instruction? m.ip = some ins) : (m.advance s).machine.steps = m.steps + 1 := by
  have hturns : m.tick.Turns s true (m.fetch s).machine := fetch_turns has fun _ _ _ _ => rfl
  have hstep : m.advance s = m.fetch s := by rw [advance, control]
  rw [hstep]
  exact hturns.steps

/-- Steps whose number is a multiple of 1024 ask whether the run is to stop. -/
theorem Machine.stopBefore?_of_dvd {m : Machine} {K : Nat} (hK : 1024 ∣ K) (reach : m.steps + 1 = K) :
    m.tick.stopBefore? = m.tick.world.stop? := by
  have hnumber : m.tick.steps % 1024 = 0 := by
    change (m.steps + 1) % 1024 = 0
    rw [reach]
    exact Nat.mod_eq_zero_of_dvd hK
  rw [stopBefore?, if_pos hnumber]

/-- A run that has not come to step `K`, or has ended there because it was to stop. -/
inductive Status.Held (K : Nat) : Status → Prop
  | running {m : Machine} (below : m.steps < K) (stop : m.tick.world.stop?.isSome = true) :
      Held K (.running m)
  | ended {e : Ending} {m : Machine} (below : m.steps < K) : Held K (.ended e m)
  | stopped {reason : StopReason} {m : Machine} (reached : m.steps = K)
      (stop : m.world.stop? = some reason) : Held K (.ended (.stopped reason) m)

/-- The check before step `K` holds a run that is to stop. -/
theorem Machine.held_advance {m : Machine} {K : Nat} (hK : 1024 ∣ K) (below : m.steps < K)
    (stop : m.tick.world.stop?.isSome = true) : (m.advance s).Held K := by
  have hold (low : (m.advance s).machine.steps < K)
      (later : m.tick.world.Later (m.advance s).machine.tick.world) : (m.advance s).Held K := by
    cases hnext : m.advance s with
    | ended e n =>
      rw [hnext] at low
      exact .ended low
    | running n =>
      rw [hnext] at low later
      exact .running low (later.stop? stop)
  -- A step that is not counted stays below `K`; one that is counted is step `K` or one below it.
  rcases m.steps_advance (s := s) with ⟨hsteps, control, ⟨ins, has⟩, hlater⟩ | ⟨hsteps, hlater⟩
  · by_cases hreach : m.steps + 1 = K
    · obtain ⟨reason, hreason⟩ := Option.isSome_iff_exists.mp stop
      have hcheck := (stopBefore?_of_dvd hK hreach).trans hreason
      obtain ⟨inside, hadvance, -⟩ := (Fails.stopped (s := s) control has hcheck).advance_eq
      obtain ⟨ip, pc, hend⟩ := fail_eq_ended (s := s) (f := .stopped reason) rfl inside m.tick
        m.tick.loops
      rw [hadvance, hend]
      exact .stopped hreach hreason
    · exact hold (by omega) (hlater.trans (later_tick _))
  · exact hold (by omega) (tick_later hlater)

/-- A run that is cancelled from outside, where `now` says so. -/
def Status.interrupted (now : Bool) : Status → Status
  | .running m => .running { m with world := { m.world with cancelled := m.world.cancelled || now } }
  | .ended e m => .ended e m

/-- A run after a number of steps, cancelled from outside before the steps that `cancels` tells. -/
def Setup.stateUnder (s : Setup) (cancels : Nat → Bool) (w : World) (o : RunOptions) : Nat → Status
  | 0 => (Status.running { world := w.renew o }).interrupted (cancels 0)
  | n + 1 => ((s.stateUnder cancels w o n).next s).interrupted (cancels (n + 1))

theorem Status.interrupted_false (st : Status) : st.interrupted false = st := by
  cases st with
  | running m => simp only [interrupted, Bool.or_false]
  | ended e m => rfl

/-- Without a word from outside these are the runs of programs and their hosts alone. -/
theorem Setup.stateUnder_never (w : World) (o : RunOptions) (n : Nat) :
    s.stateUnder (fun _ => false) w o n = s.stateAfter w o n := by
  induction n with
  | zero => exact Status.interrupted_false _
  | succ n ih =>
    rw [stateUnder, ih, Status.interrupted_false]
    exact (stateAfter_succ w o n).symm

theorem Status.Held.interrupted {K : Nat} {st : Status} (h : st.Held K) (now : Bool) :
    (st.interrupted now).Held K := by
  cases h with
  | @running m below stop =>
    let w := { m.tick.world with cancelled := m.world.cancelled || now }
    have hlater : m.tick.world.Later w := by
      refine ⟨fun h => ?_, rfl, Nat.le_refl _⟩
      change m.world.cancelled = true at h
      simp only [w, h, Bool.true_or]
    exact .running below (hlater.stop? stop)
  | ended below => exact .ended below
  | stopped reached stop => exact .stopped reached stop

theorem Status.steps_interrupted (st : Status) (now : Bool) :
    (st.interrupted now).machine.steps = st.machine.steps := by
  cases st <;> rfl

theorem Status.steps_le_next (st : Status) : st.machine.steps ≤ (st.next s).machine.steps := by
  cases st with
  | ended e m => exact Nat.le_refl _
  | running m =>
    change m.steps ≤ (m.advance s).machine.steps
    rcases m.steps_advance (s := s) with ⟨hsteps, -⟩ | ⟨hsteps, -⟩ <;> omega

/-- Cancelling a run under pressure puts it under more. -/
theorem Status.interrupted_under (st : Status) (x : Pressure) (now : Bool) :
    ∃ y, (st.under x).interrupted now = st.under y := by
  cases st with
  | ended e m => exact ⟨x, rfl⟩
  | running m =>
    refine ⟨⟨x.cancelled || now, x.deadline⟩, ?_⟩
    have hflag : (m.world.cancelled || x.cancelled || now) =
        (m.world.cancelled || (x.cancelled || now)) := Bool.or_assoc _ _ _
    simp only [Status.under, interrupted, Machine.under, World.under, hflag]

/-- The options of a run that nobody stops from outside: it is neither cancelled nor given a time. -/
def RunOptions.unstopped (o : RunOptions) : RunOptions :=
  { o with cancelled := false, timeout := none }

section Runs

variable {cancels : Nat → Bool} {w : World} {o : RunOptions}

theorem Setup.steps_mono {i j : Nat} (hij : i ≤ j) :
    (s.stateUnder cancels w o i).machine.steps ≤ (s.stateUnder cancels w o j).machine.steps := by
  induction j, hij using Nat.le_induction with
  | base => exact Nat.le_refl _
  | succ j _ ih =>
    rw [stateUnder, Status.steps_interrupted]
    exact ih.trans (Status.steps_le_next _)

theorem Setup.stateUnder_ended {i j : Nat} (hij : i ≤ j) {e : Ending} {m : Machine}
    (h : s.stateUnder cancels w o i = .ended e m) : s.stateUnder cancels w o j = .ended e m := by
  induction j, hij using Nat.le_induction with
  | base => exact h
  | succ j _ ih =>
    rw [stateUnder, ih]
    rfl

/-- Once a run is to stop it is held before the next multiple of 1024, however it goes on. -/
theorem Setup.held_stateUnder {K n j : Nat} (hK : 1024 ∣ K)
    (h : (s.stateUnder cancels w o n).Held K) (hnj : n ≤ j) :
    (s.stateUnder cancels w o j).Held K := by
  induction j, hnj using Nat.le_induction with
  | base => exact h
  | succ j _ ih =>
    rw [stateUnder]
    refine Status.Held.interrupted ?_ _
    cases hj : s.stateUnder cancels w o j with
    | ended e m =>
      rw [hj] at ih
      exact ih
    | running m =>
      rw [hj] at ih
      cases ih with
      | running below stop => exact Machine.held_advance hK below stop

/-- A run goes as it would go if nobody stopped it, until it ends because it is to stop. -/
theorem Setup.stateUnder_cut (n : Nat) :
    ∃ x, (s.stateUnder cancels w o n).Cut x (s.stateAfter w o.unstopped n) := by
  induction n with
  | zero => exact ⟨⟨o.cancelled || cancels 0, o.timeout⟩, .inl rfl⟩
  | succ n ih =>
    have hstopped {reason : StopReason} {q : Machine}
        (h : (s.stateUnder cancels w o n).next s = .ended (.stopped reason) q) :
        s.stateUnder cancels w o (n + 1) = .ended (.stopped reason) q := by
      rw [stateUnder, h]
      rfl
    -- The word from outside comes between two steps, so it only adds to the pressure.
    obtain ⟨x, heq | ⟨reason, q, heq⟩⟩ := ih
    · have hnext : ((s.stateUnder cancels w o n).next s).Cut x (s.stateAfter w o.unstopped (n + 1)) := by
        rw [heq, stateAfter_succ]
        cases s.stateAfter w o.unstopped n with
        | running m => exact m.advance_cut
        | ended e m => exact .inl rfl
      rcases hnext with hsame | ⟨reason, q, hend⟩
      · obtain ⟨y, hy⟩ := (s.stateAfter w o.unstopped (n + 1)).interrupted_under x (cancels (n + 1))
        refine ⟨y, .inl ?_⟩
        rw [stateUnder, hsame, hy]
      · exact ⟨x, .inr ⟨reason, q, hstopped hend⟩⟩
    · have hend : (s.stateUnder cancels w o n).next s = .ended (.stopped reason) q := by
        rw [heq]
        rfl
      exact ⟨x, .inr ⟨reason, q, hstopped hend⟩⟩

/-- A step that fails because the run is to stop ends the run, at any depth of native loops. -/
theorem Machine.Fails.stopped_advance {m m' : Machine} {reason : StopReason}
    (h : m.Fails s (.stopped reason) m') :
    ∃ ip pc, m.advance s = .ended (.stopped reason) { m' with loops := [], ip := ip, pc := pc } := by
  obtain ⟨inside, hadvance, -⟩ := h.advance_eq
  obtain ⟨ip, pc, hend⟩ := fail_eq_ended (s := s) (f := .stopped reason) rfl inside m' m'.loops
  exact ⟨ip, pc, hadvance.trans hend⟩

/-- A run that is to stop by the check of step `k` executes no instruction from the next multiple of
1024 on. If it comes so far, it ends there with the reason, and wherever it fails for this reason, it
ends at once. Until it ends so, it goes as it would go if nobody stopped it, so it enters no handler
that it would not have entered. -/
theorem Setup.cancelled_run_stops {n k K : Nat} {m : Machine}
    (running : s.stateUnder cancels w o n = .running m)
    (cancelled : m.tick.world.stop?.isSome = true) (before : m.steps < k)
    (hK : IsLeast {j | 1024 ∣ j ∧ k ≤ j} K) :
    (∀ i q ins, s.stateUnder cancels w o i = .running q → q.Starts s ins → q.steps + 1 < K) ∧
      (∀ i, K ≤ (s.stateUnder cancels w o i).machine.steps → ∃ reason q,
        s.stateUnder cancels w o i = .ended (.stopped reason) q ∧ q.steps = K ∧
          q.world.stop? = some reason) ∧
      (∀ i q q' reason, s.stateUnder cancels w o i = .running q → q.Fails s (.stopped reason) q' →
        ∃ ip pc, ∀ j, i < j → s.stateUnder cancels w o j =
          .ended (.stopped reason) { q' with loops := [], ip := ip, pc := pc }) ∧
      ∀ i, (∃ x, s.stateUnder cancels w o i = (s.stateAfter w o.unstopped i).under x) ∨
        ∃ reason q, s.stateUnder cancels w o i = .ended (.stopped reason) q := by
  obtain ⟨⟨hdvd, hle⟩, -⟩ := hK
  have hheld (j : Nat) (hnj : n ≤ j) : (s.stateUnder cancels w o j).Held K := by
    refine held_stateUnder hdvd ?_ hnj
    rw [running]
    exact .running (before.trans_le hle) cancelled
  -- Until the run is cancelled fewer steps are counted than when it is.
  have hearly (j : Nat) (hjn : j ≤ n) : (s.stateUnder cancels w o j).machine.steps < K := by
    have hmono : (s.stateUnder cancels w o j).machine.steps ≤
        (s.stateUnder cancels w o n).machine.steps := steps_mono hjn
    rw [running] at hmono
    exact hmono.trans_lt (before.trans_le hle)
  refine ⟨fun i q ins hi hstarts => ?_, fun i hi => ?_, fun i q q' reason hi hfails => ?_,
    fun i => ?_⟩
  · rcases Nat.lt_or_ge i n with hin | hni
    · have hnext : (s.stateUnder cancels w o (i + 1)).machine.steps = q.steps + 1 := by
        rw [stateUnder, Status.steps_interrupted, hi]
        exact Machine.steps_advance_of_has hstarts.control hstarts.has
      have hlow := hearly (i + 1) hin
      rwa [hnext] at hlow
    · have h := hheld i hni
      rw [hi] at h
      cases h with
      | running below stop =>
        have hmiss : q.steps + 1 ≠ K := by
          intro hreach
          rw [← Machine.stopBefore?_of_dvd hdvd hreach, hstarts.go] at stop
          cases stop
        omega
  · rcases Nat.le_total i n with hin | hni
    · exact absurd (hearly i hin) (by omega)
    · have h := hheld i hni
      cases hst : s.stateUnder cancels w o i with
      | running q =>
        rw [hst] at h hi
        cases h with
        | running below _ => exact absurd below (Nat.not_lt.mpr hi)
      | ended e q =>
        rw [hst] at h hi
        cases h with
        | ended below => exact absurd below (Nat.not_lt.mpr hi)
        | stopped reached stop => exact ⟨_, q, rfl, reached, stop⟩
  · obtain ⟨ip, pc, hend⟩ := hfails.stopped_advance
    refine ⟨ip, pc, fun j hij => stateUnder_ended hij ?_⟩
    rw [stateUnder, hi]
    change (q.advance s).interrupted _ = _
    rw [hend]
    rfl
  · obtain ⟨x, hsame | hstopped⟩ : ∃ x, (s.stateUnder cancels w o i).Cut x
        (s.stateAfter w o.unstopped i) := stateUnder_cut i
    · exact Or.inl ⟨x, hsame⟩
    · exact Or.inr hstopped

end Runs

/-- A program that jumps to itself. -/
def Program.endless : Program where
  code? := some #[{ op := Opcode.jump.code }]

def Setup.endless : Setup where
  program := Program.endless
  regionEnds := Region.ends Program.endless.code

theorem Machine.advance_endless {m : Machine} (control : m.control = .fetch) (ip : m.ip = 0)
    (handlers : m.handlers = []) (go : m.tick.stopBefore? = none) :
    m.advance Setup.endless = .running { m.tick with pc := 0, ip := 0 } := by
  have has : Setup.endless.program.instruction? m.ip = some { op := Opcode.jump.code } := by
    rw [ip]
    rfl
  have hmark : m.tick.markFinalizing = m.tick := by
    unfold markFinalizing
    rw [show m.tick.handlers = [] from handlers]
  rw [advance, control]
  change m.fetch Setup.endless = _
  rw [fetch_eq_settle has go, begun, hmark, show m.tick.ip = 0 from ip]
  rfl

/-- Cancelled before its fourth step, the endless program still comes to step 1023. -/
theorem Setup.endless_running {n : Nat} (hn : n < 1024) :
    ∃ m, endless.stateUnder (· == 3) {} {} n = .running m ∧ m.control = .fetch ∧ m.ip = 0 ∧
      m.handlers = [] ∧ m.steps = n := by
  induction n with
  | zero => exact ⟨_, rfl, rfl, rfl, rfl, rfl⟩
  | succ n ih =>
    obtain ⟨m, hm, control, ip, handlers, hsteps⟩ := ih (Nat.lt_of_succ_lt hn)
    have go : m.tick.stopBefore? = none := by
      have hnumber : m.tick.steps % 1024 ≠ 0 := by
        change (m.steps + 1) % 1024 ≠ 0
        omega
      rw [Machine.stopBefore?, if_neg hnumber]
    have hnext : endless.stateUnder (· == 3) {} {} (n + 1) =
        (Status.running { m.tick with pc := 0, ip := 0 }).interrupted (n + 1 == 3) := by
      rw [stateUnder, hm]
      change (m.advance endless).interrupted _ = _
      rw [Machine.advance_endless control ip handlers go]
    exact ⟨_, hnext, control, rfl, handlers, congrArg (· + 1) hsteps⟩

/-- The endless program, cancelled before its fourth step, ends at step 1024. -/
theorem Setup.endless_ends_at_1024 : ∃ reason q,
    endless.stateUnder (· == 3) {} {} 1024 = .ended (.stopped reason) q ∧ q.steps = 1024 ∧
      q.world.stop? = some reason := by
  have hleast : IsLeast {j | 1024 ∣ j ∧ 4 ≤ j} 1024 := by
    refine ⟨⟨Nat.dvd_refl _, by decide⟩, fun j hj => ?_⟩
    exact Nat.le_of_dvd (by have := hj.2; omega) hj.1
  have hcancelled : ∃ m, endless.stateUnder (· == 3) {} {} 3 = .running m ∧
      m.tick.world.stop?.isSome = true ∧ m.steps < 4 := ⟨_, rfl, rfl, by decide⟩
  obtain ⟨m, running, cancelled, before⟩ := hcancelled
  have hstops := cancelled_run_stops running cancelled before hleast
  refine hstops.2.1 1024 (Nat.le_of_eq ?_)
  obtain ⟨m, hm, control, ip, -, hsteps⟩ := endless_running (n := 1023) (by decide)
  have has : endless.program.instruction? m.ip = some { op := Opcode.jump.code } := by
    rw [ip]
    rfl
  have hcounted := Machine.steps_advance_of_has control has
  rw [stateUnder, hm, Status.steps_interrupted]
  exact (hcounted.trans (congrArg (· + 1) hsteps)).symm

end BytecodeMachine
