import BytecodeMachine.Proofs.Machine.Beside
import BytecodeMachine.Proofs.Machine.Cancellation
import BytecodeMachine.Proofs.Machine.Safety

/-! Every run starts anew. Whatever runs came before and however they ended, all they leave to the
next one are files and the number of unique names, and a run that does not reach for these goes like
the first run of a new machine. -/
namespace BytecodeMachine

/-- A run that was made before: what it was given, before which steps it was cancelled from outside,
and after how many it ended or was broken off at the latest. -/
structure PastRun where
  options : RunOptions := {}
  cancels : Nat → Bool := fun _ => false
  steps : Nat

/-- Two machines that look alike from outside: they have printed and recorded the same, after as
many steps, and are nested as deep. -/
structure Machine.Alike (m m' : Machine) : Prop where
  output : m'.world.output.text = m.world.output.text
  events : m'.world.events = m.world.events
  steps : m'.steps = m.steps
  depths : m'.depths = m.depths

/-- Two runs that have ended alike: with the same value in the same words, with the same exception
from its kind to the words of the value it carries, or with the same error. -/
structure Run.Alike (r r' : Run) : Prop where
  machine : r.machine.Alike r'.machine
  ending : r'.ending = r.ending
  value : ∀ v, r.ending = .value v → r'.world.text v = r.world.text v
  exception : ∀ id, r.ending = .exception id →
    r'.world.store.exception id = r.world.store.exception id ∧
    r'.world.text (r'.world.store.exception id).payload =
      r.world.text (r.world.store.exception id).payload
  message : r'.message = r.message
  log : ∀ s, r'.log s = r.log s

namespace Setup

/-- The world that runs leave which were made one after the other. -/
def leftBy (s : Setup) (earlier : List PastRun) (w : World) : World :=
  earlier.foldl (fun w r => (s.stateUnder r.cancels w r.options r.steps).machine.world) w

/-- A run that at no step calls what reaches files or unique names. -/
def Contained (s : Setup) (w : World) (o : RunOptions) : Prop :=
  ∀ n m, s.stateAfter w o n = .running m → ∀ c ∈ m.callee? s, c.reachesOut = false

variable {q : Builtin → Prop} {s : Setup} {w : World} {o : RunOptions}

theorem renew_beside (w w' : World) (o : RunOptions) : w'.renew o = (w.renew o).beside w'.remains :=
  rfl

/-- Step by step, a run beside other remains is in the same state. -/
theorem stateAfter_beside (host : ∀ f ∈ s.host, f.Within q) (taken : s.Takes q)
    (inside : ∀ n m, s.stateAfter w o n = .running m → m.Within q →
      ∀ c ∈ m.callee? s, c.reachesOut = false)
    (w' : World) (n : Nat) :
    (s.stateAfter w o n).Beside q w'.remains (s.stateAfter w' o n) := by
  -- What is preserved is which values the first machine has; that it does not reach out is given.
  induction n with
  | zero =>
    refine .running ⟨congrArg (fun w => ({ world := w } : Machine)) (renew_beside w w' o), ?_⟩
    exact ⟨w.holds_renew o, by simp, by simp, by simp⟩
  | succ n ih =>
    rw [stateAfter_succ, stateAfter_succ]
    have hinside := inside n
    generalize s.stateAfter w o n = st, s.stateAfter w' o n = st' at ih hinside ⊢
    cases ih with
    | ended machine ending => exact .ended machine ending
    | @running m _ machine =>
      obtain ⟨rfl, hm⟩ := machine
      exact Machine.advance_beside host taken hm (hinside m rfl hm)

/-- If no name in a program stands for a function that reaches out, all its runs are contained. -/
theorem contained_of_takes (host : ∀ f ∈ s.host, f.Within Builtin.Inside)
    (taken : s.Takes Builtin.Inside) (w : World) (o : RunOptions) : s.Contained w o := by
  have inside (m : Machine) (hm : m.Within Builtin.Inside) :
      ∀ c ∈ m.callee? s, c.reachesOut = false :=
    fun c hc => (Machine.callee?_within taken hm c hc).inside
  intro n m running
  -- Beside itself, so that all it comes to is what every step keeps.
  have hstates : (s.stateAfter w o n).Beside Builtin.Inside w.remains (s.stateAfter w o n) :=
    stateAfter_beside host taken (fun _ m _ hm => inside m hm) w n
  rw [running] at hstates
  cases hstates with
  | running machine => exact inside m machine.within

end Setup

/-- Remains do not show. -/
theorem Run.alike_of_beside {q : Builtin → Prop} {x : Remains} {e : Ending} {m m' : Machine}
    (h : m.Beside q x m') (he : e.Within q) : Run.Alike ⟨e, m⟩ ⟨e, m'⟩ := by
  obtain ⟨rfl, hm⟩ := h
  refine ⟨⟨rfl, rfl, rfl, rfl⟩, rfl, fun v hv => ?_, fun id _ => ⟨rfl, ?_⟩, ?_, fun s => ?_⟩
  · cases hv
    exact World.beside_text hm.world he
  · exact World.beside_text hm.world (Store.Holds.payload hm.world trivial id)
  · cases e <;> rfl
  · cases e <;> rfl

/-! The host that lets programs look at their machine. -/

namespace Inspection

variable {q : Builtin → Prop}

theorem Answers.within {r : HostReply} (h : Answers (Value.Within q) r) : r.Within q := by
  obtain ⟨hvalue, hfailure, helems⟩ := h.holds trivial
  refine ⟨hvalue, fun f hf => ?_, helems⟩
  have hholds := hfailure f hf
  cases f with
  | raise _ _ | halt _ => exact hholds
  | _ => exact trivial

/-- Of a store the host shows texts and truth values only. -/
theorem functions_within : ∀ f ∈ functions, f.Within q := by
  intro f hf
  refine ⟨fun view args _ ha => ?_, fun view args handles hstore ha => ?_⟩
  · have hscalar : ∀ v : Value, v.isScalar = true → v.Within q := by
      intro v hv
      cases v <;> first | exact trivial | cases hv
    exact (call_answers hscalar hf view ha).within
  · have hhead : (args.headD .null).Within q := by
      cases args with
      | nil => exact trivial
      | cons v vs => exact ha v (List.mem_cons_self ..)
    have htext {v : Value} (hv : v.Within q) :
        { view.store with handles := handles }.text v = view.store.text v :=
      Store.text_of_within hstore hv handles
    have htextOf : textOf { view with store := { view.store with handles := handles } } args =
        textOf view args := by
      cases args with
      | nil => rfl
      | cons v vs => exact htext (ha v (List.mem_cons_self ..))
    have hrepr : { view.store with handles := handles }.repr (args.headD .null) =
        view.store.repr (args.headD .null) := Store.renderIn_of_within hstore hhead handles _ _ _
    have htruthy (v : Value) :
        { view.store with handles := handles }.truthy v = view.store.truthy v := by
      cases v <;> rfl
    simp only [functions, List.mem_cons, List.not_mem_nil, or_false] at hf
    rcases hf with rfl | rfl | rfl | rfl | rfl | rfl | rfl | rfl | rfl | rfl | rfl | rfl
    · rfl
    · exact congrArg (fun t => HostReply.value (.string t)) hrepr
    · exact congrArg (fun b => HostReply.value (.bool b)) (htruthy (args.headD .null))
    · rfl
    · exact congrArg (fun t => HostReply.failure (.host t)) htextOf
    · dsimp only [raised]
      split
      · next kind message =>
        rw [htext (ha kind (by simp)), htext (ha message (by simp))]
      · rfl
    · exact congrArg (fun t => HostReply.failure (.fault ⟨faultAddress, [], .custom t⟩)) htextOf
    · rfl
    · rfl
    · rfl
    · rfl
    · exact congrArg (fun t => HostReply.wait (some (settled (Text.runes t)))) htextOf

end Inspection

/-- A run after any others is like the first run of a new machine: it comes to an end within the
same limits, and ends alike. -/
theorem Setup.rerun_like_first {s : Setup} (host : ∀ f ∈ s.host, f.Fileless) {d : Disk}
    {o : RunOptions} (contained : s.Contained { disk := d } o) (d' : Disk)
    (earlier : List PastRun) (limit : Nat) :
    Option.Rel Run.Alike (s.run? limit { disk := d } o)
      (s.run? limit (s.leftBy earlier { disk := d' }) o) := by
  -- The states are related after any number of steps, so one run has ended where the other has.
  have hstates := stateAfter_beside host (fun _ _ _ _ _ _ => trivial)
    (fun n m running _ => contained n m running) (s.leftBy earlier { disk := d' }) limit
  unfold stateAfter at hstates
  unfold run?
  generalize Machine.runFor s limit (.running { world := World.renew { disk := d } o }) = st,
    Machine.runFor s limit (.running { world := (s.leftBy earlier { disk := d' }).renew o }) = st'
    at hstates ⊢
  cases hstates with
  | running _ => exact .none
  | ended machine ending => exact .some (Run.alike_of_beside machine ending)

/-- Each callback prints its element. -/
def Setup.printing : Setup := { mapping .print with host := Inspection.functions }

/-- A run after one that was broken off inside a callback and one whose output was refused there. -/
theorem Setup.printing_like_first : ∃ r r', printing.run? 20 {} {} = some r ∧
    printing.run? 20 (printing.leftBy [{ steps := 9 },
      { options := { outputLimit := some 1 }, steps := 20 }] {}) {} = some r' ∧
    r.Alike r' ∧ r'.world.output.text = [49, 10] := by
  have hcontained : printing.Contained {} {} :=
    contained_of_takes Inspection.functions_within (by unfold Takes; decide) {} {}
  have halike := rerun_like_first Inspection.functions_within hcontained {}
    [{ steps := 9 }, { options := { outputLimit := some 1 }, steps := 20 }] 20
  obtain ⟨r, hr, houtput⟩ : ∃ r, printing.run? 20 {} {} = some r ∧
      r.world.output.text = [49, 10] := ⟨_, rfl, rfl⟩
  rw [hr] at halike
  generalize hr' : printing.run? 20 _ {} = run' at halike
  cases halike with
  | @some _ r' h => exact ⟨r, r', hr, rfl, h, h.machine.output.trans houtput⟩

end BytecodeMachine
