import BytecodeMachine.Proofs.Machine.Callback
import BytecodeMachine.Proofs.Machine.Raising

/-! Call sites. A frame keeps the address of the instruction that has entered it, and a native loop
that of the instruction that has started it. Both are where the frame below has come to, as long as no
loop has taken a refused write of its callback for an error of its own and left the frames behind. -/
namespace BytecodeMachine

variable {s : Setup} {site : Nat → Int}

/-- Whether an instruction that calls stands at an address. -/
def Setup.CallsAt (s : Setup) (a : Int) : Prop :=
  ∃ ins op, s.program.instruction? a = some ins ∧ Opcode.ofCode? ins.op = some op ∧
    (op = .call ∨ op = .callIndirect ∨ op = .callMethod)

namespace Machine

/-- Frames and loops in the order in which they were entered, none of them left behind. The frame of
each depth has come to the address `site` gives, and it was there that it entered the next one or
started the loop that did. -/
inductive Sited (s : Setup) (site : Nat → Int) : Control → List Loop → List Frame → Prop
  | program : Sited s site .fetch [] []
  | called {L : List Loop} {F : List Frame} {f : Frame} (h : Sited s site .fetch L F)
      (plain : f.callback = false) (entered : f.callPc = site F.length)
      (call : s.CallsAt (site F.length)) : Sited s site .fetch L (f :: F)
  | callback {l : Loop} {L : List Loop} {F : List Frame} {f : Frame}
      (h : Sited s site .iterate (l :: L) F) (native : f.callback = true)
      (boundary : l.boundary = F.length + 1) (entered : f.callPc = site F.length) :
      Sited s site .fetch (l :: L) (f :: F)
  | started {l : Loop} {L : List Loop} {F : List Frame} (h : Sited s site .fetch L F)
      (outer : l.nested = false) (place : l.pc = site F.length)
      (call : s.CallsAt (site F.length)) : Sited s site .iterate (l :: L) F
  | nested {l x : Loop} {L : List Loop} {F : List Frame} (h : Sited s site .iterate (x :: L) F)
      (inner : l.nested = true) (place : l.pc = site F.length) :
      Sited s site .iterate (l :: x :: L) F

namespace Sited

variable {l l' : Loop} {L : List Loop} {F : List Frame} {f : Frame} {c : Control}

theorem threaded (h : Sited s site c L F) : Threaded c L F := by
  induction h with
  | program => exact .program
  | called _ _ _ _ ih => exact .called _ ih
  | callback _ native boundary _ ih => exact .callback ih native boundary
  | started _ outer _ _ ih => exact .started ih outer
  | nested _ inner _ ih => exact .nested ih inner

/-- The innermost frame goes on from instruction to instruction, the others stay where they are. -/
theorem move {site' : Nat → Int} (h : Sited s site c L F)
    (same : ∀ d < F.length + (if c = .iterate then 1 else 0), site' d = site d) :
    Sited s site' c L F := by
  induction h with
  | program => exact .program
  | @called L F f _ plain entered call ih =>
    have hhere : site' F.length = site F.length := same _ (by simp)
    refine .called (ih fun d hd => same d ?_) plain (entered.trans hhere.symm) (hhere ▸ call)
    simp only [List.length_cons, reduceCtorEq, if_false] at hd ⊢
    omega
  | @callback l L F f _ native boundary entered ih =>
    have hhere : site' F.length = site F.length := same _ (by simp)
    exact .callback (ih fun d hd => same d (by simpa using hd)) native boundary
      (entered.trans hhere.symm)
  | @started l L F _ outer place call ih =>
    have hhere : site' F.length = site F.length := same _ (by simp)
    refine .started (ih fun d hd => same d ?_) outer (place.trans hhere.symm) (hhere ▸ call)
    simp only [reduceCtorEq, if_false, if_true] at hd ⊢
    omega
  | @nested l x L F _ inner place ih =>
    have hhere : site' F.length = site F.length := same _ (by simp)
    exact .nested (ih same) inner (place.trans hhere.symm)

/-- A loop that has called a function has its frame. -/
theorem no_loops (h : Sited s site .fetch L []) : L = [] := by
  cases h
  rfl

/-- Where a loop stands, and that it was started by a call. -/
theorem site_of_iterate (h : Sited s site .iterate (l :: L) F) :
    l.pc = site F.length ∧ s.CallsAt (site F.length) := by
  generalize hc : Control.iterate = c at h
  generalize hl : l :: L = loops at h
  induction h generalizing l L with
  | program => cases hc
  | called => cases hc
  | callback => cases hc
  | started _ _ place call =>
    cases hl
    exact ⟨place, call⟩
  | nested _ _ place ih =>
    cases hl
    exact ⟨place, (ih rfl rfl).2⟩

theorem with_top (h : Sited s site .iterate (l :: L) F) (nested : l'.nested = l.nested)
    (pc : l'.pc = l.pc) : Sited s site .iterate (l' :: L) F := by
  cases h with
  | started h outer place call => exact .started h (nested.trans outer) (pc.trans place) call
  | nested h inner place => exact .nested h (nested.trans inner) (pc.trans place)

theorem outer (h : Sited s site .iterate (l :: L) F) :
    Sited s site (if l.nested then .iterate else .fetch) L F := by
  cases h with
  | started h outer =>
    rw [outer]
    exact h
  | nested h inner =>
    rw [inner]
    exact h

theorem of_return (h : Sited s site .fetch L (f :: F)) (plain : f.callback = false) :
    Sited s site .fetch L F := by
  cases h with
  | called h => exact h
  | callback _ native => simp [plain] at native

theorem of_callback_return (h : Sited s site .fetch L (f :: F)) (native : f.callback = true) :
    ∃ l K, L = l :: K ∧ Sited s site .iterate (l :: K) F := by
  cases h with
  | called _ plain => simp [native] at plain
  | callback h => exact ⟨_, _, rfl, h⟩

/-- Frames above the boundary of the innermost loop can go. -/
theorem drop (h : Sited s site .fetch L F) {k : Nat} (hk : k ≤ F.length - boundary L) :
    Sited s site .fetch L (F.drop k) := by
  induction k generalizing F with
  | zero => exact h
  | succ k ih =>
    cases h with
    | program => exact .program
    | @called L F f h plain entered call =>
      rw [List.length_cons] at hk
      exact ih h (by omega)
    | @callback l L F f _ _ boundary =>
      change k + 1 ≤ (f :: F).length - l.boundary at hk
      rw [List.length_cons, boundary] at hk
      omega

/-- All frames inside a loop can go. -/
theorem escape (h : Sited s site .fetch (l :: L) F) :
    Sited s site .iterate (l :: L) (F.drop (F.length + 1 - max l.boundary 1)) := by
  generalize hc : Control.fetch = c at h
  generalize hl : l :: L = loops at h
  induction h with
  | program => cases hl
  | @called K F f h _ _ _ ih =>
    -- An ordinary frame is above that of the callback and goes first.
    subst hl
    have hinside : l.boundary ≤ F.length := by
      cases hc
      exact h.threaded.boundary_le
    cases F with
    | nil => cases h.no_loops
    | cons g F =>
      have hpos : max l.boundary 1 ≤ (g :: F).length := by
        rw [List.length_cons] at hinside ⊢
        omega
      have hone : (f :: g :: F).length + 1 - max l.boundary 1 =
          (g :: F).length + 1 - max l.boundary 1 + 1 := by
        rw [show (f :: g :: F).length = (g :: F).length + 1 from rfl]
        omega
      rw [hone, List.drop_succ_cons]
      exact ih hc rfl
  | @callback x K F f h _ boundary =>
    cases hl
    have hone : (f :: F).length + 1 - max l.boundary 1 = 1 := by
      rw [List.length_cons, boundary]
      omega
    rw [hone]
    exact h
  | started => cases hc
  | nested => cases hc

/-- Every frame but the innermost has come to a call. -/
theorem calls (h : Sited s site c L F) : ∀ d < F.length, s.CallsAt (site d) := by
  induction h with
  | program => intro d hd; cases hd
  | @called L F f _ _ _ call ih =>
    intro d hd
    rcases Nat.lt_succ_iff_lt_or_eq.mp hd with hd | rfl
    · exact ih d hd
    · exact call
  | @callback l L F f h _ _ _ ih =>
    intro d hd
    rcases Nat.lt_succ_iff_lt_or_eq.mp hd with hd | rfl
    · exact ih d hd
    · exact h.site_of_iterate.2
  | started _ _ _ _ ih => exact ih
  | nested _ _ _ ih => exact ih

end Sited

/-- A machine whose frames and loops are in order; a native loop goes on where it was called. -/
structure Placed (s : Setup) (site : Nat → Int) (m : Machine) : Prop where
  order : Sited s site m.control m.loops m.frames
  here : m.control = .iterate → m.pc = site m.frames.length

end Machine

/-- A run that is over has nothing left to be in order. -/
def Status.Placed (s : Setup) (site : Nat → Int) : Status → Prop
  | .running m => m.Placed s site
  | .ended _ _ => True

namespace Machine

variable {m n : Machine}

/-! A step. -/

theorem carryOut_pc (m : Machine) (callee : Value) (args : List Value) :
    (carryOut s m callee args).machine.pc = m.pc := by
  unfold carryOut
  split
  · rfl
  · obtain ⟨r, w, hr⟩ | ⟨l, hr, -⟩ := callNative_cases s m false callee args
    · rw [hr]
      cases r <;> rfl
    · rw [hr]
      rfl

/-- The instruction that is executed does not change during its step, and it is a call if the step
enters a frame or starts a loop. -/
theorem step_place {ins : Instruction} (control : m.control = .fetch)
    (has : s.program.instruction? m.ip = some ins) (go : m.tick.stopBefore? = none) :
    ((m.begun s ins).step s ins).machine.pc = m.ip ∧
      (s.CallsAt m.ip ∨
        ((m.begun s ins).step s ins).machine.loops = m.loops ∧
          ((m.begun s ins).step s ins).machine.frames.length ≤ m.frames.length) := by
  have hpc := m.begun_pc (s := s) ins
  have hkeeps := m.begun_keeps (s := s) ins
  obtain ⟨c, hcall, hby, hstep⟩ | ⟨-, hstep⟩ := step_carriesOut control has go
  · refine ⟨?_, .inl ?_⟩
    · rw [hstep, carryOut_pc, hby.pc, hpc]
    · unfold invocation? at hcall
      rw [control] at hcall
      dsimp only at hcall
      rw [has, go] at hcall
      obtain ⟨op, hop, hcalls⟩ := Option.bind_eq_some_iff.mp hcall
      exact ⟨ins, op, has, hop, isCall_of_calls? hcalls⟩
  · refine ⟨hstep.pc.trans hpc, .inr ⟨hstep.loops.trans hkeeps.loops, ?_⟩⟩
    rw [← hkeeps.frames]
    exact hstep.height

/-- A failure that an exception is, or that ends the run, leaves no frames behind. -/
theorem Sited.fail {inside : Bool} {f : Failure} {L : List Loop}
    (h : Sited s site (if inside then .fetch else .iterate) L m.frames)
    (hf : f.isException = true ∨ f.isFinal = true ∨ L = []) :
    (fail s inside f m L).Placed s site := by
  by_cases hfinal : f.isFinal = true
  · obtain ⟨ip, pc, he⟩ := fail_eq_ended (s := s) hfinal inside m L
    rw [he]
    trivial
  replace hf : f.isException = true ∨ L = [] := hf.imp_right fun h => h.resolve_left hfinal
  induction L generalizing inside f m with
  | nil =>
    cases inside with
    | false => cases h
    | true =>
      have hoffer := offer_frames s m f 0
      unfold Machine.fail
      cases ho : m.offer s f 0 with
      | inr e => trivial
      | inl n =>
        rw [ho] at hoffer
        obtain ⟨hcontrol, k, hk, hframes⟩ := hoffer
        refine ⟨?_, fun hc => ?_⟩
        · change Sited s site n.control [] n.frames
          rw [hcontrol, hframes]
          exact h.drop hk
        · cases hcontrol.symm.trans hc
  | cons l L ih =>
    have hf : f.isException = true := hf.resolve_right (List.cons_ne_nil l L)
    -- The failure comes out in the instruction or in the loop that has started this one.
    have hpass {n : Machine} {g : Failure} (hg : g.isException = true)
        (hn : Sited s site .iterate (l :: L) n.frames) :
        (Machine.fail s false g n (l :: L)).Placed s site := by
      rw [fail_of_loop hg]
      refine ih ?_ ?_ (.inl hg)
      · have hout := hn.outer
        cases hl : l.nested with
        | false =>
          rw [hl] at hout
          exact hout
        | true =>
          rw [hl] at hout
          exact hout
      · cases g <;> first | exact Bool.false_ne_true | cases hg
    cases inside with
    | false => exact hpass hf h
    | true =>
      simp only [if_true] at h
      cases ho : m.offer s f l.boundary with
      | inl n =>
        have hoffer := offer_frames s m f l.boundary
        rw [ho] at hoffer
        obtain ⟨hcontrol, k, hk, hframes⟩ := hoffer
        rw [fail_of_handled (L := l :: L) ho]
        refine ⟨?_, fun hc => ?_⟩
        · change Sited s site n.control (l :: L) n.frames
          rw [hcontrol, hframes]
          exact h.drop hk
        · cases hcontrol.symm.trans hc
      | inr e =>
        obtain ⟨g, n⟩ := e
        obtain ⟨hframes, id, rfl, -⟩ := offer_escaped hf ho
        rw [fail_of_escaped ho]
        refine hpass rfl ?_
        rw [hframes]
        exact h.escape

theorem Sited.deliver (h : Sited s site .iterate m.loops m.frames) (v : Value) :
    (m.deliver v).Placed s site := by
  unfold Machine.deliver
  cases hl : m.loops with
  | nil => trivial
  | cons l L =>
    rw [hl] at h
    obtain ⟨-, hnested, -, hpc⟩ := l.absorb_eq m.world.store v false
    exact ⟨h.with_top hnested hpc, fun _ => h.site_of_iterate.1⟩

/-- The frame of a callback returns to its loop, every other one to the instruction after its call. -/
theorem Sited.settle {e : List Frame → List Loop → Effect} (he : Effect.Natural s m e)
    (hc : m.control = .fetch) (h : Sited s site .fetch m.loops m.frames)
    (place : (e m.frames m.loops).machine.pc = site m.frames.length)
    (calls : s.CallsAt (site m.frames.length) ∨ (e m.frames m.loops).machine.loops = m.loops ∧
      (e m.frames m.loops).machine.frames.length ≤ m.frames.length)
    (unrefused : ∀ t n, e m.frames m.loops = .failed (.output t) n → n.loops = []) :
    (settle s (e m.frames m.loops)).Placed s site := by
  have hself := FramesAlike.refl m.frames
  cases he with
  | @next n keeps same =>
    rw [same _ _ hself]
    refine ⟨?_, fun hn => ?_⟩
    · change Sited s site n.control m.loops m.frames
      rw [keeps.control, hc]
      exact h
    · cases ((keeps.control.trans hc).symm.trans hn)
  | @failed f n keeps _ usual same =>
    rw [same _ _ hself] at unrefused ⊢
    refine Sited.fail h ?_
    rcases usual with hf | hf | ⟨t, rfl⟩
    · exact .inl hf
    · exact .inr (.inl hf)
    · exact .inr (.inr (unrefused t _ rfl))
  | @enters n c self args keeps room same =>
    rw [same _ _ hself] at place calls ⊢
    have hcalls : s.CallsAt (site m.frames.length) := by
      refine calls.resolve_right fun hno => ?_
      have hmore : m.frames.length + 1 ≤ m.frames.length := hno.2
      omega
    refine ⟨?_, fun hn => ?_⟩
    · change Sited s site n.control m.loops (_ :: m.frames)
      rw [keeps.control, hc]
      exact .called h rfl place hcalls
    · cases ((keeps.control.trans hc).symm.trans hn)
  | @loops n l keeps at_ boundary outer same =>
    rw [same _ _ hself] at place calls ⊢
    have hcalls : s.CallsAt (site m.frames.length) := by
      refine calls.resolve_right fun hno => ?_
      have hmore : (l :: m.loops).length = m.loops.length := congrArg List.length hno.1
      simp at hmore
    exact ⟨.started h outer (at_.2.trans place) hcalls, fun _ => place⟩
  | @returns n g v top loops control same =>
    rw [top] at h ⊢
    rw [same g _ _ rfl (FramesAlike.refl n.frames)]
    cases hg : g.callback with
    | true =>
      obtain ⟨l, K, hl, hn⟩ := h.of_callback_return hg
      change ((n.dress n.frames m.loops).deliver v).Placed s site
      rw [← hl] at hn
      exact Sited.deliver (m := n.dress n.frames m.loops) hn v
    | false =>
      refine ⟨?_, fun hn => ?_⟩
      · change Sited s site n.control m.loops n.frames
        rw [control, hc]
        exact h.of_return hg
      · cases ((control.trans hc).symm.trans hn)

/-- No write that a machine does next is refused inside a native loop. -/
def Unrefused (s : Setup) (m : Machine) : Prop :=
  ∀ t m', m.Fails s (.output t) m' → m'.loops = []

theorem Placed.callBack {l : Loop} {L : List Loop} (hl : m.loops = l :: L) (h : m.Placed s site)
    (hc : m.control = .iterate) (boundary : l.boundary = m.frames.length + 1)
    (callee : Value) (args : List Value) : (m.callBack s callee args).Placed s site := by
  have horder : Sited s site .iterate m.loops m.frames := hc ▸ h.order
  have hfail {f : Failure} {n : Machine} (hf : f.isException = true ∨ f.isFinal = true)
      (hn : n.frames = m.frames) : (Machine.fail s false f n m.loops).Placed s site := by
    refine Sited.fail ?_ (hf.imp_right .inl)
    rw [hn]
    exact horder
  unfold Machine.callBack
  split
  · exact hfail (.inl rfl) rfl
  · split
    · split
      · exact hfail (.inl rfl) rfl
      · refine ⟨?_, fun hn => by cases hn⟩
        change Sited s site .fetch m.loops (_ :: m.frames)
        rw [hl] at horder ⊢
        exact .callback horder rfl boundary (h.here hc)
    · obtain ⟨r, w, hr⟩ | ⟨l', hr, hnested, -, -, hpc⟩ := callNative_cases s m true callee args
      · rw [hr]
        cases r with
        | ok v => exact Sited.deliver (m := { m with world := w }) horder v
        | error f => exact hfail (callNative_error hr) rfl
      · rw [hr]
        refine ⟨?_, fun _ => h.here hc⟩
        change Sited s site .iterate (l' :: m.loops) m.frames
        rw [hl] at horder ⊢
        exact .nested horder hnested (hpc.trans (h.here hc))

theorem Placed.iterate (h : m.Placed s site) (hc : m.control = .iterate) :
    (m.iterate s).Placed s site := by
  have horder : Sited s site .iterate m.loops m.frames := hc ▸ h.order
  unfold Machine.iterate
  cases hl : m.loops with
  | nil =>
    rw [hl] at horder
    cases horder
  | cons l L =>
    rw [hl] at horder
    dsimp only
    split
    · unfold endLoop
      dsimp only
      have hout := horder.outer
      cases hn : l.nested with
      | true =>
        rw [hn] at hout
        exact Sited.deliver (m := { m with world := (l.result m.world).2, loops := L }) hout _
      | false =>
        rw [hn] at hout
        exact ⟨hout, fun hfetch => by cases hfetch⟩
    · next e rest _ =>
      let l' : Loop := { (l.take e rest).1 with boundary := m.frames.length + 1 }
      obtain ⟨-, hnested, -, hpc⟩ := l.take_eq e rest false
      have htop : Sited s site .iterate (l' :: L) m.frames := horder.with_top hnested hpc
      refine Placed.callBack (m := { m with loops := l' :: L }) rfl ⟨?_, h.here⟩ hc rfl _ _
      change Sited s site m.control (l' :: L) m.frames
      rw [hc]
      exact htop

/-- Where the frames have come to once the next instruction, if one is executed, has begun. -/
def reach (m : Machine) (site : Nat → Int) (d : Nat) : Int :=
  if m.control = .fetch ∧ m.frames.length = d then m.ip else site d

/-- A step that begins an instruction begins it in the innermost frame. -/
theorem Placed.reach (h : m.Placed s site) : m.Placed s (m.reach site) := by
  refine ⟨h.order.move fun d hd => if_neg fun hhere => ?_, fun hc => ?_⟩
  · rw [hhere.1, hhere.2] at hd
    simp at hd
  · refine (h.here hc).trans (if_neg fun hfetch => ?_).symm
    cases hc.symm.trans hfetch.1

theorem reach_of_fetch (control : m.control = .fetch) (site : Nat → Int) :
    m.reach site m.frames.length = m.ip := if_pos ⟨control, rfl⟩

/-- A step keeps frames and loops in order, unless a loop takes a refused write as its own error. -/
theorem Placed.advance (h : m.Placed s site) (unrefused : m.Unrefused s) :
    (m.advance s).Placed s (m.reach site) := by
  have hreach := h.reach
  cases hc : m.control with
  | iterate =>
    rw [advance_of_iterate hc]
    exact hreach.iterate hc
  | fetch =>
    have horder : Sited s (m.reach site) .fetch m.loops m.frames := hc ▸ hreach.order
    have hhere := reach_of_fetch hc site
    rw [advance_of_fetch hc]
    cases has : s.program.instruction? m.ip with
    | none =>
      unfold fetch
      rw [has]
      dsimp only
      split
      · next hend =>
        -- A program that is through has no frames, so no loop has called anything.
        have hempty : m.frames = [] := by simpa using (Bool.and_eq_true_iff.mp hend).2
        have hnone : m.loops = [] := (hempty ▸ horder).no_loops
        unfold Machine.deliver
        rw [hnone]
        trivial
      · exact Sited.fail horder (.inr (.inl rfl))
    | some ins =>
      cases go : m.tick.stopBefore? with
      | some reason =>
        unfold fetch
        rw [has]
        dsimp only
        rw [go]
        exact Sited.fail horder (.inr (.inl rfl))
      | none =>
        have hbegun := m.begun_keeps (s := s) ins
        obtain ⟨hplace, hcalls⟩ := step_place hc has go
        rw [fetch_eq_settle has go]
        refine Sited.settle (s := s) (m := m.begun s ins)
          (e := fun F L => ((m.begun s ins).dress F L).step s ins)
          (step_natural (m.begun s ins) ins) (hbegun.control.trans hc) ?_ ?_ ?_ ?_
        · rw [hbegun.loops, hbegun.frames]
          exact horder
        · refine hplace.trans ?_
          rw [hbegun.frames, hhere]
        · rw [← hhere, ← hbegun.frames, ← hbegun.loops] at hcalls
          exact hcalls
        · exact fun t n ht => unrefused t n (.instruction hc has go ht)

end Machine

end BytecodeMachine
