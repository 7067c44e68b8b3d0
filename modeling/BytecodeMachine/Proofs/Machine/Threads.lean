import BytecodeMachine.Proofs.Machine.Natural

/-! Frames and native loops in the order in which they were entered. A loop that calls a function
waits under the frame of its callback, so a return finds the loop it belongs to, and the frames bound
the loops, but for those that another loop calls directly. -/
namespace BytecodeMachine

variable {s : Setup}

namespace Machine

/-- Frames and loops in the order in which they were entered. Where instructions are executed, the
innermost loop has called a function whose frame is still there; a loop was started by an instruction
or, if it is nested, by the loop around it. A refused write of a callback leaves frames behind, so
there may be other frames anywhere above. -/
inductive Threaded : Control → List Loop → List Frame → Prop
  | program : Threaded .fetch [] []
  | called {L : List Loop} {F : List Frame} (f : Frame) (h : Threaded .fetch L F) :
      Threaded .fetch L (f :: F)
  | callback {l : Loop} {L : List Loop} {F : List Frame} {f : Frame}
      (h : Threaded .iterate (l :: L) F) (native : f.callback = true)
      (boundary : l.boundary = F.length + 1) : Threaded .fetch (l :: L) (f :: F)
  | started {l : Loop} {L : List Loop} {F : List Frame} (h : Threaded .fetch L F)
      (outer : l.nested = false) : Threaded .iterate (l :: L) F
  | nested {l x : Loop} {L : List Loop} {F : List Frame} (h : Threaded .iterate (x :: L) F)
      (inner : l.nested = true) : Threaded .iterate (l :: x :: L) F

namespace Threaded

variable {l l' : Loop} {L : List Loop} {F : List Frame} {f : Frame}

theorem no_loops (F : List Frame) : Threaded .fetch [] F := by
  induction F with
  | nil => exact .program
  | cons f F ih => exact .called f ih

/-- What a loop has gathered and where its callbacks begin is open until it calls. -/
theorem with_top (h : Threaded .iterate (l :: L) F) (same : l'.nested = l.nested) :
    Threaded .iterate (l' :: L) F := by
  cases h with
  | started h outer => exact .started h (same.trans outer)
  | nested h inner => exact .nested h (same.trans inner)

theorem under (h : Threaded .iterate L F) (f : Frame) : Threaded .iterate L (f :: F) := by
  generalize hc : Control.iterate = c at h
  induction h with
  | program => cases hc
  | called => cases hc
  | callback => cases hc
  | started h outer => exact .started (.called f h) outer
  | nested _ inner ih => exact .nested (ih rfl) inner

/-- A loop goes on, whatever frames its callback has left behind. -/
theorem resume (h : Threaded .fetch (l :: L) F) : Threaded .iterate (l :: L) F := by
  generalize hc : Control.fetch = c at h
  generalize hl : l :: L = loops at h
  induction h with
  | program => cases hl
  | called f _ ih => exact (ih hc hl).under f
  | callback h =>
    rw [← hl] at h ⊢
    exact h.under _
  | started => cases hc
  | nested => cases hc

/-- Where a loop ends, whoever started it goes on. -/
theorem outer (h : Threaded .iterate (l :: L) F) :
    Threaded (if l.nested then .iterate else .fetch) L F := by
  cases h with
  | started h outer =>
    rw [outer]
    exact h
  | nested h inner =>
    rw [inner]
    exact h

theorem of_return (h : Threaded .fetch L (f :: F)) (called : f.callback = false) :
    Threaded .fetch L F := by
  cases h with
  | called _ h => exact h
  | callback _ native => simp [called] at native

theorem of_callback_return (h : Threaded .fetch (l :: L) (f :: F)) :
    Threaded .iterate (l :: L) F := by
  cases h with
  | called _ h => exact h.resume
  | callback h => exact h

/-- Frames above the boundary of the innermost loop can go. -/
theorem drop (h : Threaded .fetch L F) {k : Nat} (hk : k ≤ F.length - boundary L) :
    Threaded .fetch L (F.drop k) := by
  generalize hc : Control.fetch = c at h
  induction h generalizing k with
  | program =>
    rw [List.drop_nil]
    exact .program
  | @called L F f h ih =>
    cases k with
    | zero => exact .called f h
    | succ k =>
      rw [List.length_cons] at hk
      exact ih (by omega) rfl
  | @callback l L F f h native hb =>
    have hzero : k = 0 := by
      change k ≤ (f :: F).length - l.boundary at hk
      rw [List.length_cons, hb] at hk
      omega
    subst hzero
    exact .callback h native hb
  | started => cases hc
  | nested => cases hc

/-- All frames inside a loop can go. -/
theorem escape (h : Threaded .fetch (l :: L) F) :
    Threaded .iterate (l :: L) (F.drop (F.length + 1 - max l.boundary 1)) := by
  generalize hc : Control.fetch = c at h
  generalize hl : l :: L = loops at h
  induction h with
  | program => cases hl
  | @called L' F f h ih =>
    by_cases hmany : (f :: F).length + 1 - max l.boundary 1 = 0
    · rw [hmany, List.drop_zero]
      subst hl
      exact h.resume.under f
    · have hone : (f :: F).length + 1 - max l.boundary 1 = F.length + 1 - max l.boundary 1 + 1 := by
        rw [List.length_cons] at hmany ⊢
        omega
      rw [hone, List.drop_succ_cons]
      exact ih hc hl
  | @callback l' L' F f h native hb =>
    cases hl
    have hone : (f :: F).length + 1 - max l.boundary 1 = 1 := by
      rw [List.length_cons, hb]
      omega
    rw [hone]
    exact h
  | started => cases hc
  | nested => cases hc

/-- The innermost loop has called a function that is still there. -/
theorem boundary_le (h : Threaded .fetch L F) : boundary L ≤ F.length := by
  generalize hc : Control.fetch = c at h
  induction h with
  | program => exact Nat.le_refl _
  | called f _ ih => exact Nat.le_succ_of_le (ih hc)
  | callback h native hb => exact Nat.le_of_eq hb
  | started => cases hc
  | nested => cases hc

/-- Every loop but the nested ones stands on a frame of its own. -/
theorem length_le {c : Control} (h : Threaded c L F) :
    L.length ≤ F.length + L.countP (·.nested) + (if c = .iterate then 1 else 0) := by
  induction h with
  | program => exact Nat.zero_le _
  | called f _ ih =>
    simp only [List.length_cons] at ih ⊢
    omega
  | callback _ _ _ ih =>
    simp only [List.length_cons, reduceCtorEq, if_true, if_false] at ih ⊢
    omega
  | started _ outer ih =>
    simp only [List.length_cons, List.countP_cons, outer, reduceCtorEq, if_true, if_false] at ih ⊢
    omega
  | nested _ inner ih =>
    simp only [List.length_cons, List.countP_cons, inner, if_true] at ih ⊢
    omega

end Threaded

/-- The frames that are left where an exception is offered to the handlers inside a loop. -/
theorem throwTo_frames (m : Machine) (exc boundary : Nat) (handlers : List Handler) :
    match m.throwTo exc boundary handlers with
    | .handled n => ∃ k, k ≤ m.frames.length - boundary ∧ n.frames = m.frames.drop k
    | .escaped n => n.frames = m.frames.drop (m.frames.length + 1 - max boundary 1) := by
  have ht := throwTo_throws m exc boundary handlers
  generalize m.throwTo exc boundary handlers = t at ht ⊢
  cases ht with
  | @caught _ _ h _ _ inside | @entered _ _ h _ _ inside =>
    exact ⟨_, Nat.sub_le_sub_left inside _, unwindTo_frames m h⟩
  | escaped => exact popFrames_frames _ _

theorem offer_frames (s : Setup) (m : Machine) (f : Failure) (boundary : Nat) :
    match m.offer s f boundary with
    | .inl n => n.control = .fetch ∧
        ∃ k, k ≤ m.frames.length - boundary ∧ n.frames = m.frames.drop k
    | .inr (_, n) => n.frames = m.frames ∨
        n.frames = m.frames.drop (m.frames.length + 1 - max boundary 1) := by
  unfold offer
  cases he : m.exceptionOf f with
  | none => exact Or.inl rfl
  | some e =>
    obtain ⟨id, n⟩ := e
    have hs : (stamp s n id).frames = m.frames :=
      (stamp_quiet n id).frames.trans (exceptionOf_quiet he).frames
    have hthrow := throwTo_frames (stamp s n id) id boundary n.handlers
    rw [hs] at hthrow
    dsimp only [throwException]
    cases ht : throwTo (stamp s n id) id boundary n.handlers with
    | handled o =>
      rw [ht] at hthrow
      exact ⟨rfl, hthrow⟩
    | escaped o =>
      rw [ht] at hthrow
      exact Or.inr hthrow

end Machine

theorem Loop.take_nested (l : Loop) (e : Value) (rest : List Value) :
    (l.take e rest).1.nested = l.nested := by
  unfold Loop.take
  split <;> rfl

/-- The loops and frames of a run that goes on are in order. -/
def Status.Threaded : Status → Prop
  | .running m => Machine.Threaded m.control m.loops m.frames
  | .ended _ _ => True

namespace Machine

theorem Threaded.fail {inside : Bool} {f : Failure} {m : Machine} {L : List Loop}
    (h : Threaded (if inside then .fetch else .iterate) L m.frames) :
    (fail s inside f m L).Threaded := by
  induction L generalizing inside f m with
  | nil =>
    have hoffer := offer_frames s m f 0
    unfold Machine.fail
    cases ho : m.offer s f 0 with
    | inl n =>
      rw [ho] at hoffer
      change Threaded n.control [] n.frames
      rw [hoffer.1]
      exact Threaded.no_loops _
    | inr e => trivial
  | cons l L ih =>
    -- The failure comes out in the instruction or in the loop that has started this one.
    have hpass {n : Machine} (hn : Threaded .iterate (l :: L) n.frames) (f : Failure) :
        (Machine.fail s (!l.nested) (f.named l.name) { n with ip := l.ip, pc := l.pc } L).Threaded := by
      apply ih
      have hout := hn.outer
      cases hl : l.nested with
      | false =>
        rw [hl] at hout
        exact hout
      | true =>
        rw [hl] at hout
        exact hout
    unfold Machine.fail
    cases inside with
    | false => exact hpass h f
    | true =>
      have hoffer := offer_frames s m f l.boundary
      simp only [if_true] at h ⊢
      cases ho : m.offer s f l.boundary with
      | inl n =>
        rw [ho] at hoffer
        obtain ⟨hcontrol, k, hk, hframes⟩ := hoffer
        change Threaded n.control (l :: L) n.frames
        rw [hcontrol, hframes]
        exact h.drop hk
      | inr e =>
        rw [ho] at hoffer
        refine hpass (n := e.2) ?_ e.1
        rcases hoffer with hframes | hframes
        · rw [hframes]
          exact h.resume
        · rw [hframes]
          exact h.escape

theorem Threaded.deliver {m : Machine} (h : Threaded .iterate m.loops m.frames) (v : Value) :
    (m.deliver v).Threaded := by
  unfold Machine.deliver
  cases hl : m.loops with
  | nil => trivial
  | cons l L =>
    rw [hl] at h
    refine h.with_top ?_
    unfold Loop.absorb
    split <;> rfl

/-- The frame of a callback returns to its loop, every other one to an instruction. -/
theorem Threaded.settle {m : Machine} {e : List Frame → List Loop → Effect}
    (he : Effect.Natural s m e) (hc : m.control = .fetch)
    (h : Threaded .fetch m.loops m.frames) : (settle s (e m.frames m.loops)).Threaded := by
  have hself := FramesAlike.refl m.frames
  cases he with
  | @next n keeps same =>
    rw [same _ _ hself]
    change Threaded n.control m.loops m.frames
    rw [keeps.control, hc]
    exact h
  | failed keeps _ _ same =>
    rw [same _ _ hself]
    exact Threaded.fail h
  | @enters n c self args keeps room same =>
    rw [same _ _ hself]
    change Threaded n.control m.loops (_ :: m.frames)
    rw [keeps.control, hc]
    exact .called _ h
  | loops keeps place boundary outer same =>
    rw [same _ _ hself]
    exact .started h outer
  | @returns n g v top loops control same =>
    rw [top] at h ⊢
    rw [same g _ _ rfl (FramesAlike.refl n.frames)]
    cases hg : g.callback with
    | true =>
      change ((n.dress n.frames m.loops).deliver v).Threaded
      cases hl : m.loops with
      | nil => trivial
      | cons l L =>
        rw [hl] at h
        exact Threaded.deliver h.of_callback_return v
    | false =>
      change Threaded n.control m.loops n.frames
      rw [control, hc]
      exact h.of_return hg

/-- How a native call goes on: the frames stay, and a loop that it starts belongs to its caller. -/
theorem callNative_cases (s : Setup) (m : Machine) (nested : Bool) (callee : Value)
    (args : List Value) :
    (∃ r w, callNative s m nested callee args = .answered r { m with world := w }) ∨
      ∃ l : Loop, callNative s m nested callee args = .loops l m ∧ l.nested = nested ∧
        l.boundary = m.frames.length + 1 ∧ l.ip = m.ip ∧ l.pc = m.pc := by
  unfold callNative
  split
  · exact Or.inl ⟨_, _, rfl⟩
  · unfold callMethod
    dsimp only
    split
    · exact Or.inr ⟨_, rfl, rfl, rfl, rfl, rfl⟩
    · exact Or.inl ⟨_, m.world, rfl⟩
    · exact Or.inl ⟨_, _, rfl⟩
  · exact Or.inl ⟨_, m.world, rfl⟩

theorem Threaded.callBack {m : Machine} {l : Loop} {L : List Loop} (hl : m.loops = l :: L)
    (h : Threaded .iterate m.loops m.frames) (boundary : l.boundary = m.frames.length + 1)
    (callee : Value) (args : List Value) : (m.callBack s callee args).Threaded := by
  have hfail (f : Failure) {n : Machine} (hn : n.frames = m.frames) :
      (Machine.fail s false f n m.loops).Threaded := by
    apply Threaded.fail
    rw [hn]
    exact h
  unfold Machine.callBack
  split
  · exact hfail _ rfl
  · split
    · split
      · exact hfail _ rfl
      · rw [hl] at h
        change Threaded .fetch m.loops (_ :: m.frames)
        rw [hl]
        exact .callback h rfl boundary
    · obtain ⟨r, w, hr⟩ | ⟨l', hr, hnested, -⟩ := callNative_cases s m true callee args
      · rw [hr]
        cases r with
        | ok v => exact Threaded.deliver (m := { m with world := w }) h v
        | error f => exact hfail f rfl
      · rw [hr]
        change Threaded .iterate (l' :: m.loops) m.frames
        rw [hl] at h ⊢
        exact .nested h hnested

theorem Threaded.iterate {m : Machine} (h : Threaded .iterate m.loops m.frames) :
    (m.iterate s).Threaded := by
  unfold Machine.iterate
  cases hl : m.loops with
  | nil =>
    rw [hl] at h
    cases h
  | cons l L =>
    rw [hl] at h
    dsimp only
    split
    · unfold endLoop
      dsimp only
      have hout := h.outer
      cases hn : l.nested with
      | true =>
        rw [hn] at hout
        exact Threaded.deliver (m := { m with world := (l.result m.world).2, loops := L }) hout _
      | false =>
        rw [hn] at hout
        exact hout
    · next e rest _ =>
      let l' : Loop := { (l.take e rest).1 with boundary := m.frames.length + 1 }
      have htop : Threaded .iterate (l' :: L) m.frames := h.with_top (l.take_nested e rest)
      exact Threaded.callBack (m := { m with loops := l' :: L }) rfl htop rfl _ _

/-- Every step keeps frames and loops in order. -/
theorem Threaded.advance {m : Machine} (h : Threaded m.control m.loops m.frames) :
    (m.advance s).Threaded := by
  unfold Machine.advance
  cases hc : m.control with
  | iterate =>
    rw [hc] at h
    exact Threaded.iterate h
  | fetch =>
    rw [hc] at h
    dsimp only
    unfold fetch
    split
    · split
      · cases hl : m.loops with
        | nil =>
          unfold Machine.deliver
          rw [hl]
          trivial
        | cons l L =>
          rw [hl] at h
          have hres := h.resume
          rw [← hl] at hres
          exact Threaded.deliver hres .null
      · exact Threaded.fail h
    · next ins hi =>
      have hbegun := m.begun_keeps (s := s) ins
      dsimp only
      split
      · exact Threaded.fail h
      · have hm : Threaded .fetch (m.begun s ins).loops (m.begun s ins).frames := by
          rw [hbegun.loops, hbegun.frames]
          exact h
        exact Threaded.settle (step_natural (m.begun s ins) ins) (hbegun.control.trans hc) hm

end Machine

theorem Setup.threaded_stateAfter (s : Setup) (w : World) (o : RunOptions) (n : Nat) :
    (s.stateAfter w o n).Threaded := by
  induction n with
  | zero => exact Machine.Threaded.program
  | succ n ih =>
    rw [stateAfter_succ]
    cases hst : s.stateAfter w o n with
    | running m =>
      rw [hst] at ih
      exact Machine.Threaded.advance ih
    | ended e m => trivial

end BytecodeMachine
