import BytecodeMachine.Machine.Session
import BytecodeMachine.Proofs.Machine.Steps

/-! The frames, the scopes and the handlers of a machine stay in step. The invariant is kept by every
change, so it holds after any number of steps of any run; what a transfer unwinds is always there. -/
namespace BytecodeMachine

variable {s : Setup}

/-- The least scope depth inside the innermost of some frames. -/
def floorOf : List Frame → Nat
  | [] => 0
  | f :: _ => f.scopeDepth + 1

theorem Machine.scopeFloor_eq (m : Machine) : m.scopeFloor = floorOf m.frames := by
  unfold scopeFloor floorOf
  split <;> simp_all

/-- From the current scope, and from the one every frame saved, the way outwards inside that frame
ends at the scope the frame began with, and outside all frames at the global one. -/
def Scopes.Rooted (S : Scopes) : List Frame → (scope depth : Nat) → (bases : List Nat) → Prop
  | [], scope, depth, bases => bases = [] ∧ S.climb depth scope = some World.globals
  | _ :: _, _, _, [] => False
  | f :: fs, scope, depth, base :: bases =>
    S.climb (depth - (f.scopeDepth + 1)) scope = some base ∧ S.Rooted fs f.scope f.scopeDepth bases

theorem Scopes.Rooted.extend {S S' : Scopes} (h : S.Extends S') {frames : List Frame}
    {scope depth : Nat} {bases : List Nat} (hr : S.Rooted frames scope depth bases) :
    S'.Rooted frames scope depth bases := by
  induction frames generalizing scope depth bases with
  | nil => exact ⟨hr.1, h.climb hr.2⟩
  | cons f fs ih =>
    cases bases with
    | nil => exact hr
    | cons base bases => exact ⟨h.climb hr.1, ih hr.2⟩

/-- One way on, whatever the frames are: only the way from the current scope to the end counts. -/
theorem Scopes.Rooted.move {S : Scopes} {frames : List Frame} {scope scope' depth depth' : Nat}
    {bases : List Nat} (hr : S.Rooted frames scope depth bases)
    (hw : ∀ b, S.climb (depth - floorOf frames) scope = some b →
      S.climb (depth' - floorOf frames) scope' = some b) :
    S.Rooted frames scope' depth' bases := by
  cases frames with
  | nil => exact ⟨hr.1, hw _ hr.2⟩
  | cons f fs =>
    cases bases with
    | nil => exact hr
    | cons base bases => exact ⟨hw _ hr.1, hr.2⟩

theorem Scopes.Rooted.climbs {S : Scopes} {frames : List Frame} {scope depth : Nat}
    {bases : List Nat} (hr : S.Rooted frames scope depth bases) :
    ∃ b, S.climb (depth - floorOf frames) scope = some b := by
  cases frames with
  | nil => exact ⟨_, hr.2⟩
  | cons f fs =>
    cases bases with
    | nil => exact hr.elim
    | cons base bases => exact ⟨base, hr.1⟩

namespace Machine

/-- The frames and scopes of a machine are in step, when its frames began with the scopes `bases`,
the innermost first. Frames and handlers are listed from the top down. -/
structure Anchored (m : Machine) (bases : List Nat) : Prop where
  frames_sorted : m.frames.Pairwise fun f below => below.scopeDepth < f.scopeDepth
  floor_le : m.scopeFloor ≤ m.scopeDepth
  rooted : m.scopes.Rooted m.frames m.scope m.scopeDepth bases

/-- The invariant of a machine: the handlers are in step with the frames and scopes too, and the
frames are not too many. -/
structure WellFormed (s : Setup) (m : Machine) (bases : List Nat) : Prop extends
    Anchored m bases where
  /-- Further up the stack, handlers belong to the same frame or to inner ones. -/
  handlers_sorted : m.handlers.Pairwise fun h below => below.callDepth ≤ h.callDepth
  handlers_framed : ∀ h ∈ m.handlers, h.callDepth ≤ m.frames.length
  /-- A handler lies at or above the floor of the frame it was pushed in. -/
  handlers_inside : ∀ h ∈ m.handlers,
    floorOf (m.frames.drop (m.frames.length - h.callDepth)) ≤ h.scopeDepth
  frames_le : m.frames.length ≤ s.maxCallDepth

/-- Leaving a scope above the floor follows a parent that is there. -/
theorem Anchored.leaveScope {m : Machine} {bases : List Nat} (h : m.Anchored bases)
    (inside : m.scopeFloor < m.scopeDepth) :
    m.scopes.parent? m.scope = some m.leaveScope.scope ∧ m.leaveScope.Anchored bases := by
  have hfloor := m.scopeFloor_eq
  obtain ⟨b, hb⟩ := h.rooted.climbs
  obtain ⟨k, hk⟩ : ∃ k, m.scopeDepth - floorOf m.frames = k + 1 :=
    ⟨m.scopeDepth - floorOf m.frames - 1, by omega⟩
  rw [hk, Scopes.climb] at hb
  obtain ⟨p, hp, _⟩ := Option.bind_eq_some_iff.mp hb
  have hscope : m.leaveScope.scope = p := by
    have hd : m.leaveScope.scope = (m.scopes.parent? m.scope).getD World.globals := rfl
    rw [hd, hp, Option.getD_some]
  refine ⟨hscope ▸ hp, h.frames_sorted, ?_, ?_⟩
  · have hd : m.leaveScope.scopeDepth = m.scopeDepth - 1 := rfl
    have hf : m.leaveScope.scopeFloor = m.scopeFloor := rfl
    omega
  · refine Scopes.Rooted.move h.rooted fun b hb => ?_
    have hd : m.leaveScope.scopeDepth - floorOf m.frames = k := by
      change m.scopeDepth - 1 - floorOf m.frames = k
      omega
    change m.scopes.climb (m.scopeDepth - floorOf m.frames) m.scope = some b at hb
    change m.scopes.climb (m.leaveScope.scopeDepth - floorOf m.frames) m.leaveScope.scope = some b
    rw [hk, Scopes.climb, hp] at hb
    rw [hd, hscope]
    exact hb

theorem Anchored.pushScope {m : Machine} {bases : List Nat} (h : m.Anchored bases) :
    m.pushScope.Anchored bases := by
  have hfloor := m.scopeFloor_eq
  have hle := h.floor_le
  refine ⟨h.frames_sorted, ?_, ?_⟩
  · have hd : m.pushScope.scopeDepth = m.scopeDepth + 1 := rfl
    have hf : m.pushScope.scopeFloor = m.scopeFloor := rfl
    omega
  · have hext := Scopes.extends_push m.scopes (some m.scope)
    refine Scopes.Rooted.move (h.rooted.extend hext) fun b hb => ?_
    have hd : m.scopeDepth + 1 - floorOf m.frames = m.scopeDepth - floorOf m.frames + 1 := by omega
    change (m.scopes.push (some m.scope)).2.climb (m.scopeDepth + 1 - floorOf m.frames)
      m.scopes.cells.size = some b
    rw [hd, Scopes.climb, Scopes.parent?_push_fresh]
    exact hb

/-- The frame that is dropped takes its first scope along. -/
theorem Anchored.popFrame {m : Machine} {bases : List Nat} (h : m.Anchored bases)
    (has : m.frames ≠ []) : m.popFrame.Anchored (bases.drop 1) := by
  obtain ⟨f, fs, hf⟩ := List.exists_cons_of_ne_nil has
  have hpop : m.popFrame = { m with
      frames := fs, scope := f.scope, scopeDepth := f.scopeDepth
      stack := truncated m.stack f.stackBase } := by
    unfold Machine.popFrame
    rw [hf]
  have hsorted := h.frames_sorted
  have hrooted := h.rooted
  rw [hf] at hsorted hrooted
  rw [hpop]
  refine ⟨hsorted.tail, ?_, ?_⟩
  · rw [scopeFloor_eq]
    cases fs with
    | nil => exact Nat.zero_le _
    | cons g gs => exact List.rel_of_pairwise_cons hsorted (by simp)
  · cases bases with
    | nil => exact hrooted.elim
    | cons base bases => exact hrooted.2

theorem Anchored.popFrames {n : Nat} {m : Machine} {bases : List Nat} (h : m.Anchored bases)
    (hn : n ≤ m.frames.length) : (popFrames n m).Anchored (bases.drop n) := by
  induction n generalizing m bases with
  | zero => exact h
  | succ n ih =>
    have hlen : m.popFrame.frames.length = m.frames.length - 1 := by
      rw [popFrame_frames, List.length_tail]
    have hone := h.popFrame (List.length_pos_iff.mp (by omega))
    have hall := ih hone (by omega)
    rw [List.drop_drop, Nat.add_comm] at hall
    exact hall

theorem WellFormed.quiet {m m' : Machine} {bases : List Nat} (h : m.WellFormed s bases)
    (hq : m.Quiet m') : m'.WellFormed s bases := by
  refine ⟨⟨?_, ?_, ?_⟩, ?_, ?_, ?_, ?_⟩
  · rw [hq.frames]
    exact h.frames_sorted
  · rw [m'.scopeFloor_eq, hq.frames, hq.scopeDepth, ← m.scopeFloor_eq]
    exact h.floor_le
  · rw [hq.frames, hq.scope, hq.scopeDepth]
    exact h.rooted.extend hq.parents
  · rw [hq.handlers]
    exact h.handlers_sorted
  · rw [hq.handlers, hq.frames]
    exact h.handlers_framed
  · rw [hq.handlers, hq.frames]
    exact h.handlers_inside
  · rw [hq.frames]
    exact h.frames_le

theorem WellFormed.popFrame {m : Machine} {bases : List Nat} (h : m.WellFormed s bases)
    (has : m.frames ≠ []) (left : ∀ d ∈ m.handlers.head?, d.callDepth ≠ m.frames.length) :
    m.popFrame.WellFormed s (bases.drop 1) := by
  have hpos : 0 < m.frames.length := List.length_pos_iff.mpr has
  have hlen : m.popFrame.frames.length = m.frames.length - 1 := by
    rw [popFrame_frames, List.length_tail]
  have hhandlers := m.popFrame_handlers
  -- No handler of the dropped frame is left: the top one is not of it, and no other is above.
  have hbelow (d : Handler) (hd : d ∈ m.handlers) : d.callDepth ≤ m.frames.length - 1 := by
    obtain ⟨top, rest, ht⟩ := List.exists_cons_of_ne_nil (List.ne_nil_of_mem hd)
    have htop := h.handlers_framed top (by simp [ht])
    have hne := left top (by simp [ht])
    have hs := h.handlers_sorted
    rw [ht] at hs hd
    rcases List.mem_cons.mp hd with rfl | hd
    · omega
    · have := List.rel_of_pairwise_cons hs hd
      omega
  refine ⟨h.toAnchored.popFrame has, ?_, ?_, ?_, ?_⟩
  · rw [hhandlers]
    exact h.handlers_sorted
  · rw [hhandlers, hlen]
    exact hbelow
  · intro d hd
    rw [hhandlers] at hd
    have hin := h.handlers_inside d hd
    have hle := hbelow d hd
    have hshift : m.frames.length - d.callDepth = m.frames.length - 1 - d.callDepth + 1 := by omega
    rw [hlen, popFrame_frames, List.drop_tail, ← hshift]
    exact hin
  · have := h.frames_le
    omega

theorem WellFormed.pushHandler {m : Machine} {bases : List Nat} (h : m.WellFormed s bases)
    (catchAddr finallyAddr : Int) : (m.pushHandler s catchAddr finallyAddr).WellFormed s bases := by
  refine ⟨⟨h.frames_sorted, h.floor_le, h.rooted⟩, ?_, ?_, ?_, h.frames_le⟩
  · exact List.pairwise_cons.mpr ⟨h.handlers_framed, h.handlers_sorted⟩
  · intro d hd
    rcases List.mem_cons.mp hd with rfl | hd
    · exact Nat.le_refl _
    · exact h.handlers_framed d hd
  · intro d hd
    rcases List.mem_cons.mp hd with rfl | hd
    · have hle := h.floor_le
      rw [scopeFloor_eq] at hle
      simpa [Machine.pushHandler] using hle
    · exact h.handlers_inside d hd

/-- What happens to a handler never moves it: depths stay as they were when it was pushed. -/
theorem WellFormed.shift {m : Machine} {bases : List Nat} (h : m.WellFormed s bases)
    {e : HandlerEvent} {handlers : List Handler} (hs : Shift e m.handlers handlers)
    (old : e ≠ .pushed) : { m with handlers := handlers }.WellFormed s bases := by
  have hsorted := h.handlers_sorted
  have hframed := h.handlers_framed
  have hinside := h.handlers_inside
  generalize m.handlers = before at hs hsorted hframed hinside
  have hbase : { m with handlers := handlers }.Anchored bases :=
    ⟨h.frames_sorted, h.floor_le, h.rooted⟩
  cases hs with
  | pushed => exact absurd rfl old
  | arrived | caught | entered =>
    exact ⟨hbase, List.pairwise_cons.mpr ⟨(List.pairwise_cons.mp hsorted).1, hsorted.tail⟩,
      List.forall_mem_cons.mpr (List.forall_mem_cons.mp hframed),
      List.forall_mem_cons.mpr (List.forall_mem_cons.mp hinside), h.frames_le⟩
  | spent | popped | ended =>
    exact ⟨hbase, hsorted.tail, (List.forall_mem_cons.mp hframed).2,
      (List.forall_mem_cons.mp hinside).2, h.frames_le⟩

/-- Every change keeps the invariant. -/
theorem WellFormed.change {m m' : Machine} {log : List HandlerEvent} {bases : List Nat}
    (h : m.WellFormed s bases) (hc : Change s m log m') :
    m'.frames.length ≤ m.frames.length ∧
      m'.WellFormed s (bases.drop (m.frames.length - m'.frames.length)) := by
  cases hc with
  | quiet hq =>
    have hlen : m'.frames.length = m.frames.length := congrArg List.length hq.frames
    rw [hlen, Nat.sub_self]
    exact ⟨Nat.le_refl _, h.quiet hq⟩
  | pushScope =>
    have hlen : m.pushScope.frames.length = m.frames.length := rfl
    rw [hlen, Nat.sub_self]
    exact ⟨Nat.le_refl _, h.toAnchored.pushScope, h.handlers_sorted, h.handlers_framed,
      h.handlers_inside, h.frames_le⟩
  | popScope inside =>
    have hlen : m.leaveScope.frames.length = m.frames.length := rfl
    rw [hlen, Nat.sub_self]
    exact ⟨Nat.le_refl _, (h.toAnchored.leaveScope inside).2, h.handlers_sorted,
      h.handlers_framed, h.handlers_inside, h.frames_le⟩
  | @unwindScope d rest top here younger =>
    have hd : d ∈ m.handlers := by simp [top]
    -- The handler belongs to the current frame, so its depth is not below the floor.
    have hin := h.handlers_inside d hd
    have hframe : m.frames.length - d.callDepth = 0 := by omega
    rw [hframe, List.drop_zero, ← scopeFloor_eq] at hin
    have hlen : m.leaveScope.frames.length = m.frames.length := rfl
    rw [hlen, Nat.sub_self]
    exact ⟨Nat.le_refl _, (h.toAnchored.leaveScope (by omega)).2, h.handlers_sorted,
      h.handlers_framed, h.handlers_inside, h.frames_le⟩
  | popFrame has left =>
    have hpos : 0 < m.frames.length := List.length_pos_iff.mpr has
    have hlen : m.popFrame.frames.length = m.frames.length - 1 := by
      rw [popFrame_frames, List.length_tail]
    have hone : m.frames.length - m.popFrame.frames.length = 1 := by omega
    rw [hone]
    exact ⟨by omega, h.popFrame has left⟩
  | pushHandler catchAddr finallyAddr =>
    have hlen : (m.pushHandler s catchAddr finallyAddr).frames.length = m.frames.length := rfl
    rw [hlen, Nat.sub_self]
    exact ⟨Nat.le_refl _, h.pushHandler catchAddr finallyAddr⟩
  | @shift _ handlers hs old =>
    have hlen : { m with handlers := handlers }.frames.length = m.frames.length := rfl
    rw [hlen, Nat.sub_self]
    exact ⟨Nat.le_refl _, h.shift hs old⟩

theorem WellFormed.changes {m m' : Machine} {log : List HandlerEvent} {bases : List Nat}
    (h : m.WellFormed s bases) (hc : Changes s m log m') :
    m'.frames.length ≤ m.frames.length ∧
      m'.WellFormed s (bases.drop (m.frames.length - m'.frames.length)) := by
  induction hc generalizing bases with
  | refl m =>
    rw [Nat.sub_self]
    exact ⟨Nat.le_refl _, h⟩
  | @cons m m₁ m₂ _ _ hone _ ih =>
    obtain ⟨hle, h₁⟩ := h.change hone
    obtain ⟨hle', h₂⟩ := ih h₁
    have hsum : m.frames.length - m₁.frames.length + (m₁.frames.length - m₂.frames.length) =
        m.frames.length - m₂.frames.length := by omega
    rw [List.drop_drop, hsum] at h₂
    exact ⟨by omega, h₂⟩

/-- A new frame begins with the scope that is made for it. -/
theorem WellFormed.enters {m m' : Machine} {bases : List Nat} (h : m.WellFormed s bases)
    (hi : m.Enters s m') : m'.WellFormed s (m'.scope :: bases) := by
  obtain ⟨f, hf, hfs, hfd⟩ := hi.frame
  have hlen : m'.frames.length = m.frames.length + 1 := by rw [hf, List.length_cons]
  have hle := h.floor_le
  rw [scopeFloor_eq] at hle
  refine ⟨⟨?_, ?_, ?_⟩, ?_, ?_, ?_, ?_⟩
  · rw [hf]
    refine List.pairwise_cons.mpr ⟨fun g hg => ?_, h.frames_sorted⟩
    rw [hfd]
    cases hfr : m.frames with
    | nil => simp [hfr] at hg
    | cons top rest =>
      have hsorted := h.frames_sorted
      rw [hfr] at hg hle hsorted
      change top.scopeDepth + 1 ≤ m.scopeDepth at hle
      rcases List.mem_cons.mp hg with rfl | hg
      · omega
      · have := List.rel_of_pairwise_cons hsorted hg
        omega
  · rw [scopeFloor_eq, hf, hi.scopeDepth]
    change f.scopeDepth + 1 ≤ m.scopeDepth + 1
    omega
  · rw [hf, hi.scopeDepth]
    have hzero : m.scopeDepth + 1 - (f.scopeDepth + 1) = 0 := by omega
    refine ⟨?_, ?_⟩
    · rw [hzero]
      rfl
    · rw [hfs, hfd]
      exact h.rooted.extend hi.parents
  · rw [hi.handlers]
    exact h.handlers_sorted
  · intro d hd
    rw [hi.handlers] at hd
    have := h.handlers_framed d hd
    omega
  · intro d hd
    rw [hi.handlers] at hd
    have hfr := h.handlers_framed d hd
    have hshift : m'.frames.length - d.callDepth = m.frames.length - d.callDepth + 1 := by omega
    rw [hshift, hf, List.drop_succ_cons]
    exact h.handlers_inside d hd
  · have := hi.room
    omega

/-- The scopes that the frames began with, after one more step: a frame that is entered adds the
scope it begins with, and frames that are dropped take theirs along. -/
def nextBases (m m' : Machine) (bases : List Nat) : List Nat :=
  if m.frames.length < m'.frames.length then m'.scope :: bases
  else bases.drop (m.frames.length - m'.frames.length)

theorem WellFormed.advances {m m' : Machine} {log : List HandlerEvent} {bases : List Nat}
    (h : m.WellFormed s bases) (ha : Advances s m log m') :
    m'.WellFormed s (nextBases m m' bases) := by
  rcases ha with hc | ⟨m₁, hc, hf, hi⟩
  · obtain ⟨hle, h'⟩ := h.changes hc
    rw [nextBases, if_neg (by omega)]
    exact h'
  · obtain ⟨_, h₁⟩ := h.changes hc
    rw [hf, Nat.sub_self, List.drop_zero] at h₁
    have hlen : m.frames.length < m'.frames.length := by
      obtain ⟨f, hf', _⟩ := hi.frame
      rw [hf', List.length_cons, hf]
      omega
    rw [nextBases, if_pos hlen]
    exact h₁.enters hi

theorem WellFormed.advance {m : Machine} {bases : List Nat} (h : m.WellFormed s bases) :
    (m.advance s).machine.WellFormed s (nextBases m (m.advance s).machine bases) := by
  obtain ⟨_, _, ha⟩ := m.advance_advances (s := s)
  exact h.advances ha

end Machine

/-- A run after a number of steps. -/
def Setup.stateAfter (s : Setup) (w : World) (o : RunOptions) (n : Nat) : Status :=
  Machine.runFor s n (.running { world := w.renew o })

/-- A run after one more step. -/
def Status.next (s : Setup) : Status → Status
  | .running m => m.advance s
  | .ended e m => .ended e m

theorem Machine.runFor_succ (n : Nat) (st : Status) :
    runFor s (n + 1) st = (runFor s n st).next s := by
  induction n generalizing st with
  | zero => cases st <;> rfl
  | succ n ih =>
    cases st with
    | running m => exact ih (m.advance s)
    | ended e m => rfl

theorem Machine.runFor_add (j k : Nat) (st : Status) :
    runFor s (j + k) st = runFor s k (runFor s j st) := by
  induction k with
  | zero => rfl
  | succ k ih => rw [← Nat.add_assoc, runFor_succ, ih, ← runFor_succ]

theorem Machine.runFor_ended (n : Nat) (e : Ending) (m : Machine) :
    runFor s n (.ended e m) = .ended e m := by
  cases n <;> rfl

/-- A run that has ended stays as it is. -/
theorem Machine.runFor_mono {n k : Nat} {st : Status} {e : Ending} {m : Machine}
    (h : runFor s n st = .ended e m) (hk : n ≤ k) : runFor s k st = .ended e m := by
  obtain ⟨j, rfl⟩ := Nat.exists_eq_add_of_le hk
  rw [runFor_add, h, runFor_ended]

theorem Setup.stateAfter_succ (w : World) (o : RunOptions) (n : Nat) :
    s.stateAfter w o (n + 1) = (s.stateAfter w o n).next s := Machine.runFor_succ n _

/-- The scopes that the frames of a run began with, the innermost first. -/
def Setup.basesAfter (s : Setup) (w : World) (o : RunOptions) : Nat → List Nat
  | 0 => []
  | n + 1 =>
    Machine.nextBases (s.stateAfter w o n).machine (s.stateAfter w o (n + 1)).machine
      (s.basesAfter w o n)

theorem Setup.wellFormed_stateAfter (w : World) (o : RunOptions) (n : Nat) :
    (s.stateAfter w o n).machine.WellFormed s (s.basesAfter w o n) := by
  induction n with
  | zero =>
    have hnone : (s.stateAfter w o 0).machine.handlers = [] := rfl
    exact ⟨⟨List.Pairwise.nil, Nat.zero_le _, rfl, rfl⟩, List.Pairwise.nil, by simp [hnone],
      by simp [hnone], Nat.zero_le _⟩
  | succ n ih =>
    rw [basesAfter, stateAfter_succ]
    cases hst : s.stateAfter w o n with
    | running m =>
      rw [hst] at ih
      exact ih.advance
    | ended e m =>
      rw [hst] at ih
      have hsame : Machine.nextBases m m (s.basesAfter w o n) = s.basesAfter w o n := by
        rw [Machine.nextBases, if_neg (Nat.lt_irrefl _), Nat.sub_self, List.drop_zero]
      change m.WellFormed s (Machine.nextBases m m (s.basesAfter w o n))
      rw [hsame]
      exact ih

end BytecodeMachine
