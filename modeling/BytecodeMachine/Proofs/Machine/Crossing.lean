import BytecodeMachine.Proofs.Machine.Stages

/-! A call that an instruction makes and the same call from inside a native loop. Both runs go through
the same states, but for the loops around them and for who the frame of the function returns to, until
the call is over: then both have the same answer, or the same failure. -/
namespace BytecodeMachine

variable {s : Setup}

/-- A place where a function is called: the frames around it, the loops around the instruction that
calls it, the frame it gets there, and the loop that calls it instead, with those around that loop. -/
structure Crossing where
  around : List Frame
  loops : List Loop
  frame : Frame
  loop : Loop
  outer : List Loop
  called : frame.callback = false
  back : frame.returnIp = loop.ip
  boundary : loop.boundary = around.length + 1
  inside : Machine.boundary loops ≤ around.length

namespace Crossing

/-- The loops and frames of the two runs while the call is under way. Above the frame of the function,
or the loop that a native function starts, they are the same. -/
inductive Mirrors (x : Crossing) :
    Control → List Loop → List Frame → List Loop → List Frame → Prop
  | function (A : List Frame) (plain : ∀ a ∈ A, a.callback = false) :
      Mirrors x .fetch x.loops (A ++ x.frame :: x.around) (x.loop :: x.outer)
        (A ++ { x.frame with callback := true } :: x.around)
  | native (y : Loop) (called : y.nested = false) (ip : y.ip = x.loop.ip) (pc : y.pc = x.loop.pc) :
      Mirrors x .iterate (y :: x.loops) x.around
        ({ y with nested := true } :: x.loop :: x.outer) x.around
  | callback {y y' : Loop} {K K' : List Loop} {G G' : List Frame} (A : List Frame) (g : Frame)
      (plain : ∀ a ∈ A, a.callback = false) (native : g.callback = true)
      (boundary : y.boundary = G.length + 1) (h : Mirrors x .iterate (y :: K) G (y' :: K') G') :
      Mirrors x .fetch (y :: K) (A ++ g :: G) (y' :: K') (A ++ g :: G')
  | started {K K' : List Loop} {G G' : List Frame} (y : Loop) (called : y.nested = false)
      (h : Mirrors x .fetch K G K' G') : Mirrors x .iterate (y :: K) G (y :: K') G'
  | nested {z z' : Loop} {K K' : List Loop} {G G' : List Frame} (y : Loop) (inner : y.nested = true)
      (h : Mirrors x .iterate (z :: K) G (z' :: K') G') :
      Mirrors x .iterate (y :: z :: K) G (y :: z' :: K') G'

namespace Mirrors

variable {x : Crossing} {c : Control} {y z : Loop} {K K' : List Loop} {G G' : List Frame}

theorem alike (h : Mirrors x c K G K' G') : FramesAlike G' G := by
  have hover {f g : Frame} (hf : f.anyCaller = g.anyCaller) {F F' : List Frame}
      (hF : FramesAlike F' F) (A : List Frame) : FramesAlike (A ++ f :: F') (A ++ g :: F) := by
    induction A with
    | nil => exact FramesAlike.cons hf hF
    | cons a A ih => exact FramesAlike.cons rfl ih
  induction h with
  | function A =>
    have hframe : x.frame.anyCaller = { x.frame with callback := true }.anyCaller := rfl
    exact hover hframe.symm (FramesAlike.refl x.around) A
  | native => exact FramesAlike.refl _
  | callback A _ _ _ _ _ ih => exact hover rfl ih A
  | started _ _ _ ih => exact ih
  | nested _ _ _ ih => exact ih

theorem framed (h : Mirrors x .fetch K G K' G') : G ≠ [] := by
  cases h <;> simp

/-- The innermost loops are the same, up to who has called them. -/
theorem top (h : Mirrors x .iterate K G K' G') : ∃ y b L L', K = y :: L ∧
    K' = { y with nested := b } :: L' := by
  cases h with
  | native y => exact ⟨y, true, _, _, rfl, rfl⟩
  | started y => exact ⟨y, y.nested, _, _, rfl, rfl⟩
  | nested y => exact ⟨y, y.nested, _, _, rfl, rfl⟩

/-- What a loop has gathered and where its callbacks begin is open until it calls. -/
theorem with_top {b : Bool} (h : Mirrors x .iterate (y :: K) G ({ y with nested := b } :: K') G')
    (same : z.nested = y.nested) (ip : z.ip = y.ip) (pc : z.pc = y.pc) :
    Mirrors x .iterate (z :: K) G ({ z with nested := b } :: K') G' := by
  generalize ht : { y with nested := b } = t at h
  cases h with
  | native _ called hip hpc =>
    have hb : b = true := congrArg Loop.nested ht
    subst hb
    exact .native z (same.trans called) (ip.trans hip) (pc.trans hpc)
  | started _ called h =>
    have hb : b = y.nested := congrArg Loop.nested ht
    have hz : { z with nested := b } = z := by rw [hb, ← same]
    rw [hz]
    exact .started z (same.trans called) h
  | nested _ inner h =>
    have hb : b = y.nested := congrArg Loop.nested ht
    have hz : { z with nested := b } = z := by rw [hb, ← same]
    rw [hz]
    exact .nested z (same.trans inner) h

/-- A function that an instruction calls. -/
theorem call (h : Mirrors x .fetch K G K' G') {f : Frame} (called : f.callback = false) :
    Mirrors x .fetch K (f :: G) K' (f :: G') := by
  cases h with
  | function A plain => exact .function (f :: A) (List.forall_mem_cons.mpr ⟨called, plain⟩)
  | callback A g plain native boundary h =>
    exact .callback (f :: A) g (List.forall_mem_cons.mpr ⟨called, plain⟩) native boundary h

/-- Frames inside the innermost loop of the callback can go. -/
theorem drop (h : Mirrors x .fetch K G K' G') {k : Nat} (hk : k ≤ G.length - Machine.boundary K') :
    Mirrors x .fetch K (G.drop k) K' (G'.drop k) := by
  cases h with
  | function A plain =>
    have hA : k ≤ A.length := by
      change k ≤ _ - x.loop.boundary at hk
      rw [x.boundary, List.length_append, List.length_cons] at hk
      omega
    rw [List.drop_append_of_le_length hA, List.drop_append_of_le_length hA]
    exact .function _ fun a ha => plain a (List.mem_of_mem_drop ha)
  | @callback y y' K K' G G' A g plain native boundary h =>
    obtain ⟨_, _, _, _, hy, hy'⟩ := h.top
    cases hy
    cases hy'
    have hA : k ≤ A.length := by
      change k ≤ _ - y.boundary at hk
      rw [boundary, List.length_append, List.length_cons] at hk
      omega
    rw [List.drop_append_of_le_length hA, List.drop_append_of_le_length hA]
    exact .callback _ g (fun a ha => plain a (List.mem_of_mem_drop ha)) native boundary h

/-- The innermost frame belongs to a function that an instruction has called, inside or at the place
of the crossing, or to a function that the innermost loop has called. -/
theorem pop {g : Frame} (h : Mirrors x .fetch K (g :: G) K' G') :
    (∃ F, G' = g :: F ∧ g.callback = false ∧ Mirrors x .fetch K G K' F) ∨
      (g = x.frame ∧ G = x.around ∧ K = x.loops ∧ K' = x.loop :: x.outer ∧
        G' = { x.frame with callback := true } :: x.around) ∨
      ∃ F, G' = g :: F ∧ g.callback = true ∧ Mirrors x .iterate K G K' F := by
  generalize hG : g :: G = F at h
  cases h with
  | function A plain =>
    cases A with
    | nil =>
      cases hG
      exact Or.inr (Or.inl ⟨rfl, rfl, rfl, rfl, rfl⟩)
    | cons a A =>
      cases hG
      obtain ⟨ha, hA⟩ := List.forall_mem_cons.mp plain
      exact Or.inl ⟨_, rfl, ha, .function A hA⟩
  | callback A f plain native boundary h =>
    cases A with
    | nil =>
      cases hG
      exact Or.inr (Or.inr ⟨_, rfl, native, h⟩)
    | cons a A =>
      cases hG
      obtain ⟨ha, hA⟩ := List.forall_mem_cons.mp plain
      exact Or.inl ⟨_, rfl, ha, .callback A f hA native boundary h⟩

/-- The innermost loop was started at the place of the crossing, by an instruction inside, or by the
loop around it. -/
theorem outer (h : Mirrors x .iterate (y :: K) G K' G') :
    (K = x.loops ∧ G = x.around ∧ y.nested = false ∧ y.ip = x.loop.ip ∧
        K' = { y with nested := true } :: x.loop :: x.outer ∧ G' = x.around) ∨
      (y.nested = false ∧ ∃ L, K' = y :: L ∧ Mirrors x .fetch K G L G') ∨
      (y.nested = true ∧ ∃ L, K' = y :: L ∧ Mirrors x .iterate K G L G') := by
  cases h with
  | native _ called ip pc => exact Or.inl ⟨rfl, rfl, called, ip, rfl, rfl⟩
  | started _ called h => exact Or.inr (Or.inl ⟨called, _, rfl, h⟩)
  | nested _ inner h => exact Or.inr (Or.inr ⟨inner, _, rfl, h⟩)

end Mirrors

/-- Both runs are under way: everything but the loops and who frames return to is the same. -/
inductive Under (x : Crossing) : Status → Status → Prop
  | running {m : Machine} {K : List Loop} {G : List Frame}
      (mirrors : Mirrors x m.control m.loops m.frames K G)
      (place : m.control = .iterate → ∀ y ∈ m.loops.head?, y.ip = m.ip) :
      Under x (.running m) (.running (m.dress G K))

/-- While instructions of the call are executed there is a frame of the call. -/
theorem Under.framed {x : Crossing} {D C : Status} (h : x.Under D C)
    (control : D.machine.control = .fetch) : D.machine.frames ≠ [] := by
  cases h with
  | @running m K G mirrors =>
    have hfetch : m.control = .fetch := control
    rw [hfetch] at mirrors
    exact mirrors.framed

/-- The call is over in both runs, in the same way. The first one goes on after the instruction that
has called, the second one hands its loop the answer or the failure. What a machine would have done
next does not count where it fails. -/
inductive Over (s : Setup) (x : Crossing) : Status → Status → Prop
  | answered (v : Value) {n : Machine} (frames : n.frames = x.around) (loops : n.loops = x.loops)
      (control : n.control = .fetch) (ip : n.ip = x.loop.ip) :
      Over s x (.running (n.push v)) ({ n with loops := x.loop :: x.outer }.deliver v)
  /-- A refused call leaves its arguments on the stack where there are any. -/
  | refused (e : ErrorCause) (args : List Value) (c : Control) {n : Machine}
      (frames : n.frames = x.around) (place : n.pc = x.loop.pc) :
      Over s x (Machine.fail s true (.of e) { n with stack := args.reverse ++ n.stack } x.loops)
        (Machine.fail s false (.of e) { n with control := c } (x.loop :: x.outer))
  /-- Either the exception is raised at the call, or it has been raised and keeps its place. -/
  | raised {f : Failure} (c : Control) {n : Machine} (exception : f.isException = true)
      (frames : n.frames = x.around)
      (place : n.pc = x.loop.pc ∨ ∃ id, f = .rethrow id ∧ Machine.stamp s n id = n) :
      Over s x (Machine.fail s true f n x.loops)
        (Machine.fail s false f { n with control := c } (x.loop :: x.outer))
  | ended (e : Ending) (c : Control) {n : Machine} {G : List Frame} (alike : FramesAlike G n.frames)
      (ip pc ip' pc' : Int) :
      Over s x (.ended e { n with ip := ip, pc := pc, loops := [] })
        (.ended e { n with frames := G, control := c, ip := ip', pc := pc', loops := [] })

/-- Still under way, or over. -/
def Agree (s : Setup) (x : Crossing) (D C : Status) : Prop := x.Under D C ∨ x.Over s D C

end Crossing

namespace Machine

variable {x : Crossing} {m n : Machine} {K : List Loop} {G : List Frame}

/-- An exception that no handler inside a loop takes leaves the frames inside it. -/
theorem offer_escaped {f g : Failure} {b : Nat} (hf : f.isException = true)
    (h : m.offer s f b = .inr (g, n)) :
    n.frames = m.frames.drop (m.frames.length + 1 - max b 1) ∧
      ∃ id, g = .rethrow id ∧ stamp s n id = n := by
  obtain ⟨id, q, he, rfl, ht⟩ := offer_eq_inr hf h
  have hlen : (stamp s q id).frames = m.frames :=
    (stamp_quiet q id).frames.trans (exceptionOf_quiet he).frames
  have hthrow := throwTo_frames (stamp s q id) id b q.handlers
  have hlands := throwTo_lands (stamp s q id) id b q.handlers
  rw [ht] at hthrow hlands
  obtain ⟨_, rest, _, _, hn⟩ := hlands
  have hworld : n.world = (stamp s q id).world := by
    rw [hn]
    exact popFrames_world _ _
  exact ⟨hlen ▸ hthrow, id, rfl, stamp_again hworld⟩

theorem fail_of_handled {f : Failure} {L : List Loop} (h : m.offer s f (boundary L) = .inl n) :
    fail s true f m L = .running { n with loops := L } := by
  cases L with
  | nil =>
    have hoffer : m.offer s f 0 = .inl n := h
    unfold fail
    rw [hoffer]
  | cons l L =>
    have hoffer : m.offer s f l.boundary = .inl n := h
    unfold fail
    simp only [if_true]
    rw [hoffer]

/-- An exception that no handler inside the innermost loop takes is one of the loop's own. -/
theorem fail_of_escaped {f g : Failure} {l : Loop} (h : m.offer s f l.boundary = .inr (g, n))
    (L : List Loop) : fail s true f m (l :: L) = fail s false g n (l :: L) := by
  unfold fail
  simp only [if_true]
  rw [h]
  rfl

/-- An exception of a loop is one of the call that has started it, by an instruction or by a loop. -/
theorem fail_of_loop {f : Failure} (hf : f.isException = true) (m : Machine) (l : Loop)
    (L : List Loop) :
    fail s false f m (l :: L) = fail s (!l.nested) f { m with ip := l.ip, pc := l.pc } L := by
  change fail s (!l.nested) (f.named l.name) _ _ = _
  rw [Failure.named_of_isException hf l.name]

/-- An exception that leaves a callback leaves its frame `g` and those of the functions it has
called. -/
theorem escaped_from_callback {f e : Failure} (hf : f.isException = true) {A : List Frame} {g : Frame}
    (hm : m.frames = A ++ g :: G) (h : m.offer s f (G.length + 1) = .inr (e, n)) :
    n.frames = G ∧
      (∀ g' G' X, FramesAlike (A ++ g' :: G') m.frames →
        n.redress (A ++ g' :: G') X = n.dress G' X) ∧
      ∃ id, e = .rethrow id ∧ stamp s n id = n := by
  obtain ⟨hn, hid⟩ := offer_escaped hf h
  have hcount : m.frames.length + 1 - max (G.length + 1) 1 = A.length + 1 := by
    rw [hm, List.length_append, List.length_cons]
    omega
  have hleft (g : Frame) (F : List Frame) : (A ++ g :: F).drop (A.length + 1) = F := by simp
  refine ⟨by rw [hn, hcount, hm, hleft], fun g' G' X halike => ?_, hid⟩
  rw [redress_of_drop hn halike, hcount, hleft]

/-- A final failure ends both runs. -/
theorem agree_of_final {f : Failure} (hf : f.isFinal = true) (alike : FramesAlike G m.frames)
    (inside inside' : Bool) (c : Control) (L L' K : List Loop) :
    x.Agree s (fail s inside f m L) (fail s inside' f { m.dress G K with control := c } L') := by
  obtain ⟨ip, pc, hD⟩ := fail_eq_ended (s := s) hf inside m L
  obtain ⟨ip', pc', hC⟩ := fail_eq_ended (s := s) hf inside' { m.dress G K with control := c } L'
  rw [hD, hC]
  exact Or.inr (.ended _ c alike ip pc ip' pc')

/-- A handler inside takes an exception in both runs. -/
theorem agree_of_handled {K K' X : List Loop} {G' : List Frame} {k : Nat}
    (h : x.Mirrors .fetch K m.frames K' G') (hk : k ≤ m.frames.length - boundary K')
    (hn : n.frames = m.frames.drop k) (hc : n.control = .fetch) :
    x.Agree s (.running { n with loops := K })
      (.running { n.redress G' X with loops := K' }) := by
  have hmirrors := h.drop hk
  rw [← hn, ← hc] at hmirrors
  rw [redress_of_drop hn h.alike]
  refine Or.inl (.running (m := { n with loops := K }) hmirrors fun hiter => ?_)
  exact absurd (hc.symm.trans hiter) (by simp)

/-- An exception in the function that is called, or in functions that it has called. -/
theorem agree_of_exception_inside {A : List Frame} (plain : ∀ a ∈ A, a.callback = false)
    {f : Failure} (hf : f.isException = true) (hm : m.frames = A ++ x.frame :: x.around)
    (ranked : m.Ranked) (X : List Loop) :
    x.Agree s (fail s true f m x.loops)
      (fail s true f (m.dress (A ++ { x.frame with callback := true } :: x.around) X)
        (x.loop :: x.outer)) := by
  have hmirrors := Crossing.Mirrors.function (x := x) A plain
  rw [← hm] at hmirrors
  have halike := hmirrors.alike
  -- The handlers inside the function are asked first, by the loop only those.
  have low : max (boundary x.loops) 1 ≤ x.loop.boundary := by
    have hinside := x.inside
    rw [x.boundary]
    omega
  have high : x.loop.boundary ≤ m.frames.length + 1 := by
    rw [x.boundary, hm, List.length_append, List.length_cons]
    omega
  have hstages := offer_stages (s := s) (f := f) ranked low high
  have hdress := offer_dress (s := s) halike X f x.loop.boundary
  have hframes := offer_frames s m f x.loop.boundary
  cases ho : m.offer s f x.loop.boundary with
  | inl n =>
    rw [ho] at hstages hdress hframes
    obtain ⟨hcontrol, k, hk, hn⟩ := hframes
    have hC := fail_of_handled (L := x.loop :: x.outer) hdress
    rw [fail_of_handled hstages, hC]
    exact agree_of_handled hmirrors hk hn hcontrol
  | inr e =>
    obtain ⟨g, n⟩ := e
    rw [ho] at hstages hdress
    rw [x.boundary] at ho
    obtain ⟨hback, hredress, id, hg, hstamp⟩ := escaped_from_callback hf hm ho
    have hC : fail s true f (m.dress (A ++ { x.frame with callback := true } :: x.around) X)
        (x.loop :: x.outer) = fail s false g n (x.loop :: x.outer) := by
      rw [fail_of_escaped hdress, hredress _ _ _ halike, ← hback]
      exact fail_with_loops (!x.loop.nested) (g.named x.loop.name)
        { n with ip := x.loop.ip, pc := x.loop.pc } X x.outer
    rw [fail_eq_of_offer hstages, hC]
    exact Or.inr (.raised n.control (by rw [hg]; rfl) hback (Or.inr ⟨id, hg, hstamp⟩))

/-- An exception that no handler inside takes leaves the call in both runs. -/
theorem agree_of_exception {c : Control} {K K' : List Loop} {G G' : List Frame}
    (h : x.Mirrors c K G K' G') {inside : Bool} {f : Failure}
    (hc : c = if inside then .fetch else .iterate) (hm : m.frames = G) (ranked : m.Ranked)
    (hf : f.isException = true) (X : List Loop) :
    x.Agree s (fail s inside f m K) (fail s inside f (m.dress G' X) K') := by
  -- Each loop the exception leaves takes one constructor off, down to the place of the crossing.
  induction h generalizing inside f m X with
  | function A plain =>
    cases inside with
    | false => cases hc
    | true => exact agree_of_exception_inside plain hf hm ranked X
  | native y called ip pc =>
    cases inside with
    | true => cases hc
    | false =>
      have hD : fail s false f m (y :: x.loops) =
          fail s true f { m with ip := y.ip, pc := y.pc } x.loops := by
        rw [fail_of_loop hf, called]
        rfl
      have hC : fail s false f (m.dress x.around X) ({ y with nested := true } :: x.loop :: x.outer) =
          fail s false f { m with ip := y.ip, pc := y.pc } (x.loop :: x.outer) := by
        rw [fail_of_loop hf, ← hm]
        exact fail_with_loops false f { m with ip := y.ip, pc := y.pc } X _
      rw [hD, hC]
      exact Or.inr (.raised m.control hf hm (Or.inl pc))
  | @callback y y' K K' G G' A g plain native hb h ih =>
    cases inside with
    | false => cases hc
    | true =>
      have hmirrors := Crossing.Mirrors.callback A g plain native hb h
      rw [← hm] at hmirrors
      have halike := hmirrors.alike
      obtain ⟨_, b, _, _, hy, hy'⟩ := h.top
      cases hy
      cases hy'
      have hdress := offer_dress (s := s) halike X f y.boundary
      have hframes := offer_frames s m f y.boundary
      have hlands := offer_lands s f y.boundary ranked
      cases ho : m.offer s f y.boundary with
      | inl n =>
        rw [ho] at hdress hframes
        obtain ⟨hcontrol, k, hk, hn⟩ := hframes
        rw [fail_of_handled (L := y :: K) ho, fail_of_handled (L := { y with nested := b } :: K') hdress]
        exact agree_of_handled hmirrors hk hn hcontrol
      | inr e =>
        obtain ⟨e, n⟩ := e
        rw [ho] at hdress hlands
        have hC := fail_of_escaped (l := { y with nested := b }) hdress K'
        rw [fail_of_escaped ho, hC]
        rw [hb] at ho
        obtain ⟨hback, hredress, id, he, -⟩ := escaped_from_callback hf hm ho
        rw [hredress _ _ _ halike]
        exact ih rfl hback hlands.2.1 (by rw [he]; rfl) X
  | @started K K' G G' y called h ih =>
    cases inside with
    | true => cases hc
    | false =>
      rw [fail_of_loop hf, fail_of_loop hf, called]
      exact ih (m := { m with ip := y.ip, pc := y.pc }) rfl hm
        (ranked.same ⟨rfl, rfl, rfl, rfl, rfl⟩ rfl) hf X
  | @nested z z' K K' G G' y inner h ih =>
    cases inside with
    | true => cases hc
    | false =>
      rw [fail_of_loop hf, fail_of_loop hf, inner]
      exact ih (m := { m with ip := y.ip, pc := y.pc }) rfl hm
        (ranked.same ⟨rfl, rfl, rfl, rfl, rfl⟩ rfl) hf X

end Machine

end BytecodeMachine
