import BytecodeMachine.Proofs.Machine.Crossing

/-! Calls through native loops. Step by step, a call that a native loop makes goes as the call that an
instruction makes in the same place, so that they give the same answer or fail alike, or go on without
an end. The exception is a refused write, which a loop takes for an error of the host. -/
namespace BytecodeMachine

variable {s : Setup}

theorem Loop.absorb_eq (store : Store) (l : Loop) (v : Value) (b : Bool) :
    { l with nested := b }.absorb store v = { l.absorb store v with nested := b } ∧
      (l.absorb store v).nested = l.nested ∧ (l.absorb store v).ip = l.ip ∧
        (l.absorb store v).pc = l.pc := by
  unfold Loop.absorb
  dsimp only
  split <;> exact ⟨rfl, rfl, rfl, rfl⟩

theorem Loop.take_eq (l : Loop) (e : Value) (rest : List Value) (b : Bool) :
    { l with nested := b }.take e rest = ({ (l.take e rest).1 with nested := b }, (l.take e rest).2) ∧
      (l.take e rest).1.nested = l.nested ∧ (l.take e rest).1.ip = l.ip ∧
        (l.take e rest).1.pc = l.pc := by
  unfold Loop.take
  dsimp only
  split <;> exact ⟨rfl, rfl, rfl, rfl⟩

namespace Machine

variable {x : Crossing} {m n : Machine} {K : List Loop} {G : List Frame}

theorem agree_of_deliver (h : x.Mirrors .iterate m.loops m.frames K G) (v : Value) :
    x.Agree s (m.deliver v) ((m.dress G K).deliver v) := by
  obtain ⟨y, b, L, L', hy, hy'⟩ := h.top
  obtain ⟨habsorb, hnested, hip, hpc⟩ := y.absorb_eq m.world.store v b
  rw [hy, hy'] at h
  have hC : (m.dress G K).deliver v = .running ({ m with
      loops := y.absorb m.world.store v :: L, control := .iterate, ip := y.ip, pc := y.pc }.dress G
        ({ y.absorb m.world.store v with nested := b } :: L')) := by
    unfold deliver
    rw [show (m.dress G K).loops = { y with nested := b } :: L' from hy']
    dsimp only
    rw [show (m.dress G K).world = m.world from rfl, habsorb]
    rfl
  have hD : m.deliver v = .running { m with
      loops := y.absorb m.world.store v :: L, control := .iterate, ip := y.ip, pc := y.pc } := by
    unfold deliver
    rw [hy]
  rw [hD, hC]
  refine Or.inl (.running (h.with_top hnested hip hpc) fun _ z hz => ?_)
  cases hz
  exact hip

/-- An instruction in both runs. -/
theorem agree_of_settle {e : List Frame → List Loop → Effect} (he : Effect.Natural s m e)
    (h : x.Mirrors .fetch m.loops m.frames K G) (hc : m.control = .fetch) (ranked : m.Ranked)
    (written : ∀ t n, e m.frames m.loops ≠ .failed (.output t) n) :
    x.Agree s (settle s (e m.frames m.loops)) (settle s (e G K)) := by
  have hself := FramesAlike.refl m.frames
  have halike := h.alike
  have hrunning {n : Machine} {K : List Loop} {G : List Frame} (hn : n.control = m.control)
      (h : x.Mirrors .fetch n.loops n.frames K G) :
      x.Agree s (.running n) (.running (n.dress G K)) := by
    have hfetch := hn.trans hc
    refine Or.inl (.running (hfetch.symm ▸ h) fun hiter => ?_)
    rw [hfetch] at hiter
    cases hiter
  cases he with
  | @next n keeps same =>
    rw [same _ _ hself, same _ _ halike]
    exact hrunning (n := n.dress m.frames m.loops) keeps.control h
  | @failed f n keeps left usual same =>
    have hframes : (n.dress m.frames m.loops).frames = m.frames := rfl
    rw [same _ _ hself, same _ _ halike]
    rcases usual with hf | hf | ⟨t, rfl⟩
    · have hranked : (n.dress m.frames m.loops).Ranked := by
        refine ⟨ranked.sorted.sublist left.sublist, fun d hd => ?_⟩
        exact ranked.framed d (left.subset hd)
      exact agree_of_exception h rfl hframes hranked hf K
    · exact agree_of_final (m := n.dress m.frames m.loops) hf halike true true n.control _ _ K
    · exact absurd (same _ _ hself) (written t _)
  | @enters n c self args keeps room same =>
    rw [same _ _ hself, same _ _ halike]
    have hlen : G.length = m.frames.length := halike.length
    exact hrunning (n := (n.dress m.frames m.loops).enterFrame c self args false) keeps.control
      (h.call (f := ⟨c.name, n.ip, n.pc, n.scope, n.scopeDepth, n.stack.length, false⟩) rfl)
  | @loops n l keeps place boundary outer same =>
    rw [same _ _ hself, same _ _ halike]
    refine Or.inl (.running (m := (n.dress m.frames m.loops).startLoop l) (.started l outer h) ?_)
    intro _ y hy
    cases hy
    exact place.1
  | @returns n g v top loops control same =>
    rw [top] at h ⊢
    -- The frame that returns is inside the call, the frame of the call, or that of a callback inside.
    have hD := same g n.frames m.loops rfl (FramesAlike.refl n.frames)
    obtain ⟨F, rfl, hg, h⟩ | ⟨hg, haround, hloops, rfl, rfl⟩ | ⟨F, rfl, hg, h⟩ := h.pop
    · rw [hD, same g F K rfl h.alike, hg]
      exact hrunning (n := ({ n with ip := g.returnIp }.push v).dress n.frames m.loops) control h
    · have hC := same { g with callback := true } x.around (x.loop :: x.outer) rfl
        (haround ▸ FramesAlike.refl _)
      have hcalled := x.called
      rw [← hg] at hcalled ⊢
      rw [hD, hC, hcalled]
      have hback : g.returnIp = x.loop.ip := hg ▸ x.back
      let q : Machine := { n with ip := x.loop.ip, loops := x.loops }
      have hanswer : Effect.next (({ n with ip := g.returnIp }.push v).dress n.frames m.loops) =
          .next (q.push v) := by
        rw [hback, hloops]
        rfl
      have hdeliver : (n.dress x.around (x.loop :: x.outer)).deliver v =
          { q with loops := x.loop :: x.outer }.deliver v := by
        rw [← haround]
        rfl
      have hover := Crossing.Over.answered (s := s) (x := x) (n := q) v haround rfl
        (control.trans hc) rfl
      rw [← hdeliver] at hover
      change x.Agree s (settle s (.next _)) _
      rw [hanswer]
      exact Or.inr hover
    · rw [hD, same g F K rfl h.alike, hg]
      exact agree_of_deliver (m := n.dress n.frames m.loops) h v

/-- A loop makes a call of its own in both runs. -/
theorem agree_of_callBack (h : x.Mirrors .iterate m.loops m.frames K G) (ranked : m.Ranked)
    (here : ∀ y ∈ m.loops.head?, y.boundary = m.frames.length + 1) (callee : Value)
    (args : List Value) :
    x.Agree s (m.callBack s callee args) ((m.dress G K).callBack s callee args) := by
  have halike := h.alike
  have hlen : G.length = m.frames.length := halike.length
  have hfail {n : Machine} (hn : n.frames = m.frames) (hr : n.Ranked) {f : Failure}
      (hf : f.isException = true ∨ f.isFinal = true) :
      x.Agree s (Machine.fail s false f n m.loops) (Machine.fail s false f (n.dress G K) K) := by
    rcases hf with hf | hf
    · exact agree_of_exception h rfl hn hr hf K
    · exact agree_of_final hf (hn ▸ halike) false false n.control _ _ K
  have hdeep : (m.dress G K).tooDeep? s = m.tooDeep? s := by
    unfold tooDeep?
    rw [show (m.dress G K).frames.length = m.frames.length from hlen]
  unfold callBack
  rw [hdeep, callNative_dress hlen]
  split
  · exact hfail rfl ranked (Or.inl rfl)
  · split
    · next c self _ =>
      split
      · exact hfail rfl ranked (Or.inl rfl)
      · obtain ⟨y, b, L, L', hy, hy'⟩ := h.top
        let f : Frame := ⟨c.name, m.ip, m.pc, m.scope, m.scopeDepth, m.stack.length, true⟩
        have hmirrors : x.Mirrors .fetch m.loops (f :: m.frames) K (f :: G) := by
          have hboundary := here y (by rw [hy]; rfl)
          rw [hy, hy'] at h ⊢
          exact .callback [] f (by simp) rfl hboundary h
        refine Or.inl (.running (m := { m.enterFrame c self args true with control := .fetch })
          hmirrors fun hiter => ?_)
        cases hiter
    · have hquiet := m.callNative_quiet (s := s) true callee args
      obtain ⟨r, w, hr⟩ | ⟨l, hr, hnested, -, hip, -⟩ := callNative_cases s m true callee args
      · rw [hr] at hquiet ⊢
        cases r with
        | ok v => exact agree_of_deliver (m := { m with world := w }) h v
        | error f =>
          have hranked : { m with world := w }.Ranked := ⟨ranked.sorted, ranked.framed⟩
          exact hfail (n := { m with world := w }) rfl hranked (callNative_error hr)
      · rw [hr]
        obtain ⟨y, b, L, L', hy, hy'⟩ := h.top
        have hmirrors : x.Mirrors .iterate (l :: m.loops) m.frames (l :: K) G := by
          rw [hy, hy'] at h ⊢
          exact .nested l hnested h
        refine Or.inl (.running (m := m.startLoop l) hmirrors fun _ z hz => ?_)
        cases hz
        exact hip

theorem iterate_of_nil {l : Loop} {L : List Loop} (hl : m.loops = l :: L) (hr : l.rest = []) :
    m.iterate s = m.endLoop l L := by
  unfold iterate
  rw [hl]
  dsimp only
  rw [hr]

theorem iterate_of_cons {l : Loop} {L : List Loop} {e : Value} {rest : List Value}
    (hl : m.loops = l :: L) (hr : l.rest = e :: rest) :
    m.iterate s = callBack s
      { m with loops := { (l.take e rest).1 with boundary := m.frames.length + 1 } :: L }
      (l.take e rest).1.callee (l.take e rest).2 := by
  unfold iterate
  rw [hl]
  dsimp only
  rw [hr]

/-- A loop that is through hands its answer to its caller in both runs. -/
theorem agree_of_endLoop {y : Loop} {b : Bool} {L L' : List Loop}
    (h : x.Mirrors .iterate (y :: L) m.frames ({ y with nested := b } :: L') G)
    (hip : y.ip = m.ip) :
    x.Agree s (m.endLoop y L) ((m.dress G K).endLoop { y with nested := b } L') := by
  let v : Value := (y.result m.world).1
  let n : Machine := { m with world := (y.result m.world).2, loops := L }
  have hD : m.endLoop y L =
      if y.nested then n.deliver v else .running { n.push v with control := .fetch } := rfl
  have hC : (m.dress G K).endLoop { y with nested := b } L' =
      if b then (n.dress G L').deliver v
      else .running ({ n.push v with control := .fetch }.dress G L') := rfl
  rw [hD, hC]
  -- The call is over where the loop is the native function itself that has been called.
  obtain ⟨hloops, haround, hn, hplace, hL', hG⟩ | ⟨hn, _, hL', hinner⟩ | ⟨hn, _, hL', hinner⟩ :=
    h.outer
  · have hb : b = true := congrArg Loop.nested (List.cons.inj hL').1
    have hout : L' = x.loop :: x.outer := (List.cons.inj hL').2
    rw [hn, hb, hout]
    let q : Machine := { n with control := .fetch }
    have hdeliver : (n.dress G (x.loop :: x.outer)).deliver v =
        { q with loops := x.loop :: x.outer }.deliver v := by
      rw [hG, ← haround]
      rfl
    have hover := Crossing.Over.answered (s := s) (x := x) (n := q) v haround hloops rfl
      (hip.symm.trans hplace)
    rw [← hdeliver] at hover
    exact Or.inr hover
  · have hb : b = y.nested := congrArg Loop.nested (List.cons.inj hL').1
    rw [(List.cons.inj hL').2, hb, hn]
    refine Or.inl (.running (m := { n.push v with control := .fetch }) hinner fun hiter => ?_)
    cases hiter
  · have hb : b = y.nested := congrArg Loop.nested (List.cons.inj hL').1
    rw [(List.cons.inj hL').2, hb, hn]
    exact agree_of_deliver (m := n) hinner v

theorem agree_of_iterate (h : x.Mirrors .iterate m.loops m.frames K G) (ranked : m.Ranked)
    (place : ∀ y ∈ m.loops.head?, y.ip = m.ip) :
    x.Agree s (m.iterate s) ((m.dress G K).iterate s) := by
  have halike := h.alike
  obtain ⟨y, b, L, L', hy, hy'⟩ := h.top
  have hyC : (m.dress G K).loops = { y with nested := b } :: L' := hy'
  have hip := place y (by rw [hy]; rfl)
  rw [hy, hy'] at h
  cases hrest : y.rest with
  | nil =>
    rw [iterate_of_nil hy hrest, iterate_of_nil hyC hrest]
    exact agree_of_endLoop h hip
  | cons e rest =>
    obtain ⟨htake, hnested, hip', hpc'⟩ := y.take_eq e rest b
    let z : Loop := { (y.take e rest).1 with boundary := m.frames.length + 1 }
    have hmirrors : x.Mirrors .iterate (z :: L) m.frames ({ z with nested := b } :: L') G :=
      h.with_top hnested hip' hpc'
    have hlen : (m.dress G K).frames.length = m.frames.length := halike.length
    have hranked : { m with loops := z :: L }.Ranked := ⟨ranked.sorted, ranked.framed⟩
    have hD := iterate_of_cons (s := s) hy hrest
    have hC := iterate_of_cons (s := s) hyC hrest
    rw [htake, hlen] at hC
    rw [hD, hC]
    refine agree_of_callBack (m := { m with loops := z :: L }) hmirrors hranked ?_ _ _
    intro w hw
    cases hw
    rfl

/-- One step of both runs. -/
theorem agree_of_advance (h : x.Mirrors m.control m.loops m.frames K G) (ranked : m.Ranked)
    (place : m.control = .iterate → ∀ y ∈ m.loops.head?, y.ip = m.ip)
    (written : ∀ t n, ¬m.Fails s (.output t) n) :
    x.Agree s (m.advance s) ((m.dress G K).advance s) := by
  have halike := h.alike
  have hcontrol : (m.dress G K).control = m.control := rfl
  unfold advance
  rw [hcontrol]
  cases hc : m.control with
  | iterate =>
    rw [hc] at h
    exact agree_of_iterate h ranked (place hc)
  | fetch =>
    rw [hc] at h
    dsimp only
    cases hi : s.program.instruction? m.ip with
    | none =>
      -- Inside the call there is a frame, so running off the end is a fault in both runs.
      have hiC : s.program.instruction? (m.dress G K).ip = none := hi
      have hframes : m.frames.isEmpty = false := by
        rw [List.isEmpty_eq_false_iff]
        exact h.framed
      have hG : (m.dress G K).frames.isEmpty = false := by
        rw [List.isEmpty_eq_false_iff, ← List.length_pos_iff]
        rw [List.isEmpty_eq_false_iff, ← List.length_pos_iff] at hframes
        exact halike.length.symm ▸ hframes
      unfold fetch
      rw [hi, hiC, hframes, hG, Bool.and_false, Bool.and_false]
      exact agree_of_final (m := { m with pc := m.ip }) rfl halike true true m.control _ _ K
    | some ins =>
      have hiC : s.program.instruction? (m.dress G K).ip = some ins := hi
      cases hgo : m.tick.stopBefore? with
      | some reason =>
        have hgoC : (m.dress G K).tick.stopBefore? = some reason := hgo
        unfold fetch
        rw [hi, hiC]
        dsimp only
        rw [hgo, hgoC]
        exact agree_of_final (m := m.tick) rfl halike true true m.control _ _ K
      | none =>
        have hgoC : (m.dress G K).tick.stopBefore? = none := hgo
        have hkeeps := m.begun_keeps (s := s) ins
        rw [fetch_eq_settle hi hgo, fetch_eq_settle hiC hgoC, begun_dress halike K ins]
        have hmirrors : x.Mirrors .fetch (m.begun s ins).loops (m.begun s ins).frames K G := by
          rw [hkeeps.loops, hkeeps.frames]
          exact h
        exact agree_of_settle (step_natural (m.begun s ins) ins) hmirrors (hkeeps.control.trans hc)
          (ranked.begun ins) fun t n hfail => written t n (.instruction hc hi hgo hfail)

/-- A call by an instruction whose arguments have been put on the stack. -/
def calling (s : Setup) (m : Machine) (callee : Value) (args : List Value) : Status :=
  settle s ({ m with stack := args.reverse ++ m.stack }.call s callee args.length 0)

/-- The same call by the innermost of some native loops. -/
def callingBack (s : Setup) (m : Machine) (l : Loop) (outer : List Loop) (callee : Value)
    (args : List Value) : Status :=
  { m with loops := l :: outer, control := .iterate }.callBack s callee args

/-- What native code does is the same on behalf of a loop, but for who calls a loop that it starts. -/
theorem callNative_inside (m : Machine) (L : List Loop) (callee : Value) (args : List Value) :
    callNative s { m with loops := L, control := .iterate } true callee args =
      match callNative s m false callee args with
      | .answered r n => .answered r { n with loops := L, control := .iterate }
      | .loops l n => .loops { l with nested := true } { n with loops := L, control := .iterate } := by
  unfold callNative
  split
  · rfl
  · unfold callMethod
    dsimp only
    split <;> rfl
  · rfl

theorem popCall_pushed (m : Machine) (args : List Value) (k : List Value → Machine → Effect) :
    { m with stack := args.reverse ++ m.stack }.popCall s args.length 0 k = k args m := by
  have henough : ¬(decide ((args.length : Int) < 0) ||
      decide (((args.reverse ++ m.stack).length : Int) < args.length)) = true := by
    rw [Bool.or_eq_true, decide_eq_true_eq, decide_eq_true_eq, List.length_append,
      List.length_reverse]
    omega
  have hmore : ¬(decide ((0 : Int) < 0) || decide ((m.stack.length : Int) < 0)) = true := by
    simp
  have htake : ((args.reverse ++ m.stack).take args.length).reverse = args := by simp
  have hdrop : (args.reverse ++ m.stack).drop args.length = m.stack := by simp
  unfold popCall popMany
  rw [if_neg henough, Int.toNat_natCast, htake]
  dsimp only
  rw [hdrop, if_neg hmore]
  rfl

/-- The place where a function is called. -/
def crossing (m : Machine) (callee : Value) (l : Loop) (outer : List Loop)
    (here : l.boundary = m.frames.length + 1) (ip : l.ip = m.ip)
    (inside : boundary m.loops ≤ m.frames.length) : Crossing where
  around := m.frames
  loops := m.loops
  frame := ⟨callee.calleeName, m.ip, m.pc, m.scope, m.scopeDepth, m.stack.length, false⟩
  loop := l
  outer := outer
  called := rfl
  back := ip.symm
  boundary := here
  inside := inside

/-- A call of something outside the program. -/
theorem agree_of_native {callee : Value} {l : Loop} {outer : List Loop}
    (hc : m.control = .fetch) (here : l.boundary = m.frames.length + 1) (ip : l.ip = m.ip)
    (pc : l.pc = m.pc) (inside : boundary m.loops ≤ m.frames.length) (target : Value)
    (args : List Value) :
    (m.crossing callee l outer here ip inside).Agree s
      (settle s (callNative s m false target args).effect)
      (match callNative s { m with loops := l :: outer, control := .iterate } true target args with
        | .answered (.ok v) n => n.deliver v
        | .answered (.error f) n => fail s false f n n.loops
        | .loops d n => .running (n.startLoop d)) := by
  let x := m.crossing callee l outer here ip inside
  rw [callNative_inside]
  obtain ⟨r, w, hr⟩ | ⟨d, hr, houter, -, hip, hpc⟩ := callNative_cases s m false target args
  · rw [hr]
    cases r with
    | ok v =>
      have hover := Crossing.Over.answered (s := s) (x := x) (n := { m with world := w }) v rfl rfl
        hc ip.symm
      exact Or.inr hover
    | error f =>
      rcases callNative_error hr with hf | hf
      · have hC := fail_with_loops (s := s) false f { m with world := w, control := .iterate }
          (l :: outer) (l :: outer)
        have hover : x.Over s (fail s true f { m with world := w } m.loops)
            (fail s false f { m with world := w, control := .iterate } (l :: outer)) :=
          .raised .iterate hf rfl (Or.inl pc.symm)
        rw [← hC] at hover
        exact Or.inr hover
      · exact agree_of_final (m := { m with world := w }) hf (FramesAlike.refl m.frames) true false
          .iterate m.loops (l :: outer) (l :: outer)
  · rw [hr]
    have hnative := Crossing.Mirrors.native (x := x) d houter (hip.trans ip.symm) (hpc.trans pc.symm)
    refine Or.inl (.running (m := m.startLoop d) hnative fun _ y hy => ?_)
    cases hy
    exact hip

theorem calleeName_of_function {callee : Value} {args : List Value} {c : Closure}
    {self : Option Value} (h : Target.of callee args = .function c self) :
    callee.calleeName = c.name := by
  cases callee
  case closure => cases h; rfl
  case boundMethod => cases h; rfl
  case intrinsic => cases args <;> cases h
  all_goals cases h

section Calls

variable {callee : Value} {args : List Value} {l : Loop} {outer : List Loop}
  (here : l.boundary = m.frames.length + 1) (ip : l.ip = m.ip)
  (inside : boundary m.loops ≤ m.frames.length)

/-- A call that is refused in both runs. -/
theorem agree_of_refused (pc : l.pc = m.pc) (e : ErrorCause) :
    (m.crossing callee l outer here ip inside).Agree s
      (fail s true (.of e) { m with stack := args.reverse ++ m.stack } m.loops)
      (fail s false (.of e) { m with loops := l :: outer, control := .iterate } (l :: outer)) := by
  let x := m.crossing callee l outer here ip inside
  have hC := fail_with_loops (s := s) false (.of e) { m with control := .iterate } (l :: outer)
    (l :: outer)
  have hover := Crossing.Over.refused (s := s) (x := x) e args .iterate (n := m) rfl pc.symm
  rw [hC]
  exact Or.inr hover

/-- A function that is entered in both runs. Only its frames know who has called it. -/
theorem agree_of_enter (hc : m.control = .fetch) {c : Closure} {self : Option Value}
    (ht : Target.of callee args = .function c self) :
    (m.crossing callee l outer here ip inside).Agree s (.running (m.enterFrame c self args false))
      (.running { { m with loops := l :: outer, control := .iterate }.enterFrame c self args true with
        control := .fetch }) := by
  let x := m.crossing callee l outer here ip inside
  have hname : x.frame = ⟨c.name, m.ip, m.pc, m.scope, m.scopeDepth, m.stack.length, false⟩ := by
    rw [← calleeName_of_function ht]
    rfl
  have hmirrors := Crossing.Mirrors.function (x := x) [] (by simp)
  rw [hname, ← hc] at hmirrors
  let n : Machine := m.enterFrame c self args false
  let f : Frame := ⟨c.name, m.ip, m.pc, m.scope, m.scopeDepth, m.stack.length, true⟩
  have hdress : n.dress (f :: m.frames) (l :: outer) =
      { { m with loops := l :: outer, control := .iterate }.enterFrame c self args true with
        control := .fetch } := by
    rw [← hc]
    rfl
  have hunder : x.Under (.running n) (.running (n.dress (f :: m.frames) (l :: outer))) := by
    refine .running hmirrors fun hiter => ?_
    exact absurd (hc.symm.trans hiter) (by simp)
  rw [hdress] at hunder
  exact Or.inl hunder

/-- The call itself. -/
theorem agree_of_call (hc : m.control = .fetch) (pc : l.pc = m.pc) :
    (m.crossing callee l outer here ip inside).Agree s (m.calling s callee args)
      (m.callingBack s l outer callee args) := by
  let q : Machine := { m with loops := l :: outer, control := .iterate }
  have hcalling : m.calling s callee args =
      settle s ({ m with stack := args.reverse ++ m.stack }.call s callee args.length 0) := rfl
  have hcallingBack : m.callingBack s l outer callee args = q.callBack s callee args := rfl
  have hpushed := callRefusal?_pushed (s := s) m callee args
  have hrefused (e : ErrorCause) : (m.crossing callee l outer here ip inside).Agree s
      (fail s true (.of e) { m with stack := args.reverse ++ m.stack } m.loops)
      (fail s false (.of e) q (l :: outer)) := agree_of_refused here ip inside pc e
  rw [hcallingBack]
  unfold callBack
  -- The loop checks its call first; only for functions the depth is looked at after that.
  cases hb : callbackRefusal? s callee args with
  | some e =>
    rw [hb] at hpushed
    rw [hcalling, call_of_refused hpushed]
    exact hrefused e
  | none =>
    rw [hb] at hpushed
    dsimp only at hpushed ⊢
    cases ht : Target.of callee args with
    | function c self =>
      rw [ht] at hpushed
      dsimp only at hpushed ⊢
      rw [show q.tooDeep? s = m.tooDeep? s from rfl]
      cases hd : m.tooDeep? s with
      | some e =>
        rw [hd] at hpushed
        rw [hcalling, call_of_refused hpushed]
        exact hrefused e
      | none =>
        rw [hd] at hpushed
        rw [hcalling, call_of_accepted hpushed, popCall_pushed]
        unfold carryOut
        rw [ht]
        exact agree_of_enter here ip inside hc ht
    | builtin | method | nobody =>
      rw [ht] at hpushed
      dsimp only at hpushed ⊢
      rw [hcalling, call_of_accepted hpushed, popCall_pushed, carryOut_eq_effect (by simp [ht])]
      exact agree_of_native hc here ip pc inside callee args

end Calls

/-- Step by step, as long as no write is refused. -/
theorem agree_of_run {D C : Status} (agree : x.Agree s D C)
    (ranked : ∀ k q, runFor s k D = .running q → q.Ranked) (n : Nat)
    (written : ∀ k < n, ∀ q, runFor s k D = .running q → ∀ t q', ¬q.Fails s (.output t) q') :
    (∀ k ≤ n, x.Under (runFor s k D) (runFor s k C)) ∨
      ∃ k ≤ n, (∀ j < k, x.Under (runFor s j D) (runFor s j C)) ∧
        x.Over s (runFor s k D) (runFor s k C) := by
  -- As long as the call is under way, one step more of both runs keeps it so or ends it.
  induction n with
  | zero =>
    rcases agree with hunder | hover
    · refine Or.inl fun k hk => ?_
      rw [Nat.le_zero.mp hk]
      exact hunder
    · exact Or.inr ⟨0, Nat.le_refl 0, by simp, hover⟩
  | succ n ih =>
    rcases ih fun k hk => written k (by omega) with hunder | ⟨k, hk, hover⟩
    · have hn := hunder n (Nat.le_refl n)
      have hstep : x.Agree s (runFor s (n + 1) D) (runFor s (n + 1) C) := by
        have hranked := ranked n
        have hwritten := written n (Nat.lt_succ_self n)
        rw [runFor_succ, runFor_succ]
        generalize runFor s n D = d at *
        generalize runFor s n C = c at *
        cases hn with
        | running mirrors place =>
          exact agree_of_advance mirrors (hranked _ rfl) place (hwritten _ rfl)
      rcases hstep with hnext | hover
      · refine Or.inl fun k hk => ?_
        rcases Nat.lt_or_eq_of_le hk with hlt | rfl
        · exact hunder k (Nat.le_of_lt_succ hlt)
        · exact hnext
      · exact Or.inr ⟨n + 1, Nat.le_refl _, fun j hj => hunder j (Nat.le_of_lt_succ hj), hover⟩
    · exact Or.inr ⟨k, Nat.le_succ_of_le hk, hover⟩

theorem wellFormed_runFor {D : Status} (h : ∃ bases, D.machine.WellFormed s bases) (k : Nat) :
    ∃ bases, (runFor s k D).machine.WellFormed s bases := by
  induction k with
  | zero =>
    cases D <;> exact h
  | succ k ih =>
    rw [runFor_succ]
    obtain ⟨bases, hk⟩ := ih
    cases hst : runFor s k D with
    | running q =>
      rw [hst] at hk
      exact ⟨_, hk.advance⟩
    | ended e q =>
      rw [hst] at hk
      exact ⟨bases, hk⟩

theorem wellFormed_calling {bases : List Nat} (h : m.WellFormed s bases) (callee : Value)
    (args : List Value) : ∃ bases, (m.calling s callee args).machine.WellFormed s bases := by
  have hargs := h.quiet (m.quiet_stack (args.reverse ++ m.stack))
  have hcall := { m with stack := args.reverse ++ m.stack }.call_plain (s := s) callee args.length 0
  obtain ⟨log, -, hadvances⟩ := settle_plain {} (rfl : Opcode.call.transfers = false) hcall
  exact ⟨_, hargs.advances hadvances⟩

/-- A loop that others were started by, one by the other, was started by an instruction. -/
theorem Threaded.of_nested {inner L : List Loop} {l : Loop} {F : List Frame}
    (h : Threaded .iterate (inner ++ l :: L) F) (nested : ∀ y ∈ inner, y.nested = true)
    (outer : l.nested = false) : Threaded .fetch L F := by
  induction inner with
  | nil =>
    have hout := h.outer
    rw [outer] at hout
    exact hout
  | cons y inner ih =>
    obtain ⟨hy, hinner⟩ := List.forall_mem_cons.mp nested
    have hout := h.outer
    rw [hy] at hout
    exact ih hout hinner

end Machine

/-- A machine of a run at which a function can be called: between two instructions, or while native
loops are about to go on, seen without those that the last instruction has started. -/
inductive Setup.Resting (s : Setup) (w : World) (o : RunOptions) : Machine → Prop
  | between {n : Nat} {m : Machine} (run : s.stateAfter w o n = .running m)
      (control : m.control = .fetch) : Resting s w o m
  | within {n : Nat} {m : Machine} {inner L : List Loop} {l : Loop}
      (run : s.stateAfter w o n = .running m) (control : m.control = .iterate)
      (loops : m.loops = inner ++ l :: L) (nested : ∀ y ∈ inner, y.nested = true)
      (outer : l.nested = false) :
      Resting s w o { m with control := .fetch, loops := L, ip := l.ip, pc := l.pc }

theorem Setup.Resting.facts {w : World} {o : RunOptions} {m : Machine} (h : s.Resting w o m) :
    m.control = .fetch ∧ (∃ bases, m.WellFormed s bases) ∧
      Machine.boundary m.loops ≤ m.frames.length := by
  have hrun {n : Nat} {q : Machine} (hq : s.stateAfter w o n = .running q) :
      (∃ bases, q.WellFormed s bases) ∧ Machine.Threaded q.control q.loops q.frames := by
    have hwell := s.wellFormed_stateAfter w o n
    have hthread := s.threaded_stateAfter w o n
    rw [hq] at hwell hthread
    exact ⟨⟨_, hwell⟩, hthread⟩
  cases h with
  | between run control =>
    obtain ⟨hwell, hthread⟩ := hrun run
    rw [control] at hthread
    exact ⟨control, hwell, hthread.boundary_le⟩
  | @within n q inner L l run control loops nested outer =>
    obtain ⟨⟨bases, hwell⟩, hthread⟩ := hrun run
    rw [control, loops] at hthread
    have hquiet : q.Quiet { q with control := .fetch, loops := L, ip := l.ip, pc := l.pc } :=
      .of_eq rfl rfl rfl rfl rfl
    exact ⟨rfl, ⟨bases, hwell.quiet hquiet⟩, (hthread.of_nested nested outer).boundary_le⟩

/-- A function that a native loop calls does what it does where an instruction calls it in the same
place, as long as no write is refused: step by step both runs go through the same states, and they end
with the same answer or fail alike. -/
theorem Setup.callback_agrees_with_call {w : World} {o : RunOptions} {m : Machine}
    (resting : s.Resting w o m) (callee : Value) (args : List Value) {l : Loop}
    (outer : List Loop) (boundary : l.boundary = m.frames.length + 1) (ip : l.ip = m.ip)
    (pc : l.pc = m.pc) (n : Nat)
    (written : ∀ k < n, ∀ q, Machine.runFor s k (m.calling s callee args) = .running q →
      ∀ t q', ¬q.Fails s (.output t) q') :
    ∃ x : Crossing, (x.around = m.frames ∧ x.loops = m.loops ∧ x.loop = l ∧ x.outer = outer) ∧
      let called k := Machine.runFor s k (m.calling s callee args)
      let calledBack k := Machine.runFor s k (m.callingBack s l outer callee args)
      (∀ k ≤ n, x.Under (called k) (calledBack k)) ∨
        ∃ k ≤ n, (∀ j < k, x.Under (called j) (calledBack j)) ∧
          x.Over s (called k) (calledBack k) := by
  obtain ⟨hc, ⟨bases, hwell⟩, hinside⟩ := resting.facts
  have hranked (k : Nat) (q : Machine)
      (hq : Machine.runFor s k (m.calling s callee args) = .running q) : q.Ranked := by
    obtain ⟨_, hk⟩ := Machine.wellFormed_runFor (Machine.wellFormed_calling hwell callee args) k
    rw [hq] at hk
    exact hk.ranked
  refine ⟨m.crossing callee l outer boundary ip hinside, ⟨rfl, rfl, rfl, rfl⟩, ?_⟩
  exact Machine.agree_of_run (Machine.agree_of_call boundary ip hinside hc pc) hranked n written

/-- The function of a program that maps it over an array, called before the array gets to it. -/
theorem Setup.mapping_callback_agrees : ∃ m callee l, (mapping .nop).Resting {} {} m ∧
    m.stack.head? = some callee ∧ l.boundary = 1 ∧ ∃ x : Crossing, x.loop = l ∧ ∃ k ≤ 4, x.Over
      (mapping .nop) (Machine.runFor (mapping .nop) k (m.calling (mapping .nop) callee [.int 1]))
        (Machine.runFor (mapping .nop) k (m.callingBack (mapping .nop) l [] callee [.int 1])) := by
  let m := ((mapping .nop).stateAfter {} {} 4).machine
  let callee : Value := .closure ⟨0, [102], 7, [[120]], 0⟩
  let l : Loop := ⟨"map", .mapped [], callee, [], 4, 3, 1, false⟩
  have resting : (mapping .nop).Resting {} {} m := .between (n := 4) rfl rfl
  have hwritten : ∀ k < 4, ∀ q, Machine.runFor (mapping .nop) k
      (m.calling (mapping .nop) callee [.int 1]) = .running q →
      ∀ t q', ¬q.Fails (mapping .nop) (.output t) q' := by
    intro k hk q hq t q' hfails
    have hk : k = 0 ∨ k = 1 ∨ k = 2 ∨ k = 3 := by omega
    rcases hk with rfl | rfl | rfl | rfl
    all_goals
      cases hq
      cases hfails with
      | instruction control has go failed =>
        cases has
        cases failed
      | callback control => cases control
  obtain ⟨x, ⟨-, -, hl, -⟩, hunder | ⟨k, hk, -, hover⟩⟩ :=
    callback_agrees_with_call resting callee [.int 1] (l := l) [] rfl rfl rfl 4 hwritten
  · let q := (Machine.runFor (mapping .nop) 4 (m.calling (mapping .nop) callee [.int 1])).machine
    have hback : q.control = .fetch ∧ q.frames = [] := by decide +kernel
    exact absurd hback.2 ((hunder 4 (Nat.le_refl 4)).framed hback.1)
  · exact ⟨m, callee, l, resting, rfl, rfl, x, hl, k, hk, hover⟩

end BytecodeMachine
