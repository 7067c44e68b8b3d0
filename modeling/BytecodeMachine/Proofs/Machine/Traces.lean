import BytecodeMachine.Proofs.Machine.Sites

/-! Places and traces. An exception is given its place and its trace by the step that raises it first:
the place of the instruction that is executed, and one line for each frame with the instruction that
the frame has come to. Nothing changes them afterwards. -/
namespace BytecodeMachine

variable {s : Setup} {site : Nat → Int}

theorem Text.join_cons_cons (sep t u : Text) (ts : List Text) :
    join sep (t :: u :: ts) = t ++ sep ++ join sep (u :: ts) := rfl

/-- One line of a trace. -/
def Setup.traceLine (s : Setup) (name : Text) (a : Int) : Text :=
  "  at " ++ name ++ " (" ++ Machine.position s a ++ ")"

/-- A trace as lines, one for each frame, the innermost first, and one for the program: `site d` is the
address that the frame of depth `d` has come to. -/
def Setup.traceText (s : Setup) (site : Nat → Int) (frames : List Frame) : Text :=
  let names := frames.map Frame.name ++ [Text.ofString "<main>"]
  let depths := (List.range (frames.length + 1)).reverse
  Text.join "\n" (List.zipWith (fun name d => s.traceLine name (site d)) names depths)

/-- An exception that has been raised while there were some frames: its place is that of the innermost
one, and all others have come to a call. -/
structure Exception.RaisedAt (s : Setup) (site : Nat → Int) (frames : List Frame) (e : Exception) :
    Prop where
  positioned : e.positioned = true
  place : ∃ ins, s.program.instruction? (site frames.length) = some ins ∧
    e.file = (if ins.file.isEmpty then s.program.file else ins.file) ∧
    e.line = ins.line ∧ e.col = ins.col
  trace : e.trace = s.traceText site frames
  calls : ∀ d < frames.length, s.CallsAt (site d)

namespace Machine

variable {m m' p q : Machine} {f : Failure} {id : Nat}

theorem traceLines_nil (a : Int) : traceLines s a [] = s.traceLine (Text.ofString "<main>") a := by
  have hmain : Text.ofString "  at <main> (" =
      Text.ofString "  at " ++ Text.ofString "<main>" ++ Text.ofString " (" := by decide
  unfold traceLines Setup.traceLine
  exact congrArg (· ++ position s a ++ ")") hmain

theorem traceLines_cons (a : Int) (f : Frame) (F : List Frame) :
    traceLines s a (f :: F) = s.traceLine f.name a ++ ("\n" ++ traceLines s f.callPc F) := by
  have hend : Text.ofString ")\n" = Text.ofString ")" ++ Text.ofString "\n" := by decide
  rw [traceLines, Setup.traceLine]
  change _ ++ Text.ofString ")\n" ++ _ = _
  rw [hend]
  simp only [List.append_assoc]

theorem traceText_cons (f : Frame) (F : List Frame) : s.traceText site (f :: F) =
    s.traceLine f.name (site (F.length + 1)) ++ ("\n" ++ s.traceText site F) := by
  unfold Setup.traceText
  dsimp only
  rw [List.map_cons, List.cons_append, List.length_cons, List.range_succ, List.reverse_concat,
    List.zipWith_cons_cons]
  cases hrest : List.zipWith (fun name d => s.traceLine name (site d))
      (F.map Frame.name ++ [Text.ofString "<main>"]) (List.range (F.length + 1)).reverse with
  | nil =>
    have hlength := congrArg List.length hrest
    simp at hlength
  | cons line lines => rw [Text.join_cons_cons, List.append_assoc]

/-- The lines that are written frame by frame are those of the sites. -/
theorem traceLines_eq {c : Control} {L : List Loop} {F : List Frame} (h : Sited s site c L F) :
    traceLines s (site F.length) F = s.traceText site F := by
  induction h with
  | program => exact traceLines_nil _
  | called _ _ entered _ ih =>
    rw [traceLines_cons, traceText_cons, entered, ih]
    rfl
  | callback _ _ _ entered ih =>
    rw [traceLines_cons, traceText_cons, entered, ih]
    rfl
  | started _ _ _ _ ih => exact ih
  | nested _ _ _ ih => exact ih

/-! What a failure makes of the exceptions. -/

theorem exceptionOf_pc (he : m.exceptionOf f = some (id, q)) : q.pc = m.pc := by
  cases f with
  | raise =>
    cases he
    rfl
  | rethrow =>
    cases he
    rfl
  | _ => cases he

/-- An exception that has its place keeps it on its way outwards, and so do all others. -/
theorem fail_rethrow_world (hw : m.world = (stamp s p id).world) (inside : Bool) (L : List Loop) :
    (fail s inside (.rethrow id) m L).machine.world = m.world := by
  have hoffer {n : Machine} (hn : n.world = (stamp s p id).world) (b : Nat) :
      (∃ o, n.offer s (.rethrow id) b = .inl o ∧ o.world = n.world) ∨
        ∃ o, n.offer s (.rethrow id) b = .inr (.rethrow id, o) ∧ o.world = n.world := by
    have hworld := offer_world (s := s) (m := n) (f := .rethrow id) rfl b
    rwa [stamp_again hn] at hworld
  induction L generalizing inside m with
  | nil =>
    unfold fail
    obtain ⟨o, ho, hworld⟩ | ⟨o, ho, hworld⟩ := hoffer hw 0
    · rw [ho]
      exact hworld
    · rw [ho]
      exact hworld
  | cons l L ih =>
    unfold fail
    cases inside with
    | false => exact ih (m := { m with ip := l.ip, pc := l.pc }) hw (!l.nested)
    | true =>
      simp only [if_true]
      obtain ⟨o, ho, hworld⟩ | ⟨o, ho, hworld⟩ := hoffer hw l.boundary
      · rw [ho]
        exact hworld
      · rw [ho]
        refine (ih (m := { o with ip := l.ip, pc := l.pc }) ?_ (!l.nested)).trans hworld
        exact hworld.trans hw

theorem fail_inside_world (he : m.exceptionOf f = some (id, q)) (L : List Loop) :
    (fail s true f m L).machine.world = (stamp s q id).world := by
  cases L with
  | nil =>
    unfold fail
    obtain ⟨o, ho, hworld⟩ | ⟨o, ho, hworld⟩ := offer_world (s := s) he 0
    · rw [ho]
      exact hworld
    · rw [ho]
      exact hworld
  | cons l L =>
    obtain ⟨o, ho, hworld⟩ | ⟨o, ho, hworld⟩ := offer_world (s := s) he l.boundary
    · rw [fail_of_handled (L := l :: L) ho]
      exact hworld
    · rw [fail_of_escaped ho, fail_rethrow_world hworld]
      exact hworld

/-- An exception that an instruction or a native loop fails with is stamped where the innermost frame
has come to. -/
theorem Sited.fail_world {inside : Bool} {L : List Loop}
    (h : Sited s site (if inside then .fetch else .iterate) L m.frames)
    (here : inside = true → m.pc = site m.frames.length) (he : m.exceptionOf f = some (id, q)) :
    ∃ p : Machine, p.world = q.world ∧ p.pc = site m.frames.length ∧ p.frames = m.frames ∧
      (Machine.fail s inside f m L).machine.world = (stamp s p id).world := by
  have hf : f.isException = true := by
    cases f <;> first | rfl | cases he
  induction L generalizing inside m q with
  | nil =>
    cases inside with
    | false => cases h
    | true =>
      exact ⟨q, rfl, (exceptionOf_pc he).trans (here rfl), (exceptionOf_quiet he).frames,
        fail_inside_world he []⟩
  | cons l L ih =>
    cases inside with
    | true =>
      exact ⟨q, rfl, (exceptionOf_pc he).trans (here rfl), (exceptionOf_quiet he).frames,
        fail_inside_world he (l :: L)⟩
    | false =>
      -- A loop that cannot call is at the call that has started it, and so are those around it.
      have hout := h.outer
      have hexc : exceptionOf { m with ip := l.ip, pc := l.pc } f =
          some (id, { q with ip := l.ip, pc := l.pc }) := by
        cases f with
        | raise =>
          cases he
          rfl
        | rethrow =>
          cases he
          rfl
        | _ => cases hf
      rw [fail_of_loop hf]
      refine ih (m := { m with ip := l.ip, pc := l.pc }) (q := { q with ip := l.ip, pc := l.pc }) ?_
        (fun _ => h.site_of_iterate.1) hexc
      cases hl : l.nested with
      | false =>
        rw [hl] at hout
        exact hout
      | true =>
        rw [hl] at hout
        exact hout

/-! What is stamped. -/

theorem stamp_getElem?_of_ne {j : Nat} (hj : j ≠ id) (m : Machine) :
    (stamp s m id).world.exceptions[j]? = m.world.exceptions[j]? := by
  unfold stamp
  dsimp only
  split
  · rfl
  · change (m.world.store.exceptions.modify id _)[j]? = _
    rw [Array.getElem?_modify, if_neg (Ne.symm hj)]
    rfl

theorem stamp_getElem?_self {e : Exception} (he : m.world.exceptions[id]? = some e)
    (hp : e.positioned = false) :
    (stamp s m id).world.exceptions[id]? = some (stamped s m e) := by
  have hget : m.world.store.exception id = e := by
    unfold Store.exception
    rw [show m.world.store.exceptions[id]? = some e from he]
    rfl
  unfold stamp
  dsimp only
  rw [hget, hp, if_neg Bool.false_ne_true]
  change (m.world.store.exceptions.modify id _)[id]? = _
  rw [Array.getElem?_modify, if_pos rfl, show m.world.store.exceptions[id]? = some e from he]
  rfl

theorem stamp_getElem?_of_none (h : m.world.exceptions[id]? = none) :
    (stamp s m id).world.exceptions[id]? = none := by
  unfold stamp
  dsimp only
  split
  · exact h
  · change (m.world.store.exceptions.modify id _)[id]? = _
    rw [Array.getElem?_modify, if_pos rfl, show m.world.store.exceptions[id]? = none from h]
    rfl

/-- Only an exception that a failure makes is new. -/
theorem exceptionOf_getElem? {j : Nat} (he : m.exceptionOf f = some (id, q))
    (hj : j ≠ id ∨ q.world.exceptions[id]? = none) :
    q.world.exceptions[j]? = m.world.exceptions[j]? := by
  cases f with
  | raise c payload =>
    cases he
    have hnew : (m.world.store.exceptions.push
        { kind := c.kind, message := c.message, payload := payload })[m.world.store.exceptions.size]? ≠
          none := by simp
    change (m.world.store.exceptions.push _)[j]? = m.world.store.exceptions[j]?
    rw [Array.getElem?_push, if_neg (hj.resolve_right hnew)]
  | rethrow =>
    cases he
    rfl
  | _ => cases he

/-! What a step raises. -/

/-- Whether the next step raises an exception, and what is known of it before. -/
def Raises (s : Setup) (m : Machine) (id : Nat) (e : Exception) : Prop :=
  ∃ f m' q, m.Meets s f m' ∧ m'.exceptionOf f = some (id, q) ∧ q.world.exceptions[id]? = some e

/-- An instruction that fails leaves the frames and the loops to its failure. -/
theorem step_failed {ins : Instruction} (h : m.step s ins = .failed f m') :
    m'.frames = m.frames ∧ m'.loops = m.loops ∧
      (f.isException = true ∨ f.isFinal = true ∨ ∃ t, f = .output t) := by
  have hself : (m.dress m.frames m.loops).step s ins = .failed f m' := h
  cases step_natural (s := s) m ins with
  | next _ same => cases (same _ _ (FramesAlike.refl m.frames)).symm.trans hself
  | enters _ _ same => cases (same _ _ (FramesAlike.refl m.frames)).symm.trans hself
  | loops _ _ _ _ same => cases (same _ _ (FramesAlike.refl m.frames)).symm.trans hself
  | failed _ _ usual same =>
    cases (same _ _ (FramesAlike.refl m.frames)).symm.trans hself
    exact ⟨rfl, rfl, usual⟩
  | @returns n g v top _ _ same =>
    have hreturn := same g n.frames m.loops rfl (FramesAlike.refl n.frames)
    rw [← top] at hreturn
    cases hg : g.callback with
    | true =>
      rw [hg] at hreturn
      cases hreturn.symm.trans hself
    | false =>
      rw [hg] at hreturn
      cases hreturn.symm.trans hself

/-- A failure is an exception, or it ends the run, or a write is refused. -/
theorem Meets.usual (h : m.Meets s f m') : f.isException = true ∨ f.isFinal = true ∨
    ∃ t, f = .output t ∧ m.Fails s f m' := by
  cases h with
  | refused | deep => exact .inl rfl
  | fails h =>
    cases h with
    | outside | stopped => exact .inr (.inl rfl)
    | callback _ _ _ _ _ failed => exact (callNative_error failed).imp_right .inl
    | instruction control has go failed =>
      obtain ⟨-, -, hf | hf | ⟨t, ht⟩⟩ := step_failed failed
      · exact .inl hf
      · exact .inr (.inl hf)
      · exact .inr (.inr ⟨t, ht, .instruction control has go failed⟩)

/-- A failure that is an exception comes out where the innermost frame has come to. -/
theorem Placed.of_meets (h : m.Placed s site) (hm : m.Meets s f m') (hf : f.isException = true) :
    m'.frames = m.frames ∧
      (∃ ins, s.program.instruction? (m.reach site m.frames.length) = some ins) ∧
      Sited s (m.reach site) (if decide (m.control = .fetch) = true then .fetch else .iterate)
        m'.loops m'.frames ∧
      (decide (m.control = .fetch) = true → m'.pc = m.reach site m'.frames.length) := by
  have hreach := h.reach
  -- Going on with a loop, the machine is at the call of the loop, which is where the frame is.
  have hiterate {l l' : Loop} {loops : List Loop} {e : Value} {rest args : List Value}
      (control : m.control = .iterate) (inner : m.loops = l :: loops)
      (taken : l.take e rest = (l', args)) (frames : m'.frames = m.frames)
      (loops_eq : m'.loops = { l' with boundary := m.frames.length + 1 } :: loops) :
      m'.frames = m.frames ∧
        (∃ ins, s.program.instruction? (m.reach site m.frames.length) = some ins) ∧
        Sited s (m.reach site) (if decide (m.control = .fetch) = true then .fetch else .iterate)
          m'.loops m'.frames ∧
        (decide (m.control = .fetch) = true → m'.pc = m.reach site m'.frames.length) := by
    have horder := hreach.order
    have hno : decide (m.control = .fetch) = false := by
      rw [control]
      rfl
    rw [control, inner] at horder
    obtain ⟨-, hnested, -, hpc⟩ := l.take_eq e rest false
    rw [taken] at hnested hpc
    obtain ⟨ins, op, hins, -⟩ := horder.site_of_iterate.2
    rw [hno, frames, loops_eq]
    exact ⟨rfl, ⟨ins, hins⟩, horder.with_top hnested hpc, fun hyes => by cases hyes⟩
  cases hm with
  | refused control inner _ taken => exact hiterate control inner taken rfl rfl
  | deep control inner _ taken => exact hiterate control inner taken rfl rfl
  | fails hm =>
    cases hm with
    | outside | stopped => cases hf
    | callback control inner _ taken _ failed =>
      obtain ⟨r, w, hr⟩ | ⟨x, hr, -⟩ := callNative_cases s _ true _ _
      · cases hr.symm.trans failed
        exact hiterate control inner taken rfl rfl
      · cases hr.symm.trans failed
    | @instruction ins _ _ control has go failed =>
      have hbegun := m.begun_keeps (s := s) ins
      have hplace := (step_place control has go).1
      obtain ⟨hframes, hloops, -⟩ := step_failed failed
      have hhere := reach_of_fetch control site
      rw [failed] at hplace
      rw [decide_eq_true control, hframes, hloops, hbegun.frames, hbegun.loops, hhere]
      exact ⟨rfl, ⟨ins, has⟩, control ▸ hreach.order, fun _ => hplace⟩

/-- A step that fails with an exception stamps it where the innermost frame has come to. -/
theorem Placed.advance_world (h : m.Placed s site) (hm : m.Meets s f m')
    (he : m'.exceptionOf f = some (id, q)) :
    ∃ p : Machine, p.world = q.world ∧ p.pc = m.reach site m.frames.length ∧
      p.frames = m.frames ∧ (m.advance s).machine.world = (stamp s p id).world := by
  have hf : f.isException = true := by
    cases f <;> first | rfl | cases he
  obtain ⟨hframes, -, horder, hpc⟩ := h.of_meets hm hf
  obtain ⟨p, hworld, hplace, hp, hstamp⟩ := horder.fail_world hpc he
  rw [hm.advance_eq]
  exact ⟨p, hworld, hframes ▸ hplace, hp.trans hframes, hstamp⟩

/-- An exception that a step raises for the first time is given its place and its trace. -/
theorem Placed.raises (h : m.Placed s site) {e : Exception} (hr : m.Raises s id e)
    (new : e.positioned = false) :
    ∃ e', (m.advance s).machine.world.exceptions[id]? = some e' ∧
      e'.RaisedAt s (m.reach site) m.frames ∧
      e'.kind = e.kind ∧ e'.message = e.message ∧ e'.payload = e.payload := by
  obtain ⟨f, m', q, hm, he, hget⟩ := hr
  have hf : f.isException = true := by
    cases f <;> first | rfl | cases he
  obtain ⟨-, ⟨ins, hins⟩, -⟩ := h.of_meets hm hf
  obtain ⟨p, hworld, hpc, hframes, hstamp⟩ := h.advance_world hm he
  have horder := h.reach.order
  refine ⟨stamped s p e, ?_, ⟨?_, ⟨ins, hins, ?_⟩, ?_, horder.calls⟩, ?_⟩
  · rw [hstamp]
    exact stamp_getElem?_self (hworld ▸ hget) new
  · rfl
  · unfold stamped
    rw [hpc, hins]
    exact ⟨rfl, rfl, rfl⟩
  · change traceLines s p.pc p.frames = _
    rw [hpc, hframes]
    exact traceLines_eq horder
  · unfold stamped
    dsimp only
    split <;> exact ⟨rfl, rfl, rfl⟩

/-- An exception that a step does not raise stays as it is; there may be a new one without a place. -/
theorem Placed.not_raises (h : m.Placed s site) (unrefused : m.Unrefused s)
    (hno : ∀ e, ¬m.Raises s id e) :
    (m.advance s).machine.world.exceptions[id]? = m.world.exceptions[id]? ∨
      m.world.exceptions[id]? = none ∧
        ∃ e : Exception, e.Unplaced ∧ (m.advance s).machine.world.exceptions[id]? = some e := by
  by_cases hmeets : ∃ f m', m.Meets s f m'
  · obtain ⟨f, m', hm⟩ := hmeets
    left
    rw [← hm.exceptions]
    cases he : m'.exceptionOf f with
    | some r =>
      obtain ⟨j, q⟩ := r
      obtain ⟨p, hworld, -, -, hstamp⟩ := h.advance_world hm he
      rw [hstamp]
      by_cases hj : id = j
      · subst hj
        have hnone : q.world.exceptions[id]? = none :=
          Option.eq_none_iff_forall_ne_some.mpr fun e hget => hno e ⟨f, m', q, hm, he, hget⟩
        rw [stamp_getElem?_of_none (hworld ▸ hnone), ← exceptionOf_getElem? he (.inr hnone), hnone]
      · rw [stamp_getElem?_of_ne hj, hworld, exceptionOf_getElem? he (.inl hj)]
    | none =>
      have hf : f.isException ≠ true := fun hf => by
        obtain ⟨j, q, hsome⟩ := exceptionOf_eq_some hf m'
        cases he.symm.trans hsome
      rw [hm.advance_eq]
      rcases hm.usual with hex | hfinal | ⟨t, rfl, hfails⟩
      · exact absurd hex hf
      · obtain ⟨ip, pc, hended⟩ := fail_eq_ended (s := s) hfinal (m.control = .fetch) m' m'.loops
        rw [hended]
        rfl
      · rw [unrefused t m' hfails]
        rfl
  · obtain hsame | ⟨e, hunplaced, hpush⟩ := advance_mayMake (s := s) fun f m' hm => hmeets ⟨f, m', hm⟩
    · exact .inl (congrArg (·[id]?) hsame)
    · rw [hpush, Array.getElem?_push]
      split
      · next hid =>
        subst hid
        exact .inr ⟨Array.getElem?_eq_none (Nat.le_refl _), e, hunplaced, rfl⟩
      · exact .inl rfl

/-- Whether the next instruction is refused a write inside a native loop. -/
def refuses (s : Setup) (m : Machine) : Bool :=
  match m.control, s.program.instruction? m.ip with
  | .fetch, some ins =>
    match (m.begun s ins).step s ins with
    | .failed (.output _) _ => !m.loops.isEmpty
    | _ => false
  | _, _ => false

theorem unrefused_of_refuses (h : m.refuses s = false) : m.Unrefused s := by
  intro t m' hfails
  cases hfails with
  | instruction control has _ failed =>
    unfold refuses at h
    rw [control, has] at h
    dsimp only at h
    rw [failed] at h
    have hloops := (step_failed failed).2.1.trans (m.begun_keeps _).loops
    rw [hloops]
    simpa using h
  | callback _ _ _ _ _ failed =>
    rcases callNative_error failed with hf | hf <;> cases hf

end Machine

/-! Runs. -/

/-- The address of the last instruction that a run has begun while there was a number of frames, in a
number of steps; -1 where it has begun none. -/
def Setup.reached (s : Setup) (w : World) (o : RunOptions) : Nat → Nat → Int
  | 0 => fun _ => -1
  | n + 1 =>
    match s.stateAfter w o n with
    | .running m => m.reach (s.reached w o n)
    | .ended _ _ => s.reached w o n

/-- The exceptions there are after a number of steps. -/
def Setup.exceptionsAfter (s : Setup) (w : World) (o : RunOptions) (n : Nat) : Array Exception :=
  (s.stateAfter w o n).machine.world.exceptions

/-- In a number of steps no write is refused inside a native loop. -/
def Setup.UnrefusedUntil (s : Setup) (w : World) (o : RunOptions) (n : Nat) : Prop :=
  ∀ k < n, ∀ m, s.stateAfter w o k = .running m → m.Unrefused s

theorem Setup.placed_stateAfter {w : World} {o : RunOptions} {n : Nat}
    (h : s.UnrefusedUntil w o n) : (s.stateAfter w o n).Placed s (s.reached w o n) := by
  induction n with
  | zero => exact ⟨.program, fun hc => by cases hc⟩
  | succ n ih =>
    have hbefore := ih fun k hk => h k (Nat.lt_succ_of_lt hk)
    rw [stateAfter_succ, reached]
    cases hst : s.stateAfter w o n with
    | ended e m => trivial
    | running m =>
      rw [hst] at hbefore
      exact Machine.Placed.advance hbefore (h n (Nat.lt_succ_self n) m hst)

/-- An exception is given its place once. From the step that raises it first on nothing about it ever
changes; before that it has no place. As long as no write has been refused inside a native loop, the
place is that of the instruction being executed, and the trace has the frames with the instructions
that they have come to, all but the innermost with the call that has entered the next. -/
theorem Setup.exceptions_are_placed_once (s : Setup) (w : World) (o : RunOptions) :
    (∀ (i j id : Nat) (e : Exception), i ≤ j → (s.exceptionsAfter w o i)[id]? = some e →
      e.positioned = true → (s.exceptionsAfter w o j)[id]? = some e) ∧
    ∀ (n id : Nat) (m : Machine), s.stateAfter w o n = .running m → s.UnrefusedUntil w o (n + 1) →
      (∀ e, m.Raises s id e → e.positioned = false →
        ∃ e', (s.exceptionsAfter w o (n + 1))[id]? = some e' ∧
          e'.RaisedAt s (s.reached w o (n + 1)) m.frames ∧
          e'.kind = e.kind ∧ e'.message = e.message ∧ e'.payload = e.payload) ∧
      ((∀ e, ¬m.Raises s id e) →
        (s.exceptionsAfter w o (n + 1))[id]? = (s.exceptionsAfter w o n)[id]? ∨
        (s.exceptionsAfter w o n)[id]? = none ∧
          ∃ e : Exception, e.Unplaced ∧ (s.exceptionsAfter w o (n + 1))[id]? = some e) := by
  refine ⟨fun i j id e hij he hp => s.stateAfter_retains w o hij id e he hp,
    fun n id m running unrefused => ?_⟩
  have hplaced : m.Placed s (s.reached w o n) := by
    have hbefore := placed_stateAfter fun k hk => unrefused k (Nat.lt_succ_of_lt hk)
    rw [running] at hbefore
    exact hbefore
  have hnow : s.exceptionsAfter w o n = m.world.exceptions := by
    unfold exceptionsAfter
    rw [running]
    rfl
  have hnext : s.exceptionsAfter w o (n + 1) = (m.advance s).machine.world.exceptions := by
    unfold exceptionsAfter
    rw [stateAfter_succ, running]
    rfl
  have hreached : s.reached w o (n + 1) = m.reach (s.reached w o n) := by
    rw [reached, running]
  rw [hnow, hnext, hreached]
  exact ⟨fun e hr new => hplaced.raises hr new,
    fun hno => hplaced.not_raises (unrefused n (Nat.lt_succ_self n) m running) hno⟩

/-- Maps a function over an array, from a file `t` with one instruction a line; all the function does
to an element is one instruction. -/
def Program.lined (op : Opcode) : Program where
  file := "t"
  code? := some #[
    { op := Opcode.pushConst.code, operand := { lit := some (Literal.ofInt 1) }, line := 1, col := 1 },
    { op := Opcode.makeArray.code, operand := { int := 1 }, line := 2, col := 1 },
    { op := Opcode.pushClosure.code, operand := { name := [102] }, line := 3, col := 1 },
    { op := Opcode.callMethod.code, operand := { name := "map", int := 1 }, line := 4, col := 1 },
    { op := Opcode.ret.code, line := 5, col := 1 },
    { op := Opcode.loadVar.code, operand := { name := [120] }, line := 6, col := 1 },
    { op := op.code, line := 7, col := 1 },
    { op := Opcode.pushNull.code, line := 8, col := 1 },
    { op := Opcode.ret.code, line := 9, col := 1 }]
  functions := Table.ofList [([102], { name := [102], address := 5, params := [[120]] })]

def Setup.lined (op : Opcode) : Setup where
  program := Program.lined op
  regionEnds := Region.ends (Program.lined op).code

/-- A function that throws the element it is called with: the trace has the throw and the call of the
method that has called the function. -/
theorem Setup.throw_in_callback_is_placed : ∃ m e e',
    (lined .throw).stateAfter {} {} 6 = .running m ∧ m.Raises (lined .throw) 0 e ∧
      ((lined .throw).exceptionsAfter {} {} 7)[0]? = some e' ∧
      e'.RaisedAt (lined .throw) ((lined .throw).reached {} {} 7) m.frames ∧ e'.line = 7 ∧
      e'.trace = Text.ofString "  at f (t:7:1)\n  at <main> (t:4:1)" := by
  let m := ((lined .throw).stateAfter {} {} 6).machine
  have running : (lined .throw).stateAfter {} {} 6 = .running m := rfl
  have unrefused : (lined .throw).UnrefusedUntil {} {} 7 := by
    have hall : ∀ k < 7,
        ((lined .throw).stateAfter {} {} k).machine.refuses (lined .throw) = false := by
      decide +kernel
    intro k hk q hq
    have hmachine := hall k hk
    rw [hq] at hmachine
    exact Machine.unrefused_of_refuses hmachine
  have control : m.control = .fetch := by decide +kernel
  have has : (lined .throw).program.instruction? m.ip =
      some { op := Opcode.throw.code, line := 7, col := 1 } := by decide +kernel
  have go : m.tick.stopBefore? = none := by decide +kernel
  have raises : m.Raises (lined .throw) 0 { kind := "Error", message := "1", payload := .int 1 } :=
    ⟨_, _, _, .fails (.instruction control has go rfl), rfl, rfl⟩
  obtain ⟨e', he, hraised, -⟩ :=
    ((exceptions_are_placed_once (lined .throw) {} {}).2 6 0 m running unrefused).1 _ raises rfl
  have hplace : ((lined .throw).exceptionsAfter {} {} 7)[0]?.map (fun e => (e.line, e.trace)) =
      some (7, Text.ofString "  at f (t:7:1)\n  at <main> (t:4:1)") := by decide +kernel
  rw [he] at hplace
  obtain ⟨hline, htrace⟩ := Prod.mk.inj (Option.some.inj hplace)
  exact ⟨m, _, e', running, raises, he, hraised, hline, htrace⟩

/-- A run that may write one byte. -/
def RunOptions.oneByte : RunOptions := { outputLimit := some 1 }

/-- A function whose write is refused is left behind by its loop, which takes the refusal for an error
of its own: the trace has the call of the method for both. -/
theorem Setup.refused_write_misplaces_frame :
    ¬ ∀ (p : Program) (options : Options) (s : Setup) (w : World) (o : RunOptions) (n id : Nat)
      (m : Machine) (e : Exception), Setup.prepare p options = .ok s →
      s.stateAfter w o n = .running m → (s.exceptionsAfter w o n)[id]? = none →
      (s.exceptionsAfter w o (n + 1))[id]? = some e → e.positioned = true →
      e.trace = s.traceText (s.reached w o (n + 1)) m.frames := by
  intro h
  let m := ((lined .print).stateAfter {} .oneByte 6).machine
  have running : (lined .print).stateAfter {} .oneByte 6 = .running m := rfl
  have hbefore : ((lined .print).exceptionsAfter {} .oneByte 6)[0]? = none := by decide +kernel
  have hafter : ((lined .print).exceptionsAfter {} .oneByte 7)[0]?.map
      (fun e => (e.positioned, e.trace)) =
        some (true, Text.ofString "  at f (t:4:1)\n  at <main> (t:4:1)") := by decide +kernel
  have hwhere : (lined .print).traceText ((lined .print).reached {} .oneByte 7)
      ((lined .print).stateAfter {} .oneByte 6).machine.frames =
        Text.ofString "  at f (t:7:1)\n  at <main> (t:4:1)" := by decide +kernel
  rw [running] at hwhere
  obtain ⟨e, he, hfields⟩ := Option.map_eq_some_iff.mp hafter
  obtain ⟨hpositioned, htrace⟩ := Prod.mk.inj hfields
  have hsame :=
    h (.lined .print) {} (lined .print) {} .oneByte 6 0 m e rfl running hbefore he hpositioned
  exact absurd (htrace.symm.trans (hsame.trans hwhere)) (by decide)

end BytecodeMachine
