import BytecodeMachine.Proofs.Structured.Context

/-! Protected regions as a whole: how control comes to a catch block and to a finally block, and what
the end of a finally block makes of the outcome before it. -/
namespace BytecodeMachine.Structured

variable {p : Source} {s : Setup} {x : Spot} {σ : State} {b f start last : Nat} {m : Machine}
  {e : Exits} {dest ℓ : Nat} {l : Bool} {d : Handler} {w : World} {st : Status}

theorem Spot.Guards.phase (h : x.Guards d start last) (phase : Phase) :
    x.Guards { d with phase := phase } start last :=
  ⟨h.callDepth, h.scopeDepth, h.tryAddr, h.endAddr⟩

theorem Spot.Guards.unwindTo_eq (h : x.Guards d start last) (hm : Stands s (x.under d) σ m)
    (stack : m.stack = []) : m.unwindTo d = m :=
  Machine.unwindTo_self (h.callDepth.trans (congrArg List.length hm.frames).symm)
    (h.scopeDepth.trans hm.depth.symm) stack

/-- An exception comes to the catch block of the region that it was thrown in. -/
theorem Departs.caught {r : Raised} (h : Departs s (x.under d) σ w (Throws r) st)
    (hd : x.Guards d start last) (trying : d.phase = .trying) {c : Nat} (hcatch : d.catchAddr = c) :
    ∃ m' id, st = .running m' ∧ Keeps x.base w m'.world ∧
      Poised s (x.under { d with phase := .catching }) σ [.exception id] c m' := by
  obtain ⟨m', sig, hlike, hm, hstack, hkeeps, id, rfl, _⟩ := h
  have hhas : d.hasCatch = true := by simp [Handler.hasCatch, hcatch]
  have hcarry : Machine.carry s m' (x.under d).handlers (.thrown id) =
      .running (m'.enterCatch d x.handlers id) :=
    Machine.carry_cons_catch hm.control hm.loops trying hhas
  rw [hcarry] at hlike
  -- Nothing is left to unwind: the signal starts where the region was entered.
  have henter : m'.enterCatch d x.handlers id =
      { m' with
        handlers := { d with phase := .catching } :: x.handlers
        stack := [.exception id]
        ip := c } := by
    rw [Machine.enterCatch, hd.unwindTo_eq hm hstack, hstack, hcatch]
  rw [henter] at hlike
  exact ⟨_, id, hlike.eq_running, hkeeps,
    ⟨hm.frames, hm.depth, hm.scopes, hm.loops, hm.control, hm.shows⟩, rfl, rfl, rfl⟩

/-- A signal out of a region whose finally block is still to run comes to that block. -/
theorem Departs.putOff {P : World → Signal → Prop} (h : Departs s (x.under d) σ w P st)
    (hd : x.Guards d start last)
    (passes : ∀ m' sig, m'.frames = x.frames → P m'.world sig →
      sig.Passes d m' ∧ sig.isCaught d = false)
    (fresh : d.isFinalizing = false) (hfinally : d.finallyAddr = f) :
    ∃ m' sig, st = .running m' ∧ Keeps x.base w m'.world ∧ P m'.world sig ∧
      Poised s (x.under { d with phase := .finalizing (sig.pending d) }) σ [] f m' := by
  obtain ⟨m', sig, hlike, hm, hstack, hkeeps, hsig⟩ := h
  obtain ⟨hpass, huncaught⟩ := passes m' sig hm.frames hsig
  have hhas : d.hasFinally = true := by simp [Handler.hasFinally, hfinally]
  have hcarry : Machine.carry s m' (x.under d).handlers sig =
      .running (m'.enterFinally d x.handlers (sig.pending d)) :=
    Machine.carry_cons_finally hm.control hm.loops hpass huncaught hhas fresh
  rw [hcarry] at hlike
  have henter : m'.enterFinally d x.handlers (sig.pending d) =
      { m' with
        handlers := { d with phase := .finalizing (sig.pending d) } :: x.handlers
        ip := f } := by
    rw [Machine.enterFinally, hd.unwindTo_eq hm hstack, hfinally]
  rw [henter] at hlike
  exact ⟨_, sig, hlike.eq_running, hkeeps, hsig,
    ⟨hm.frames, hm.depth, hm.scopes, hm.loops, hm.control, hm.shows⟩, rfl, hstack, rfl⟩

section Falling

theorem markFinalizing_eq (h : Poised s (x.under d) σ [] f m) (hd : x.Guards d start last)
    (hfinally : d.finallyAddr = f) (fresh : d.isFinalizing = false) :
    m.markFinalizing =
      { m with handlers := { d with phase := .finalizing .nothing } :: x.handlers } := by
  have hhandlers : m.handlers = d :: x.handlers := h.handlers
  have hcall : d.callDepth = m.frames.length :=
    hd.callDepth.trans (congrArg List.length h.frames).symm
  unfold Machine.markFinalizing
  rw [hhandlers]
  simp only [hfinally, h.ip, hcall, fresh, decide_true, Bool.not_false, Bool.and_self, if_true]

theorem markFinalizing_tick (m : Machine) : m.tick.markFinalizing = m.markFinalizing.tick := by
  have hhandlers : m.tick.handlers = m.handlers := rfl
  unfold Machine.markFinalizing
  rw [hhandlers]
  split
  · rfl
  · next d rest _ =>
    change (if (d.finallyAddr = m.ip && d.callDepth = m.frames.length && !d.isFinalizing) = true
      then _ else _) = _
    by_cases hc : (d.finallyAddr = m.ip && d.callDepth = m.frames.length && !d.isFinalizing) = true
    · rw [if_pos hc, if_pos hc]
      rfl
    · rw [if_neg hc, if_neg hc]

theorem calm_of_finalizing (running : d.isFinalizing = true) (i : Nat) : (x.under d).Calm i := by
  intro g hg _ hfresh
  cases hg
  rw [running] at hfresh
  cases hfresh

/-- Ordinary flow comes to a finally block, as if the block had been marked as entered before. -/
theorem Meets.fall {r : Result l} (hp : s.program = p.program) (h : Poised s (x.under d) σ [] f m)
    (hd : x.Guards d start last) (hfinally : d.finallyAddr = f) (fresh : d.isFinalizing = false)
    {ins : Instruction} (hins : p.code[f]? = some ins) (hb : f ≠ b)
    (hmarked : Poised s (x.under { d with phase := .finalizing .nothing }) σ [] f m.markFinalizing →
      Meets s x e dest ℓ b m.markFinalizing r) : Meets s x e dest ℓ b m r := by
  have heq := markFinalizing_eq h hd hfinally fresh
  have hpoised : Poised s (x.under { d with phase := .finalizing .nothing }) σ [] f
      m.markFinalizing := by
    rw [heq]
    exact ⟨⟨h.frames, h.depth, h.scopes, h.loops, h.control, h.shows⟩, rfl, h.stack, h.ip⟩
  have hworld : m.markFinalizing.world = m.world := by rw [heq]
  have hbegun : m.markFinalizing.begun s ins = m.begun s ins := by
    unfold Machine.begun
    rw [markFinalizing_eq_self hpoised (calm_of_finalizing rfl f), markFinalizing_tick]
  -- Any run of at least one step is the same from both machines.
  have hrun (k : Nat) : Machine.runFor s (k + 1) (.running m.markFinalizing) =
      Machine.runFor s (k + 1) (.running m) := by
    change Machine.runFor s k _ = Machine.runFor s k _
    rw [hpoised.advance_step hp hins, h.advance_step hp hins, hbegun]
  cases hmarked hpoised with
  | @lasting k m' long runs =>
    cases k with
    | zero => exact .lasting long rfl
    | succ k => exact .lasting long ((hrun k).symm.trans runs)
  | @through k m' σ' moves there =>
    cases k with
    | zero =>
      -- The run has not moved, but it is not where it is to end.
      have hm : m.markFinalizing = m' := Status.running.inj moves.1
      have hip := there.ip
      rw [← hm, hpoised.ip] at hip
      omega
    | succ k => exact .through ⟨(hrun k).symm.trans moves.1, hworld ▸ moves.2⟩ there
  | @sending k o σ' departs =>
    rw [hrun k, hworld] at departs
    exact .sending departs

end Falling

/-- What a finally block is to let go on at its end. -/
def Outcome.Owed (o : Outcome l) (e : Exits) (dest : Nat) (d : Handler) (w : World) : Prop :=
  o = .normal ∧ d.pending = .nothing ∨ ∃ sig, d.pending = sig.pending d ∧ o.Sends e dest w sig

/-- A finally block lets the outcome before it go on, unless it has another one of its own. -/
theorem Meets.finallyBlock {o : Outcome l} {u : Result l} (hp : s.program = p.program)
    (hd : x.Guards d start last) (running : d.isFinalizing = true)
    (hloop : l = true → x.InLoop e dest start b) (hlast : last ≤ b)
    (hins : p.code[last]? = some (plain .endFinally)) (owed : o.Owed e dest d m.world)
    (h : Meets s (x.under d) e dest ℓ last m u) :
    Meets s x e dest ℓ (last + 1) m (u.map fun r => (o.over r.1, r.2)) := by
  have hcalm := calm_of_finalizing (x := x) running last
  -- At the end of the block the outcome before it goes on; any other way out drops the handler, and
  -- with it what was owed.
  cases h with
  | lasting long runs => exact .lasting long runs
  | @through k m' σ' moves there =>
    rcases owed with ⟨rfl, hnothing⟩ | ⟨sig, hpending, hsig⟩
    · obtain ⟨m'', hend, hpoised⟩ := there.endFinally hp hcalm hnothing hins
      exact .through (moves.trans hend) hpoised
    · have hsig' := hsig.keep moves.2
      have hdeparts := there.endFinally_departs hp hcalm hpending hd.scopeDepth
        (fun id hid => ?_) (fun target t ht => ?_) hins
      · obtain ⟨m'', sig', hlike, hm, hstack, hkeeps, rfl⟩ := hdeparts
        refine .sending (k := k) ?_
        rw [Machine.runFor_add, moves.1]
        exact ⟨m'', sig', hlike, hm, hstack, moves.2.trans hkeeps, hsig'.keep hkeeps⟩
      · subst hid
        cases o with
        | thrown r =>
          obtain ⟨_, heq, hcarries⟩ := hsig'
          cases heq
          exact ⟨r, hcarries⟩
        | normal => exact hsig'.elim
        | returned | broken | continued => cases hsig'
      · obtain ⟨hfloor, hle, _⟩ := hsig'.left_dest hloop target t ht
        exact ⟨hfloor, hle⟩
  | @sending k o' σ' departs =>
    have hover : o.over o' = o' := by
      obtain ⟨_, _, _, _, _, _, hsig⟩ := departs
      exact hsig.over_eq o
    have hout : Meets s x e dest ℓ (last + 1) m (some (o', σ')) := by
      refine .sending (departs.spent (fun m' sig hm hsig => ⟨?_, ?_⟩) fun _ => running)
      · exact hsig.passes hloop hd hlast hm
      · unfold Signal.isCaught
        unfold Handler.isFinalizing at running
        cases sig with
        | thrown id => cases hphase : d.phase <;> simp [hphase] at running ⊢
        | returned | left => rfl
    rw [Option.map_some]
    dsimp only
    rwa [hover]

end BytecodeMachine.Structured
