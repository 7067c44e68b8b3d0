import BytecodeMachine.Proofs.Structured.Simulation

/-! A structured program runs as it is meant: it prints the same lines and ends in the same way. -/
namespace BytecodeMachine

/-- The value or the exception that a run ended with, none for another kind of end. -/
def Run.final? (r : Run) : Option Structured.Final :=
  match r.ending with
  | .value v => some (.value v)
  | .exception id =>
    let e := r.world.store.exception id
    some (.uncaught ⟨e.kind, e.message, e.payload⟩)
  | _ => none

namespace Structured

variable {p : Source} {s : Setup}

/-- The setup that a program is prepared to. -/
def Source.setup (p : Source) (o : Options) : Setup where
  program := p.program
  maxCallDepth := positiveOr 1024 o.maxCallDepth
  bufferSize := positiveOr 4096 o.bufferSize
  trace := o.trace
  host := o.host
  regionEnds := Region.ends p.code.toArray

/-- How a program ends and what it prints, given enough time. -/
def Source.Means (p : Source) (s : Setup) (f : Final) (t : Text) : Prop :=
  ∃ clock, p.eval (surroundings p s).defines s.maxCallDepth clock = some (f, t)

/-- Outside of everything, at the start of a run. -/
def Spot.start : Spot := { base := 1, frames := [], depth := 0, handlers := [] }

theorem poised_start (s : Setup) (w : World) :
    Poised s Spot.start {} [] 0 { world := w.renew {} } := by
  refine ⟨⟨rfl, rfl, rfl, rfl, rfl, ⟨rfl, rfl⟩, Nat.one_pos, Nat.le_refl 1, rfl, rfl, ⟨rfl, rfl⟩, ?_⟩,
    rfl, rfl, rfl⟩
  intro name c hc
  cases hc

theorem fits_start {b : Nat} (small : b < twoTo 63) : Spot.start.Fits 0 b where
  below _ hmem := absurd hmem List.not_mem_nil
  calm _ _ _ h hhead := absurd hhead (Option.not_mem_none h)
  around h hhead := absurd hhead (Option.not_mem_none h)
  floor := Nat.le_refl 0
  small := small

/-- The end of the main part. -/
theorem Poised.halt {x : Spot} {σ : State} {a : Nat} {m : Machine} (hp : s.program = p.program)
    (h : Poised s x σ [] a m) (calm : x.Calm a) (hins : p.code[a]? = some (plain .halt)) :
    ∃ m', m.advance s = .ended (.value .null) m' ∧ m'.world.output.text = σ.output := by
  have hb := (h.begun calm (plain .halt)).1
  refine ⟨{ m.begun s (plain .halt) with loops := [] }, ?_, hb.shows.output_eq⟩
  rw [h.advance_eq hp hins rfl]
  simp only [Machine.perform, Machine.settle]
  rw [hb.loops]
  rfl

/-- A signal that nothing stops ends the run. -/
theorem Departs.ends {σ : State} {w : World} {e : Exits} {dest : Nat} {o : Outcome false} {st : Status}
    (h : Departs s Spot.start σ w (o.Sends e dest) st) : ∃ ending m, st = .ended ending m ∧
      Run.final? ⟨ending, m⟩ = some o.final ∧ m.world.output.text = σ.output := by
  obtain ⟨m', sig, hlike, hm, _, _, hsig⟩ := h
  have hends {ending : Ending} {m'' : Machine}
      (hcarry : Machine.carry s m' Spot.start.handlers sig = .ended ending m'')
      (hworld : m''.world = m'.world) :
      ∃ m, st = .ended ending m ∧ m.world = m'.world := by
    rw [hcarry] at hlike
    cases st with
    | running => exact hlike.elim
    | ended e' m =>
      obtain ⟨rfl, hw⟩ := hlike
      exact ⟨m, rfl, hw.trans hworld⟩
  -- The machine that a run ends with is its own, but for the world it is the one of the signal.
  cases o with
  | normal => exact hsig.elim
  | thrown r =>
    obtain ⟨id, rfl, hcarries⟩ := hsig
    obtain ⟨m, hst, hw⟩ := hends rfl (Machine.popFrames_world _ _)
    obtain ⟨hkind, hmessage, hpayload, _⟩ := hcarries.exception
    refine ⟨_, m, hst, ?_, by rw [hw]; exact hm.shows.output_eq⟩
    rw [Run.final?]
    simp only [Run.world, hw, hkind, hmessage, hpayload]
    rfl
  | returned v =>
    cases hsig
    have hframes : m'.frames = [] := hm.frames
    have hcarry : Machine.carry s m' Spot.start.handlers (.returned v) =
        .ended (.value v) { m' with handlers := [], loops := [] } := by
      change Machine.settle s (Machine.returnFrom { m' with handlers := [] } v) = _
      unfold Machine.returnFrom
      simp only [hframes, Machine.settle, hm.loops]
      rfl
    obtain ⟨m, hst, hw⟩ := hends hcarry rfl
    exact ⟨_, m, hst, rfl, by rw [hw]; exact hm.shows.output_eq⟩

/-- A run lasts as long as the meaning of its program does not show, and ends with that meaning. -/
theorem run_of_exec (hp : Prepared p s) (w : World) (clock : Nat) :
    match Stmt.exec (surroundings p s) clock false p.main 0 {} with
    | none => ∃ k m', clock < k ∧
        Machine.runFor s k (.running { world := w.renew {} }) = .running m'
    | some (o, σ) => ∃ k ending m',
        Machine.runFor s k (.running { world := w.renew {} }) = .ended ending m' ∧
          Run.final? ⟨ending, m'⟩ = some o.final ∧ m'.world.output.text = σ.output := by
  obtain ⟨hcode, hhalt, _⟩ := p.placed_main
  have hlt := (List.getElem?_eq_some_iff.mp hhalt).1
  have hsmall := hp.small
  have hfit := fits_start (b := 0 + p.main.size) (by omega)
  have hmeets : Meets s Spot.start ⟨0, 0, 0⟩ 0 (clock + 1) (0 + p.main.size) _
      (Stmt.exec (surroundings p s) clock false p.main 0 {}) :=
    agrees_exec hp clock false p.main hcode hfit (fun hl => nomatch hl) (poised_start s w)
  generalize Stmt.exec (surroundings p s) clock false p.main 0 {} = r at hmeets ⊢
  cases hmeets with
  | @lasting k m' long runs => exact ⟨k, m', long, runs⟩
  | @through k m' σ moves there =>
    rw [Nat.zero_add] at there
    obtain ⟨m'', hend, ht⟩ := there.halt hp.program (fun _ h => nomatch h) hhalt
    refine ⟨k + 1, .value .null, m'', ?_, rfl, ht⟩
    rw [Machine.runFor_add, moves.1]
    exact hend
  | @sending k o σ departs =>
    obtain ⟨ending, m', hend, hf, ht⟩ := departs.ends
    exact ⟨k + 1, ending, m', hend, hf, ht⟩

theorem Source.means_of_run {w : World} {limit : Nat} {run : Run} (hp : Prepared p s)
    (h : s.run? limit w {} = some run) :
    ∃ f, run.final? = some f ∧ p.Means s f run.world.output.text := by
  have hended : Machine.runFor s limit (.running { world := w.renew {} }) =
      .ended run.ending run.machine := by
    unfold Setup.run? at h
    split at h
    · next e m hrun =>
      cases h
      exact hrun
    · cases h
  have hexec := run_of_exec hp w limit
  have hmeans : p.eval (surroundings p s).defines s.maxCallDepth limit =
      (Stmt.exec (surroundings p s) limit false p.main 0 {}).map fun r =>
        (r.1.final, r.2.output) := rfl
  cases hr : Stmt.exec (surroundings p s) limit false p.main 0 {} with
  -- With more clock than steps the run would have to last longer than it does.
  | none =>
    rw [hr] at hexec
    obtain ⟨k, m', hk, hrun⟩ := hexec
    cases hrun.symm.trans (Machine.runFor_mono hended (Nat.le_of_lt hk))
  | some r =>
    rw [hr] at hexec
    obtain ⟨k, ending, m', hrun, hf, ht⟩ := hexec
    -- Both runs are through, so they have come to the same end.
    have hsame := (Machine.runFor_mono hended (Nat.le_max_left limit k)).symm.trans
      (Machine.runFor_mono hrun (Nat.le_max_right limit k))
    obtain ⟨rfl, rfl⟩ := Status.ended.inj hsame
    refine ⟨r.1.final, hf, limit, ?_⟩
    rw [hmeans, hr]
    exact congrArg (fun t => some (r.1.final, t)) ht.symm

theorem Source.run_of_means {w : World} {f : Final} {t : Text} (hp : Prepared p s)
    (h : p.Means s f t) : ∃ n, ∀ limit, n ≤ limit → ∃ run, s.run? limit w {} = some run ∧
      run.final? = some f ∧ run.world.output.text = t := by
  obtain ⟨clock, heval⟩ := h
  have hexec := run_of_exec hp w clock
  obtain ⟨⟨o, σ⟩, hr, hpair⟩ := Option.map_eq_some_iff.mp heval
  obtain ⟨rfl, rfl⟩ := Prod.mk.inj hpair
  have hr' : Stmt.exec (surroundings p s) clock false p.main 0 {} = some (o, σ) := hr
  rw [hr'] at hexec
  obtain ⟨k, ending, m', hrun, hf, ht⟩ := hexec
  refine ⟨k, fun limit hlimit => ⟨⟨ending, m'⟩, ?_, hf, ht⟩⟩
  rw [Setup.run?, Machine.runFor_mono hrun hlimit]

/-- The code of a program is accepted, and its runs are those that the meaning of the program has:
what the program means shows after finitely many steps, and every run that ends has shown it. -/
theorem Source.runs_as_meant (p : Source) (fits : p.code.length < twoTo 63) (o : Options) (w : World) :
    Setup.prepare p.program o = .ok (p.setup o) ∧
      (∀ f t, p.Means (p.setup o) f t → ∃ n, ∀ limit, n ≤ limit → ∃ run,
        (p.setup o).run? limit w {} = some run ∧ run.final? = some f ∧
          run.world.output.text = t) ∧
      ∀ limit run, (p.setup o).run? limit w {} = some run →
        ∃ f, run.final? = some f ∧ p.Means (p.setup o) f run.world.output.text := by
  have hp : Prepared p (p.setup o) := ⟨rfl, rfl, fits⟩
  refine ⟨?_, fun f t h => run_of_means hp h, fun limit run h => means_of_run hp h⟩
  rw [Setup.prepare, p.defect?_eq_none fits]
  rfl

def Const.ofText (t : Text) : Const := ⟨Literal.ofText t, .string t, rfl⟩

/-- Calls a function that throws, from a loop that goes on until it catches the exception. -/
def guardedCall : Source where
  names := [Text.ofString "fail"]
  nodup := by decide
  body _ := .throw (.ofText "no")
  main := .loop (.tryCatchFinally (.call ⟨0, by decide⟩)
    (.seq (.print (.ofText "caught")) .breakLoop) (.print (.ofText "done")))

theorem guardedCall_runs_as_meant : guardedCall.code.length < twoTo 63 ∧ ∃ n run,
    (guardedCall.setup {}).run? n {} {} = some run ∧ run.final? = some (.value .null) ∧
      run.world.output.text = Text.ofString "caught\ndone\n" := by
  have fits : guardedCall.code.length < twoTo 63 := by decide
  obtain ⟨_, hmeans, _⟩ := guardedCall.runs_as_meant fits {} {}
  obtain ⟨n, hn⟩ := hmeans (.value .null) (Text.ofString "caught\ndone\n") ⟨2, by rfl⟩
  exact ⟨fits, n, hn n (Nat.le_refl n)⟩

end Structured

end BytecodeMachine
