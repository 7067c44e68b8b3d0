import BytecodeMachine.Proofs.Structured.Protected
import BytecodeMachine.Proofs.Structured.Regions

/-! The code of a statement does what the statement means. For every kind of statement, what is shown
of its parts holds of it too; a loop and a call need it only for fewer rounds and calls. -/
namespace BytecodeMachine.Structured

/-- A setup in which the code of a program is run. -/
structure Prepared (p : Source) (s : Setup) : Prop where
  program : s.program = p.program
  ends : s.regionEnds = Region.ends p.code.toArray
  small : p.code.length < twoTo 63

/-- What a program is run in on a machine. -/
def surroundings (p : Source) (s : Setup) : Surroundings p.names.length :=
  ⟨p.body, fun v => s.program.functions.contains v || (s.builtin? v).isSome, s.maxCallDepth⟩

/-- Wherever the code of a statement stands and is reached, a run of it meets its meaning. -/
def Agrees (p : Source) (s : Setup) (ℓ : Nat) {l : Bool} (st : Stmt p.names.length l)
    (run : Nat → State → Result l) : Prop :=
  ∀ {a : Nat} {e : Exits} {dest : Nat} {x : Spot} {σ : State} {m : Machine},
    Placed p.code a (st.code p.name a e) → x.Fits a (a + st.size) →
    (l = true → x.InLoop e dest a (a + st.size)) → Poised s x σ [] a m →
    Meets s x e dest ℓ (a + st.size) m (run x.frames.length σ)

theorem Placed.two {code : List Instruction} {a : Nat} {i j : Instruction}
    (h : Placed code a [i, j]) : code[a]? = some i ∧ code[a + 1]? = some j := by
  rw [Placed.cons_iff, Placed.cons_iff] at h
  exact ⟨h.1, h.2.1⟩

variable {p : Source} {s : Setup} {ℓ : Nat} {l : Bool}
  {again : (l : Bool) → Stmt p.names.length l → Nat → State → Result l}

theorem Departs.not_normal {x : Spot} {σ : State} {w : World} {e : Exits} {dest : Nat} {st : Status}
    (h : Departs s x σ w ((Outcome.normal : Outcome l).Sends e dest) st) : False := by
  obtain ⟨_, _, _, _, _, _, hsig⟩ := h
  exact hsig

/-- A signal that is sent by the instruction at which a run has arrived. -/
theorem Meets.sends {x : Spot} {σ : State} {e : Exits} {dest b j : Nat} {o : Outcome l}
    {m₀ m : Machine} (hm : Moves s x.base j m₀ m)
    (h : Departs s x σ m.world (o.Sends e dest) (m.advance s)) :
    Meets s x e dest ℓ b m₀ (some (o, σ)) :=
  .sending (h.arriving hm)

/-- What a statement comes to when a jump follows it. -/
theorem Meets.jump {x : Spot} {e : Exits} {dest c target : Nat} {m : Machine} {r : Result l}
    (h : Meets s x e dest ℓ c m r) (hp : Prepared p s) (calm : x.Calm c) (small : target < twoTo 63)
    (hins : p.code[c]? = some (jumping .jump target)) : Meets s x e dest ℓ target m r := by
  cases h with
  | lasting long runs => exact .lasting long runs
  | through moves there =>
    obtain ⟨m', hm, h'⟩ := there.jump hp.program calm small hins
    exact .through (moves.trans hm) h'
  | sending departs => exact .sending departs

section Basic

variable (hp : Prepared p s)
include hp

/-- A statement that pushes a constant, and what its second instruction does with it. -/
theorem agrees_pushing {st : Stmt p.names.length l} {c : Const} {ins : Instruction}
    {run : Nat → State → Result l} (hsize : st.size = 2)
    (hcode : ∀ a e, st.code p.name a e = [pushing c, ins])
    (hdo : ∀ {a : Nat} {e : Exits} {dest : Nat} {x : Spot} {σ : State} {m : Machine},
      p.code[a]? = some ins → x.Calm a → Poised s x σ [c.value] a m →
        Meets s x e dest ℓ (a + 1) m (run x.frames.length σ)) : Agrees p s ℓ st run := by
  intro a e dest x σ m hplaced hfit _ h
  -- The first instruction is the same for all of them, so only the second one is left to its own
  -- lemma.
  rw [hcode] at hplaced
  rw [hsize] at hfit ⊢
  obtain ⟨hpush, hins⟩ := hplaced.two
  have hcalm := hfit.calm a (Nat.le_refl a) (by omega)
  have hcalm' := hfit.calm (a + 1) (Nat.le_succ a) (Nat.lt_succ_self (a + 1))
  obtain ⟨m', hm, h'⟩ := h.pushConst hp.program hcalm hpush
  exact (hdo hins hcalm' h').after hm (Nat.le_add_left _ _)

theorem agrees_print (c : Const) :
    Agrees p s ℓ (.print c : Stmt _ l) ((Stmt.print c).execWith (surroundings p s) again) := by
  refine agrees_pushing hp rfl (fun _ _ => rfl) fun hins hcalm h => ?_
  obtain ⟨m', hm, h'⟩ := h.print hp.program hcalm hins
  exact .through hm h'

theorem agrees_declare (v : Text) (c : Const) :
    Agrees p s ℓ (.declare v c : Stmt _ l)
      ((Stmt.declare v c).execWith (surroundings p s) again) := by
  refine agrees_pushing hp rfl (fun _ _ => rfl) fun hins hcalm h => ?_
  obtain ⟨m', hm, h'⟩ := h.varDecl hp.program hcalm hins
  exact .through hm h'

theorem agrees_assign (v : Text) (c : Const) :
    Agrees p s ℓ (.assign v c : Stmt _ l)
      ((Stmt.assign v c).execWith (surroundings p s) again) := by
  refine agrees_pushing hp rfl (fun _ _ => rfl) fun {a e dest x σ m} hins hcalm h => ?_
  rw [Stmt.execWith]
  cases hx : σ.assign? v c with
  | some σ' =>
    obtain ⟨m', hm, h'⟩ := h.storeVar hp.program hcalm hins hx
    exact .through hm h'
  | none => exact .sends (Moves.refl s x.base m) (h.storeVar_raises hp.program hcalm hins hx)

theorem agrees_throw (c : Const) :
    Agrees p s ℓ (.throw c : Stmt _ l) ((Stmt.throw c).execWith (surroundings p s) again) := by
  refine agrees_pushing hp rfl (fun _ _ => rfl) fun {a e dest x σ m} hins hcalm h => ?_
  exact .sends (Moves.refl s x.base m) (h.throw hp.program hcalm hins)

theorem agrees_ret (c : Const) :
    Agrees p s ℓ (.ret c : Stmt _ l) ((Stmt.ret c).execWith (surroundings p s) again) := by
  refine agrees_pushing hp rfl (fun _ _ => rfl) fun {a e dest x σ m} hins hcalm h => ?_
  exact .sends (Moves.refl s x.base m) (h.ret hp.program hcalm hins)

/-- A leave from inside a loop to one of its two exits. -/
theorem leave_departs {a b target : Nat} {e : Exits} {dest : Nat} {x : Spot} {σ : State} {m : Machine}
    (h : Poised s x σ [] a m) (hcalm : x.Calm a) (hloop : x.InLoop e dest a b) (ha : a < twoTo 63)
    (htarget : target < twoTo 63) (hins : p.code[a]? = some (leaving target e.scopes)) :
    Departs s x σ m.world (fun _ sig => sig = .left target dest) (m.advance s) := by
  have hopened := hloop.opened
  exact h.leave hp.program hcalm ⟨htarget, by omega⟩ hloop.depth hloop.floor hins

theorem agrees_breakLoop :
    Agrees p s ℓ .breakLoop (Stmt.breakLoop.execWith (surroundings p s) again) := by
  intro a e dest x σ m hcode hfit hloop h
  have hin := hloop rfl
  have hcalm := hfit.calm a (by omega) (Nat.lt_succ_self a)
  have hsmall := hfit.small
  exact .sends (Moves.refl s x.base m)
    (leave_departs hp h hcalm hin (by omega) hin.small (Placed.cons_iff.mp hcode).1)

theorem agrees_continueLoop :
    Agrees p s ℓ .continueLoop (Stmt.continueLoop.execWith (surroundings p s) again) := by
  intro a e dest x σ m hcode hfit hloop h
  have hin := hloop rfl
  have hcalm := hfit.calm a (by omega) (Nat.lt_succ_self a)
  have hsmall := hfit.small
  -- The entry of the loop is before the statement, so its address is as small.
  have htop := hin.top
  exact .sends (Moves.refl s x.base m)
    (leave_departs hp h hcalm hin (by omega) (by omega) (Placed.cons_iff.mp hcode).1)

omit hp in
theorem agrees_seq {st st' : Stmt p.names.length l}
    (hs : Agrees p s ℓ st (st.execWith (surroundings p s) again))
    (ht : Agrees p s ℓ st' (st'.execWith (surroundings p s) again)) :
    Agrees p s ℓ (.seq st st') ((Stmt.seq st st').execWith (surroundings p s) again) := by
  intro a e dest x σ m hcode hfit hloop h
  obtain ⟨hcode₁, hcode₂⟩ := hcode.seq
  have hsize : a + (Stmt.seq st st').size = a + st.size + st'.size := by
    rw [Stmt.size, Nat.add_assoc]
  rw [hsize] at hfit hloop ⊢
  have hmeets := hs hcode₁ (hfit.mono (Nat.le_refl a) (Nat.le_add_right _ _))
    (fun hl => (hloop hl).mono (Nat.le_refl a) (Nat.le_add_right _ _)) h
  rw [Stmt.execWith]
  generalize st.execWith (surroundings p s) again x.frames.length σ = r at hmeets ⊢
  -- The second part is run only where the first one has got through.
  cases hmeets with
  | lasting long runs => exact .lasting long runs
  | through moves there =>
    exact (ht hcode₂ (hfit.mono (Nat.le_add_right _ _) (Nat.le_refl _))
      (fun hl => (hloop hl).mono (Nat.le_add_right _ _) (Nat.le_refl _)) there).after moves
        (Nat.le_add_left _ _)
  | @sending k o σ' departs =>
    cases o with
    | normal => exact departs.not_normal.elim
    | thrown | returned | broken | continued => exact .sending departs

end Basic

/-- What the test of a variable comes to. -/
theorem ifVar_cases {n : Nat} (S : Surroundings n)
    (again : (l : Bool) → Stmt n l → Nat → State → Result l) (v : Text) (st st' : Stmt n l)
    (d : Nat) (σ : State) :
    (∃ b, ((σ.lookup? v).map (·.isTrue) = some b ∨
          σ.lookup? v = none ∧ b = true ∧ S.defines v = true) ∧
        (Stmt.ifVar v st st').execWith S again d σ =
          if b then st.execWith S again d σ else st'.execWith S again d σ) ∨
      σ.lookup? v = none ∧ S.defines v = false ∧
        (Stmt.ifVar v st st').execWith S again d σ =
          some (.thrown (.of (.undefinedName v) .null), σ) := by
  rw [Stmt.execWith]
  cases hv : σ.lookup? v with
  | some c => exact Or.inl ⟨c.isTrue, Or.inl rfl, rfl⟩
  | none =>
    cases hdef : S.defines v with
    | true => exact Or.inl ⟨true, Or.inr ⟨rfl, rfl, rfl⟩, rfl⟩
    | false => exact Or.inr ⟨rfl, rfl, rfl⟩

theorem agrees_ifVar (hp : Prepared p s) (v : Text) {st st' : Stmt p.names.length l}
    (hs : Agrees p s ℓ st (st.execWith (surroundings p s) again))
    (ht : Agrees p s ℓ st' (st'.execWith (surroundings p s) again)) :
    Agrees p s ℓ (.ifVar v st st') ((Stmt.ifVar v st st').execWith (surroundings p s) again) := by
  intro a e dest x σ m hcode hfit hloop h
  obtain ⟨hload, htest, hcode₁, hjump, hcode₂⟩ := hcode.ifVar
  have hsize : a + (Stmt.ifVar v st st').size = a + st.size + st'.size + 3 := by
    rw [Stmt.size]
    omega
  rw [hsize] at hfit hloop ⊢
  have hsmall := hfit.small
  have hcalm (i : Nat) (hi : a ≤ i ∧ i < a + st.size + st'.size + 3) : x.Calm i :=
    hfit.calm i hi.1 hi.2
  -- A name without a variable is either true, as a function, or an error.
  rcases ifVar_cases (surroundings p s) again v st st' x.frames.length σ with
    ⟨b, hb, hres⟩ | ⟨hnone, hdef, hres⟩
  · obtain ⟨m₁, hm₁, w, h₁, hw⟩ := h.loadVar hp.program (hcalm a (by omega)) hload hb
    have htarget : a + st.size + 3 < twoTo 63 := by omega
    obtain ⟨m₂, hm₂, h₂⟩ := h₁.jumpIfFalse hp.program (hcalm (a + 1) (by omega)) htarget htest hw
    rw [hres]
    cases b with
    | true =>
      have hmeets := hs hcode₁ (hfit.mono (by omega) (by omega))
        (fun hl => (hloop hl).mono (by omega) (by omega)) h₂
      rw [show a + 2 + st.size = a + st.size + 2 by omega] at hmeets
      have hjumped := hmeets.jump hp (hcalm _ (by omega)) hsmall hjump
      exact hjumped.after (hm₁.trans hm₂) (Nat.le_add_left _ _)
    | false =>
      have hmeets := ht hcode₂ (hfit.mono (by omega) (by omega))
        (fun hl => (hloop hl).mono (by omega) (by omega)) h₂
      rw [show a + st.size + 3 + st'.size = a + st.size + st'.size + 3 by omega] at hmeets
      exact hmeets.after (hm₁.trans hm₂) (Nat.le_add_left _ _)
  · rw [hres]
    exact .sends (Moves.refl s x.base m)
      (h.loadVar_raises hp.program (hcalm a (by omega)) hload hnone hdef)

section Scopes

variable (hp : Prepared p s)
include hp

theorem agrees_block {st : Stmt p.names.length l}
    (hs : Agrees p s ℓ st (st.execWith (surroundings p s) again)) :
    Agrees p s ℓ (.block st) ((Stmt.block st).execWith (surroundings p s) again) := by
  intro a e dest x σ m hcode hfit hloop h
  obtain ⟨hpush, hcode₁, hpop⟩ := hcode.block
  have hsize : a + (Stmt.block st).size = a + st.size + 2 := rfl
  rw [hsize] at hfit hloop ⊢
  obtain ⟨m₁, hm₁, h₁⟩ := h.pushScope hp.program (hfit.calm a (by omega) (by omega)) hpush
  have hmeets := hs hcode₁ (hfit.mono (by omega) (by omega)).deeper
    (fun hl => (hloop hl).deeper.mono (by omega) (by omega)) h₁
  rw [Stmt.execWith]
  change Meets s x e dest ℓ _ m ((st.execWith _ again x.deeper.frames.length σ.enter).map _)
  generalize st.execWith (surroundings p s) again x.deeper.frames.length σ.enter = r at hmeets ⊢
  refine Meets.after ?_ hm₁ (Nat.le_add_left _ _)
  -- Every way out of the block leaves its scope: the closing instruction does so, and so do the
  -- handlers that unwind.
  cases hmeets with
  | lasting long runs => exact .lasting long runs
  | through moves there =>
    rw [show a + 1 + st.size = a + st.size + 1 by omega] at there
    obtain ⟨m₂, hm₂, h₂⟩ := there.popScope hp.program (hfit.calm _ (by omega) (by omega)) hfit.floor
      hpop
    exact .through (Moves.trans moves hm₂) h₂
  | @sending k o σ' departs =>
    refine .sending (Departs.leaveScope departs hfit fun w sig hsig target d ht => ?_)
    obtain ⟨hfloor, hle, _, hin⟩ := hsig.left_dest hloop target d ht
    omega

theorem agrees_loop {st : Stmt p.names.length true}
    (hagain : Agrees p s ℓ (.loop st : Stmt _ l) (again l (.loop st)))
    (hs : Agrees p s (ℓ + 1) st (st.execWith (surroundings p s) again)) :
    Agrees p s (ℓ + 1) (.loop st : Stmt _ l)
      ((Stmt.loop st).execWith (surroundings p s) again) := by
  intro a e dest x σ m hcode hfit hloop h
  obtain ⟨hpush, hcode₁, hpop, hjump⟩ := hcode.loop
  have hsize : a + (Stmt.loop st : Stmt _ l).size = a + st.size + 3 := rfl
  rw [hsize] at hfit ⊢
  have hsmall := hfit.small
  obtain ⟨m₁, hm₁, h₁⟩ := h.pushScope hp.program (hfit.calm a (by omega) (by omega)) hpush
  -- The body is in a loop of its own, whatever loop is around this one.
  have hin : x.deeper.InLoop ⟨a, a + st.size + 3, 1⟩ x.depth (a + 1) (a + 1 + st.size) :=
    ⟨Nat.lt_succ_self a, by dsimp only; omega, hsmall, Nat.le_refl _, rfl, hfit.floor⟩
  have hmeets := hs hcode₁ (hfit.mono (by omega) (by omega)).deeper (fun _ => hin) h₁
  -- Another round takes a step at least, so it is met for longer.
  have hround {j : Nat} {σ' : State} {m' : Machine} (hm' : Moves s x.base (j + 1) m m')
      (h' : Poised s x σ' [] a m') :
      Meets s x e dest (ℓ + 1) (a + st.size + 3) m (again l (.loop st) x.frames.length σ') :=
    (hagain hcode hfit hloop h').after hm' (by omega)
  rw [Stmt.execWith]
  change Meets s x e dest _ _ m ((st.execWith _ again x.deeper.frames.length σ.enter).bind _)
  generalize st.execWith (surroundings p s) again x.deeper.frames.length σ.enter = r at hmeets ⊢
  cases hmeets with
  | lasting long runs => exact (Meets.lasting long runs).after hm₁ (Nat.le_add_left _ _)
  -- The end of the body goes back to the entry.
  | @through k m' σ' moves there =>
    rw [show a + 1 + st.size = a + st.size + 1 by omega] at there
    obtain ⟨m₂, hm₂, h₂⟩ := there.popScope hp.program (hfit.calm _ (by omega) (by omega)) hfit.floor
      hpop
    obtain ⟨m₃, hm₃, h₃⟩ := h₂.jump hp.program (hfit.calm _ (by omega) (by omega)) (by omega) hjump
    exact hround (((hm₁.trans moves).trans hm₂).trans hm₃) h₃
  | @sending k o σ' departs =>
    cases o with
    | normal => exact departs.not_normal.elim
    | thrown r =>
      have hleave : Departs s x σ'.leave m₁.world (Throws r) _ :=
        Departs.leaveScope departs hfit fun w sig ⟨_, hsig, _⟩ target d ht => by
          cases hsig.symm.trans ht
      exact (Meets.sending (o := .thrown r) hleave).after hm₁ (Nat.le_add_left _ _)
    | returned v =>
      have hleave : Departs s x σ'.leave m₁.world (fun _ sig => sig = .returned v) _ :=
        Departs.leaveScope departs hfit fun w sig hsig target d ht => by
          cases hsig.symm.trans ht
      exact (Meets.sending (o := .returned v) hleave).after hm₁ (Nat.le_add_left _ _)
    -- Both kinds of leave stop at the loop: they go no further than the scopes it was entered with.
    | broken =>
      have hleft : Departs s x.deeper σ' m₁.world
          (fun _ sig => sig = .left (a + st.size + 3 : Nat) x.depth) _ := departs
      obtain ⟨m₂, hrun, hkeeps, h₂⟩ := hleft.toExit hfit (by omega)
      exact .through (hm₁.trans ⟨hrun, hkeeps⟩) h₂
    | continued =>
      have hleft : Departs s x.deeper σ' m₁.world (fun _ sig => sig = .left a x.depth) _ := departs
      obtain ⟨m₂, hrun, hkeeps, h₂⟩ := hleft.toExit hfit (by omega)
      have hback : Moves s x.base (k + 1) m₁ m₂ := ⟨hrun, hkeeps⟩
      exact hround (j := 1 + k) (hm₁.trans hback) h₂

end Scopes

section Calls

variable {x : Spot} {σ σ' : State} {a : Nat} {m m₁ : Machine} {fr : Frame} {w : World} {st : Status}

/-- A return from a call hands its value to the caller. -/
theorem Departs.toCaller {v : Value} (h : Departs s (x.inside m.world.store.scopes.cells.size fr) σ' w
      (fun _ sig => sig = .returned v) st)
    (hm : Poised s x σ [] a m) (hk : Keeps m.world.store.scopes.cells.size m.world w)
    (called : CalledFrom x m.scope (a + 1) fr) (below : ∀ d ∈ x.handlers, d.callDepth ≤ x.frames.length) :
    ∃ m', st = .running m' ∧ Keeps m.world.store.scopes.cells.size w m'.world ∧
      Poised s x { σ' with locals := σ.locals } [v] (a + 1) m' := by
  obtain ⟨m', sig, hlike, hm', hstack, hkeeps, rfl⟩ := h
  have hcleared : Stands s (x.inside m.world.store.scopes.cells.size fr) σ'
      { m' with handlers := x.handlers } :=
    ⟨hm'.frames, hm'.depth, hm'.scopes, hm'.loops, hm'.control, hm'.shows⟩
  obtain ⟨hback, hempty, hworld⟩ := Stands.popFrame hm.shows hm.scopes called hcleared hstack
    (hk.trans hkeeps)
  have hframes : m'.frames = fr :: x.frames := hm'.frames
  have hcarry := Machine.carry_returned (s := s) hframes called.callback
    (fun d hd => by rw [hframes]; exact Nat.lt_succ_of_le (below d hd)) v
  rw [show (x.inside m.world.store.scopes.cells.size fr).handlers = x.handlers from rfl, hcarry,
    called.returnIp] at hlike
  refine ⟨_, hlike.eq_running, ?_, ⟨hback.frames, hback.depth, hback.scopes, hback.loops,
    hback.control, hback.shows⟩, ?_, congrArg (v :: ·) hempty, rfl⟩
  · rw [← hworld] at hkeeps
    exact hkeeps
  · exact Machine.popFrame_handlers { m' with handlers := x.handlers }

/-- An exception out of a call is one at the call. -/
theorem Departs.outOfCall {r : Raised}
    (h : Departs s (x.inside m.world.store.scopes.cells.size fr) σ' w (Throws r) st)
    (hm : Poised s x σ [] a m) (hk : Keeps m.world.store.scopes.cells.size m.world w)
    (called : CalledFrom x m.scope (a + 1) fr)
    (below : ∀ d ∈ x.handlers, d.callDepth ≤ x.frames.length) :
    Departs s x { σ' with locals := σ.locals } w (Throws r) st := by
  obtain ⟨m', sig, hlike, hm', hstack, hkeeps, id, rfl, hcarries⟩ := h
  obtain ⟨hback, hempty, hworld⟩ := Stands.popFrame hm.shows hm.scopes called hm' hstack
    (hk.trans hkeeps)
  have hbelow : ∀ d ∈ x.handlers, d.callDepth < m'.frames.length := fun d hd => by
    rw [hm'.frames]
    exact Nat.lt_succ_of_le (below d hd)
  have hcarry := Machine.carry_popFrame (s := s) id hbelow
  refine ⟨m'.popFrame, .thrown id, hlike.trans hcarry, hback, hempty, ?_, id, rfl, ?_⟩
  · rw [hworld]
    exact hkeeps.mono hm.shows.base_le
  · rwa [hworld]

/-- A function fits inside a call. -/
theorem Spot.Fits.inside {b b' base a' : Nat} {x : Spot} (h : x.Fits a b) (called : fr.scopeDepth = x.depth)
    (small : b' < twoTo 63) : (x.inside base fr).Fits a' b' := by
  have hlen : (x.inside base fr).frames.length = x.frames.length + 1 := rfl
  have hbelow (d : Handler) (hd : d ∈ x.handlers) : d.callDepth < x.frames.length + 1 :=
    Nat.lt_succ_of_le (h.handlers_below d hd)
  have hne (d : Handler) (hd : d ∈ x.handlers.head?) (hc : d.callDepth = x.frames.length + 1) :
      False := by
    have hlt := hbelow d (List.mem_of_mem_head? hd)
    omega
  refine ⟨fun d hd => Or.inl (hbelow d hd), fun i _ _ d hd hc _ => (hne d hd hc).elim,
    fun d hd hc => (hne d hd hc).elim, ?_, small⟩
  exact Nat.succ_le_succ (Nat.le_of_eq called)

/-- A return, written or at the end of a function, gives a value that the caller drops. -/
theorem Meets.returned {e : Exits} {dest k : Nat} {v : Value} (hp : Prepared p s)
    (h : Poised s x σ [] a m) (hfit : x.Fits a (a + 2)) (hpop : p.code[a + 1]? = some (plain .pop))
    (hm : Moves s m.world.store.scopes.cells.size 1 m m₁) (called : CalledFrom x m.scope (a + 1) fr)
    (hsend : Departs s (x.inside m.world.store.scopes.cells.size fr) σ' m₁.world
      (fun _ sig => sig = .returned v) (Machine.runFor s (k + 1) (.running m₁))) :
    Meets s x e dest ℓ (a + 2) m
      (some ((.normal : Outcome l), { σ' with locals := σ.locals })) := by
  obtain ⟨m₂, hrun, hkeeps, h₂⟩ := hsend.toCaller h hm.2 called hfit.handlers_below
  -- What the function did to the scopes above its caller's is nothing that the caller sees.
  have hm₁ := hm.mono h.shows.base_le
  have hm₂ : Moves s x.base (k + 1) m₁ m₂ := ⟨hrun, hkeeps.mono h.shows.base_le⟩
  obtain ⟨m₃, hm₃, h₃⟩ := h₂.pop hp.program (hfit.calm (a + 1) (by omega) (by omega)) hpop
  exact .through ((hm₁.trans hm₂).trans hm₃) h₃

theorem agrees_call (hp : Prepared p s) (f : Fin p.names.length)
    (hbody : Agrees p s ℓ (p.body f) (again false (p.body f))) :
    Agrees p s (ℓ + 1) (.call f : Stmt _ l)
      ((Stmt.call f).execWith (surroundings p s) again) := by
  intro a e dest x σ m hcode hfit hloop h
  obtain ⟨hcall, hpop⟩ := Placed.two hcode
  have hsize : a + (Stmt.call f : Stmt p.names.length l).size = a + 2 := rfl
  rw [hsize] at hfit ⊢
  have hcalm := hfit.calm a (by omega) (by omega)
  rw [Stmt.execWith]
  change Meets s x e dest _ _ m (if s.maxCallDepth ≤ x.frames.length then _ else _)
  -- The depth is checked by the machine just where the meaning checks it.
  by_cases hdeep : s.maxCallDepth ≤ x.frames.length
  · rw [if_pos hdeep]
    exact .sends (Moves.refl s x.base m) (h.call_raises hp.program hp.small hcalm hcall hdeep)
  · rw [if_neg hdeep]
    obtain ⟨m₁, hm₁, fr, called, h₁⟩ :=
      h.call hp.program hp.small hcalm hcall (Nat.lt_of_not_le hdeep)
    obtain ⟨hbodyCode, hnull, hret⟩ := p.placed_body f
    have hlt := (List.getElem?_eq_some_iff.mp hret).1
    have hsmall := hp.small
    -- The handlers around the call belong to other frames, so any code fits inside.
    have hinside (a' b' : Nat) (hb : b' < twoTo 63) :
        (x.inside m.world.store.scopes.cells.size fr).Fits a' b' := hfit.inside called.scopeDepth hb
    have hmeets : Meets s (x.inside _ fr) ⟨0, 0, 0⟩ 0 ℓ (p.entry f + (p.body f).size) m₁
        (again false (p.body f) (x.frames.length + 1) { σ with locals := [[]] }) :=
      hbody hbodyCode (hinside _ _ (by omega)) (fun hl => nomatch hl) h₁
    have hcalm₁ := (hinside (p.entry f) (p.entry f + (p.body f).size + 2) (by omega)).calm
    have hm₁' := hm₁.mono h.shows.base_le
    change Meets s x e dest _ _ m ((again false (p.body f) (x.frames.length + 1) _).bind _)
    generalize again false (p.body f) (x.frames.length + 1) { σ with locals := [[]] } = r at hmeets ⊢
    cases hmeets with
    | lasting long runs =>
      -- The call itself takes a step, so the body need not last as long as the call.
      exact (Meets.lasting (ℓ := ℓ) long runs).after hm₁' (by omega)
    | @through k m₂ σ' moves there =>
      -- Past the end of its statement a function gives null back.
      obtain ⟨m₃, hm₃, h₃⟩ := there.pushNull hp.program (hcalm₁ _ (by omega) (by omega)) hnull
      have hsend := (h₃.ret hp.program (hcalm₁ _ (by omega) (by omega)) hret).arriving
        (moves.trans hm₃)
      exact Meets.returned hp h hfit hpop hm₁ called hsend
    | @sending k o σ' departs =>
      cases o with
      | normal => exact departs.not_normal.elim
      | thrown r =>
        have hout : Departs s x { σ' with locals := σ.locals } m₁.world (Throws r) _ :=
          Departs.outOfCall departs h hm₁.2 called hfit.handlers_below
        exact (Meets.sending (o := .thrown r) hout).after hm₁' (Nat.le_add_left _ _)
      | returned v => exact Meets.returned hp h hfit hpop hm₁ called departs

end Calls

section Protected

variable (hp : Prepared p s)
include hp

omit hp in
theorem Spot.guards_handler (x : Spot) (catchAt finallyAt : Option Nat) (a last : Nat) :
    x.Guards (x.handler catchAt finallyAt a last) a last := ⟨rfl, rfl, rfl, rfl⟩

/-- What comes of the part of a region before its finally block goes through that block. -/
theorem agrees_finally {x : Spot} {e : Exits} {dest f start : Nat} {d : Handler} {m : Machine}
    {u : Stmt p.names.length l} {r : Result l}
    (hu : Agrees p s ℓ u (u.execWith (surroundings p s) again))
    (hcode : Placed p.code f (u.code p.name f e))
    (hend : p.code[f + u.size]? = some (plain .endFinally))
    (hfit : x.Fits start (f + u.size + 1)) (hstart : start < f)
    (hloop : l = true → x.InLoop e dest start (f + u.size + 1)) (hd : x.Guards d start (f + u.size))
    (hfinally : d.finallyAddr = f) (fresh : d.isFinalizing = false)
    (huncaught : ∀ o σ', r = some (o, σ') → ∀ w sig, o.Sends e dest w sig → sig.isCaught d = false)
    (h : Meets s (x.under d) e dest ℓ f m r) :
    Meets s x e dest ℓ (f + u.size + 1) m (r.bind fun r =>
      (u.execWith (surroundings p s) again x.frames.length r.2).map fun r' =>
        (r.1.over r'.1, r'.2)) := by
  -- However the block is entered, its handler is finalizing from then on and what is owed is on it.
  have hblock {d' : Handler} {m' : Machine} {σ' : State} {o : Outcome l}
      (hd' : x.Guards d' start (f + u.size)) (running : d'.isFinalizing = true)
      (owed : o.Owed e dest d' m'.world) (h' : Poised s (x.under d') σ' [] f m') :
      Meets s x e dest ℓ (f + u.size + 1) m'
        ((u.execWith (surroundings p s) again x.frames.length σ').map fun r' =>
          (o.over r'.1, r'.2)) := by
    have hfit' : (x.under d').Fits f (f + u.size) :=
      hfit.under hd' hstart ⟨Nat.le_refl _, Nat.le_succ _⟩ fun i _ _ hfresh => by
        rw [running] at hfresh
        cases hfresh
    exact Meets.finallyBlock hp.program hd' running hloop (Nat.le_succ _) hend owed
      (hu hcode hfit' (fun hl => ((hloop hl).mono (by omega) (by omega)).under d') h')
  cases h with
  | lasting long runs => exact .lasting long runs
  | @through k m' σ' moves there =>
    -- Ordinary flow marks the handler on its way.
    have hlt := (List.getElem?_eq_some_iff.mp hend).1
    have hins := List.getElem?_eq_getElem (l := p.code) (i := f) (by omega)
    exact (Meets.fall hp.program there hd hfinally fresh hins (by omega) fun hmarked =>
      hblock (hd.phase _) rfl (Or.inl ⟨rfl, rfl⟩) hmarked).after moves (Nat.le_add_left _ _)
  | @sending k o σ' departs =>
    -- A signal marks the handler with itself.
    obtain ⟨m', sig, hrun, hkeeps, hsig, h'⟩ := departs.putOff hd (fun m'' sig hm hsig =>
      ⟨hsig.passes hloop hd (Nat.le_succ _) hm, huncaught o σ' rfl _ sig hsig⟩) fresh hfinally
    exact (hblock (hd.phase _) rfl (Or.inr ⟨sig, by cases sig <;> rfl, hsig⟩) h').after
      ⟨hrun, hkeeps⟩ (Nat.le_add_left _ _)

theorem agrees_tryFinally {st u : Stmt p.names.length l}
    (hs : Agrees p s ℓ st (st.execWith (surroundings p s) again))
    (hu : Agrees p s ℓ u (u.execWith (surroundings p s) again)) :
    Agrees p s ℓ (.tryFinally st u) ((Stmt.tryFinally st u).execWith (surroundings p s) again) := by
  intro a e dest x σ m hcode hfit hloop h
  obtain ⟨htry, hcode₁, hcode₂, hend⟩ := hcode.tryFinally
  have hsize : a + (Stmt.tryFinally st u).size = a + st.size + 1 + u.size + 1 := by
    rw [Stmt.size]
    omega
  rw [hsize] at hfit hloop ⊢
  have hsmall := hfit.small
  rw [show a + st.size + u.size + 1 = a + st.size + 1 + u.size by omega] at hend
  have hlast := ends_tryFinally hp.small hcode
  rw [← hp.ends, show a + st.size + u.size + 1 = a + st.size + 1 + u.size by omega] at hlast
  obtain ⟨m₁, hm₁, h₁⟩ := h.tryPush hp.program (hfit.calm a (by omega) (by omega))
    ⟨by simp, by simp; omega⟩ hlast htry
  have hd := x.guards_handler none (some (a + st.size + 1)) a (a + st.size + 1 + u.size)
  have hmeets := hs hcode₁ (hfit.under hd (Nat.lt_succ_self a) (by omega) fun i hi hlt _ => by
    simp only [Spot.handler, Option.elim]
    omega) (fun hl => ((hloop hl).mono (by omega) (by omega)).under _) h₁
  rw [show a + 1 + st.size = a + st.size + 1 by omega] at hmeets
  rw [Stmt.execWith]
  -- There is no catch block that could stop a signal before.
  refine (agrees_finally hp hu hcode₂ hend hfit (by omega) hloop hd rfl rfl
    (fun o σ' _ w sig _ => ?_) hmeets).after hm₁ (Nat.le_add_left _ _)
  cases sig <;> rfl

/-- A catch block drops the exception that it was entered with and runs in the same region. -/
theorem agrees_catch {x : Spot} {e : Exits} {dest b c k start last : Nat} {d : Handler} {m : Machine}
    {σ : State} {r : Raised} {t : Stmt p.names.length l}
    (ht : Agrees p s ℓ t (t.execWith (surroundings p s) again))
    (hpop : p.code[c]? = some (plain .pop)) (hcode : Placed p.code (c + 1) (t.code p.name (c + 1) e))
    (hfit : x.Fits start b) (hin : start < c ∧ c + 1 + t.size ≤ last ∧ last < b)
    (hloop : l = true → x.InLoop e dest start b) (hd : x.Guards d start last)
    (trying : d.phase = .trying) (hcatch : d.catchAddr = c)
    (hfinally : ∀ i, c ≤ i → i < c + 1 + t.size → d.finallyAddr ≠ (i : Int))
    (departs : Departs s (x.under d) σ m.world (Throws r) (Machine.runFor s (k + 1) (.running m))) :
    Meets s (x.under { d with phase := .catching }) e dest ℓ (c + 1 + t.size) m
      (t.execWith (surroundings p s) again x.frames.length σ) := by
  -- The handler stays on the stack while its catch block runs, so the block fits as the protected
  -- part did.
  obtain ⟨m₁, id, hrun, hkeeps, h₁⟩ := departs.caught hd trying hcatch
  have hm₁ : Moves s x.base (k + 1) m m₁ := ⟨hrun, hkeeps⟩
  have hfit' : (x.under { d with phase := .catching }).Fits c (c + 1 + t.size) :=
    hfit.under (hd.phase _) hin.1 ⟨hin.2.1, Nat.le_of_lt hin.2.2⟩ fun i hi hlt _ => hfinally i hi hlt
  obtain ⟨m₂, hm₂, h₂⟩ := h₁.pop hp.program (hfit'.calm c (Nat.le_refl _) (by omega)) hpop
  exact (ht hcode (hfit'.mono (Nat.le_succ _) (Nat.le_refl _))
    (fun hl => ((hloop hl).mono (by omega) (by omega)).under _) h₂).after
      (Moves.trans hm₁ hm₂) (Nat.le_add_left _ _)

omit hp in
/-- Ordinary flow does not come to a finally block that there is none of. -/
theorem calm_of_no_finally {x : Spot} {d : Handler} (hno : d.finallyAddr = -1) (i : Nat) :
    (x.under d).Calm i := by
  intro g hg _ _
  cases hg
  omega

/-- What comes of the part of a region without a finally block, behind the instruction that closes
the region. -/
theorem Meets.closed {x : Spot} {e : Exits} {dest b c start last : Nat} {d : Handler} {m : Machine}
    {r : Result l} (h : Meets s (x.under d) e dest ℓ c m r) (hd : x.Guards d start last)
    (hlast : last ≤ b) (hloop : l = true → x.InLoop e dest start b) (hno : d.finallyAddr = -1)
    (huncaught : ∀ o σ', r = some (o, σ') → ∀ w sig, o.Sends e dest w sig → sig.isCaught d = false)
    (hins : p.code[c]? = some (plain .tryPop)) : Meets s x e dest ℓ (c + 1) m r := by
  cases h with
  | lasting long runs => exact .lasting long runs
  | @through k m₁ σ' moves there =>
    obtain ⟨m₂, hm₂, h₂⟩ := there.tryPop hp.program (calm_of_no_finally hno c) hins
    have hall : Moves s x.base (k + 1) m m₂ := Moves.trans moves hm₂
    exact .through hall h₂
  | @sending k o σ' departs =>
    refine .sending (departs.spent (fun m' sig hm hsig => ?_) fun has => ?_)
    · exact ⟨hsig.passes hloop hd hlast hm, huncaught o σ' rfl _ sig hsig⟩
    · simp [Handler.hasFinally, hno] at has

theorem agrees_tryCatch {st t : Stmt p.names.length l}
    (hs : Agrees p s ℓ st (st.execWith (surroundings p s) again))
    (ht : Agrees p s ℓ t (t.execWith (surroundings p s) again)) :
    Agrees p s ℓ (.tryCatch st t) ((Stmt.tryCatch st t).execWith (surroundings p s) again) := by
  intro a e dest x σ m hcode hfit hloop h
  obtain ⟨htry, hcode₁, htryPop, hjump, hpop, hcode₂, htryPop'⟩ := hcode.tryCatch
  have hsize : a + (Stmt.tryCatch st t).size = a + st.size + t.size + 5 := by
    rw [Stmt.size]
    omega
  rw [hsize] at hfit hloop ⊢
  have hsmall := hfit.small
  have hlast := ends_tryCatch hp.small hcode
  rw [← hp.ends] at hlast
  obtain ⟨m₁, hm₁, h₁⟩ := h.tryPush hp.program (hfit.calm a (by omega) (by omega))
    ⟨by simp; omega, by simp⟩ hlast htry
  have hd := x.guards_handler (some (a + st.size + 3)) none a (a + st.size + t.size + 4)
  have hfit' := hfit.under (b := a + 1 + st.size) hd (Nat.lt_succ_self a) (by omega) fun i _ _ _ => by
    simp only [Spot.handler, Option.elim]
    omega
  have hmeets : Meets s (x.under _) e dest ℓ (a + 1 + st.size) m₁
      (st.execWith (surroundings p s) again x.frames.length σ) :=
    hs hcode₁ hfit' (fun hl => ((hloop hl).mono (by omega) (by omega)).under _) h₁
  rw [show a + 1 + st.size = a + st.size + 1 by omega] at hmeets
  rw [Stmt.execWith]
  generalize st.execWith (surroundings p s) again x.frames.length σ = r at hmeets ⊢
  refine Meets.after ?_ hm₁ (Nat.le_add_left _ _)
  -- Without an exception the protected part goes on behind the catch block.
  have hpast (huncaught : ∀ o σ', r = some (o, σ') → ∀ w sig, o.Sends e dest w sig →
      sig.isCaught (x.handler (some (a + st.size + 3)) none a (a + st.size + t.size + 4)) = false) :
      Meets s x e dest ℓ (a + st.size + t.size + 5) m₁ r :=
    (hmeets.closed hp hd (by omega) hloop rfl huncaught htryPop).jump hp
      (hfit.calm _ (by omega) (by omega)) hsmall hjump
  rcases r with _ | ⟨o, σ'⟩
  · exact hpast fun o σ' hr => by cases hr
  · cases o with
    | thrown ex =>
      cases hmeets with
      | sending departs =>
        have hcaught := agrees_catch hp ht hpop hcode₂ hfit (by omega) hloop hd rfl rfl
          (fun i _ _ => by simp only [Spot.handler, Option.elim]; omega) departs
        rw [show a + st.size + 3 + 1 + t.size = a + st.size + t.size + 4 by omega] at hcaught
        exact hcaught.closed hp (hd.phase _) (by omega) hloop rfl
          (fun o σ'' _ w sig _ => by cases sig <;> rfl) htryPop'
    | normal | returned | broken | continued =>
      refine hpast fun o σ'' hr w sig hsig => ?_
      cases hr
      cases hsig <;> rfl

theorem agrees_tryCatchFinally {st t u : Stmt p.names.length l}
    (hs : Agrees p s ℓ st (st.execWith (surroundings p s) again))
    (ht : Agrees p s ℓ t (t.execWith (surroundings p s) again))
    (hu : Agrees p s ℓ u (u.execWith (surroundings p s) again)) :
    Agrees p s ℓ (.tryCatchFinally st t u)
      ((Stmt.tryCatchFinally st t u).execWith (surroundings p s) again) := by
  intro a e dest x σ m hcode hfit hloop h
  obtain ⟨htry, hcode₁, hjump, hpop, hcode₂, hcode₃, hend⟩ := hcode.tryCatchFinally
  have hsize : a + (Stmt.tryCatchFinally st t u).size = a + st.size + t.size + 3 + u.size + 1 := by
    rw [Stmt.size]
    omega
  rw [hsize] at hfit hloop ⊢
  have hsmall := hfit.small
  rw [show a + st.size + t.size + u.size + 3 = a + st.size + t.size + 3 + u.size by omega] at hend
  have hlast := ends_tryCatchFinally hp.small hcode
  rw [← hp.ends,
    show a + st.size + t.size + u.size + 3 = a + st.size + t.size + 3 + u.size by omega] at hlast
  obtain ⟨m₁, hm₁, h₁⟩ := h.tryPush hp.program (hfit.calm a (by omega) (by omega))
    ⟨by simp; omega, by simp; omega⟩ hlast htry
  have hd := x.guards_handler (some (a + st.size + 2)) (some (a + st.size + t.size + 3)) a
    (a + st.size + t.size + 3 + u.size)
  have hfit' := hfit.under (b := a + st.size + 2) hd (Nat.lt_succ_self a) (by omega) fun i hi hlt _ => by
    simp only [Spot.handler, Option.elim]
    omega
  have hmeets : Meets s (x.under _) e dest ℓ (a + 1 + st.size) m₁
      (st.execWith (surroundings p s) again x.frames.length σ) :=
    hs hcode₁ (hfit'.mono (Nat.le_refl _) (by omega))
      (fun hl => ((hloop hl).mono (by omega) (by omega)).under _) h₁
  rw [show a + 1 + st.size = a + st.size + 1 by omega] at hmeets
  rw [Stmt.execWith]
  generalize st.execWith (surroundings p s) again x.frames.length σ = r at hmeets ⊢
  refine Meets.after ?_ hm₁ (Nat.le_add_left _ _)
  -- Without an exception the protected part goes on with the finally block.
  have htarget : a + st.size + t.size + 3 < twoTo 63 := by omega
  have hpast := hmeets.jump hp (hfit'.calm _ (by omega) (by omega)) htarget hjump
  rcases r with _ | ⟨o, σ'⟩
  · exact agrees_finally hp hu hcode₃ hend hfit (by omega) hloop hd rfl rfl
      (fun o σ' hr => by cases hr) hpast
  · cases o with
    | thrown ex =>
      cases hmeets with
      | sending departs =>
        have hcaught := agrees_catch hp ht hpop hcode₂ hfit (by omega) hloop hd rfl rfl
          (fun i _ hlt => by simp only [Spot.handler, Option.elim]; omega) departs
        rw [show a + st.size + 2 + 1 + t.size = a + st.size + t.size + 3 by omega] at hcaught
        exact agrees_finally hp hu hcode₃ hend hfit (by omega) hloop (hd.phase _) rfl rfl
          (fun o σ'' _ w sig _ => by cases sig <;> rfl) hcaught
    | normal | returned | broken | continued =>
      refine agrees_finally hp hu hcode₃ hend hfit (by omega) hloop hd rfl rfl
        (fun o σ'' hr w sig hsig => ?_) hpast
      cases hr
      cases hsig <;> rfl

end Protected

section Whole

variable (hp : Prepared p s)
include hp

/-- One statement, by its parts. -/
theorem agrees_execWith (hagain : ∀ l st, Agrees p s ℓ st (again l st)) (st : Stmt p.names.length l) :
    Agrees p s (ℓ + 1) st (st.execWith (surroundings p s) again) := by
  induction st with
  | skip =>
    intro a e dest x σ m _ _ _ h
    exact .through (Moves.refl s x.base m) h
  | seq st st' hs ht => exact agrees_seq hs ht
  | print c => exact agrees_print hp c
  | declare v c => exact agrees_declare hp v c
  | assign v c => exact agrees_assign hp v c
  | ifVar v st st' hs ht => exact agrees_ifVar hp v hs ht
  | throw c => exact agrees_throw hp c
  | ret c => exact agrees_ret hp c
  | call f => exact agrees_call hp f (hagain false (p.body f))
  | block st hs => exact agrees_block hp hs
  | @loop l st hs => exact agrees_loop hp (hagain l (.loop st)) hs
  | breakLoop => exact agrees_breakLoop hp
  | continueLoop => exact agrees_continueLoop hp
  | tryCatch st t hs ht => exact agrees_tryCatch hp hs ht
  | tryFinally st u hs hu => exact agrees_tryFinally hp hs hu
  | tryCatchFinally st t u hs ht hu => exact agrees_tryCatchFinally hp hs ht hu

/-- Every statement, for as many rounds and calls as the clock allows. -/
theorem agrees_exec (clock : Nat) (l : Bool) (st : Stmt p.names.length l) :
    Agrees p s (clock + 1) st (Stmt.exec (surroundings p s) clock l st) := by
  -- On the clock: with none left a statement that would go round or call lasts for no time.
  induction clock generalizing l with
  | zero =>
    refine agrees_execWith hp (fun l st => ?_) st
    intro a e dest x σ m _ _ _ _
    exact .lasting (Nat.le_refl 0) rfl
  | succ clock ih => exact agrees_execWith hp ih st

end Whole

end BytecodeMachine.Structured
