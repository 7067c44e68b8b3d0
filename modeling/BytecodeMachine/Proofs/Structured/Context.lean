import BytecodeMachine.Proofs.Structured.Instructions

/-! Where a statement stands among handlers, scopes and loops, and what it may make of a run. -/
namespace BytecodeMachine.Structured

variable {p : Source} {s : Setup} {x : Spot} {σ : State} {a b : Nat} {m : Machine} {e : Exits}
  {dest ℓ : Nat} {l : Bool}

/-- A statement from address `a` up to `b` is within the region of the innermost handler of its frame,
and ordinary flow through it does not come to the finally block of that handler. -/
structure Spot.Fits (x : Spot) (a b : Nat) : Prop where
  below : ∀ h ∈ x.handlers, h.callDepth < x.frames.length ∨
    h.callDepth = x.frames.length ∧ h.scopeDepth ≤ x.depth
  calm : ∀ i, a ≤ i → i < b → x.Calm i
  around : ∀ h ∈ x.handlers.head?, h.callDepth = x.frames.length →
    h.tryAddr < (a : Int) ∧ (b : Int) ≤ h.endAddr
  floor : floorOf x.frames ≤ x.depth
  small : b < twoTo 63

/-- A statement from address `a` up to `b` is in a loop that was entered with `dest` scopes. -/
structure Spot.InLoop (x : Spot) (e : Exits) (dest a b : Nat) : Prop where
  top : e.top < a
  out : b < e.out
  small : e.out < twoTo 63
  opened : e.top + e.scopes ≤ a
  depth : dest + e.scopes = x.depth
  floor : floorOf x.frames ≤ dest

/-- A handler is that of a region at a spot that spans the addresses from `start` to `last`. -/
structure Spot.Guards (x : Spot) (d : Handler) (start last : Nat) : Prop where
  callDepth : d.callDepth = x.frames.length
  scopeDepth : d.scopeDepth = x.depth
  tryAddr : d.tryAddr = start
  endAddr : d.endAddr = last

section Places

theorem Spot.Fits.mono {a' b' : Nat} (h : x.Fits a b) (ha : a ≤ a') (hb : b' ≤ b) :
    x.Fits a' b' := by
  refine ⟨h.below, fun i hi hlt => h.calm i (by omega) (by omega), fun d hd hc => ?_, h.floor, ?_⟩
  · obtain ⟨htry, hend⟩ := h.around d hd hc
    omega
  · have hsmall := h.small
    omega

theorem Spot.Fits.deeper (h : x.Fits a b) : x.deeper.Fits a b := by
  have hfloor := h.floor
  refine ⟨fun d hd => ?_, h.calm, h.around, Nat.le_succ_of_le hfloor, h.small⟩
  rcases h.below d hd with hlt | ⟨heq, hle⟩
  · exact Or.inl hlt
  · exact Or.inr ⟨heq, Nat.le_succ_of_le hle⟩

/-- A part of a statement that is in the region of a handler of its own. -/
theorem Spot.Fits.under {d : Handler} {a₀ b₀ start last : Nat} (h : x.Fits a₀ b₀)
    (hd : x.Guards d start last) (hstart : start < a) (hb : b ≤ last ∧ last ≤ b₀)
    (hcalm : ∀ i, a ≤ i → i < b → d.isFinalizing = false → d.finallyAddr ≠ (i : Int)) :
    (x.under d).Fits a b := by
  have hsmall := h.small
  -- The new handler is the innermost one now, so the last three points are about it alone.
  refine ⟨fun g hg => ?_, fun i hi hlt g hg _ hfresh => ?_, fun g hg _ => ?_, h.floor, by omega⟩
  · rcases List.mem_cons.mp hg with rfl | hg
    · exact Or.inr ⟨hd.callDepth, Nat.le_of_eq hd.scopeDepth⟩
    · exact h.below g hg
  · cases hg
    exact hcalm i hi hlt hfresh
  · cases hg
    rw [hd.tryAddr, hd.endAddr]
    omega

theorem Spot.Fits.handlers_outside (h : x.Fits a b) (hm : Stands s x.deeper σ m) :
    ∀ d ∈ x.handlers, m.Outside d := by
  intro d hd
  have hframes : m.frames = x.frames := hm.frames
  have hdepth : m.scopeDepth = x.depth + 1 := hm.depth
  unfold Machine.Outside
  rw [hframes, hdepth]
  rcases h.below d hd with hlt | ⟨heq, hle⟩
  · exact Or.inl hlt
  · exact Or.inr ⟨heq, Nat.lt_succ_of_le hle⟩

theorem Spot.Fits.handlers_below (h : x.Fits a b) : ∀ d ∈ x.handlers, d.callDepth ≤ x.frames.length := by
  intro d hd
  rcases h.below d hd with hlt | ⟨heq, _⟩
  · exact Nat.le_of_lt hlt
  · exact Nat.le_of_eq heq

theorem Spot.InLoop.mono {a' b' : Nat} (h : x.InLoop e dest a b) (ha : a ≤ a') (hb : b' ≤ b) :
    x.InLoop e dest a' b' := by
  obtain ⟨htop, hout, hsmall, hopened, hdepth, hfloor⟩ := h
  exact ⟨by omega, by omega, hsmall, by omega, hdepth, hfloor⟩

theorem Spot.InLoop.deeper (h : x.InLoop e dest a b) : x.deeper.InLoop e.deeper dest (a + 1) b := by
  obtain ⟨htop, hout, hsmall, hopened, hdepth, hfloor⟩ := h
  have hscopes : e.deeper.scopes = e.scopes + 1 := rfl
  have hdeep : x.deeper.depth = x.depth + 1 := rfl
  exact ⟨Nat.lt_succ_of_lt htop, hout, hsmall, by rw [hscopes]; exact Nat.succ_le_succ hopened,
    by omega, hfloor⟩

theorem Spot.InLoop.under (h : x.InLoop e dest a b) (d : Handler) : (x.under d).InLoop e dest a b :=
  ⟨h.top, h.out, h.small, h.opened, h.depth, h.floor⟩

end Places

/-- The signals by which a statement ends other than by going on. -/
def Outcome.Sends (e : Exits) (dest : Nat) : {l : Bool} → Outcome l → World → Signal → Prop
  | _, .normal, _, _ => False
  | _, .thrown r, w, sig => Throws r w sig
  | _, .returned v, _, sig => sig = .returned v
  | _, .broken, _, sig => sig = .left e.out dest
  | _, .continued, _, sig => sig = .left e.top dest

/-- What a run comes to that starts with a statement: it lasts for some steps, gets through the
statement, or sends a signal to the handlers. -/
inductive Meets (s : Setup) (x : Spot) (e : Exits) (dest ℓ b : Nat) (m : Machine) {l : Bool} :
    Result l → Prop
  | lasting {k : Nat} {m' : Machine} (long : ℓ ≤ k)
    (runs : Machine.runFor s k (.running m) = .running m') : Meets s x e dest ℓ b m none
  | through {k : Nat} {m' : Machine} {σ : State} (moves : Moves s x.base k m m')
    (there : Poised s x σ [] b m') : Meets s x e dest ℓ b m (some (.normal, σ))
  | sending {k : Nat} {o : Outcome l} {σ : State}
    (departs : Departs s x σ m.world (o.Sends e dest) (Machine.runFor s (k + 1) (.running m))) :
    Meets s x e dest ℓ b m (some (o, σ))

section Signals

variable {o : Outcome l} {w w' : World} {sig : Signal}

theorem Outcome.Sends.keep (h : o.Sends e dest w sig) {base : Nat} (hk : Keeps base w w') :
    o.Sends e dest w' sig := by
  cases o with
  | normal => exact h
  | thrown r =>
    obtain ⟨id, hsig, hcarries⟩ := h
    exact ⟨id, hsig, hcarries.keep hk⟩
  | returned v => exact h
  | broken => exact h
  | continued => exact h

theorem Outcome.Sends.over_eq (h : o.Sends e dest w sig) (before : Outcome l) :
    before.over o = o := by
  cases o with
  | normal => exact h.elim
  | thrown | returned | broken | continued => rfl

/-- Leaves come from inside a loop and go no further than its entry. -/
theorem Outcome.Sends.left_dest (h : o.Sends e dest w sig)
    (hloop : l = true → x.InLoop e dest a b) :
    ∀ target d, sig = .left target d →
      (floorOf x.frames : Int) ≤ d ∧ d ≤ (x.depth : Int) ∧ (target = e.top ∨ target = e.out) ∧
        x.InLoop e dest a b := by
  intro target d hsig
  -- Only the two leaves are leaves; the other outcomes send other signals.
  subst hsig
  cases o with
  | normal => exact h.elim
  | thrown r =>
    obtain ⟨id, hsig, _⟩ := h
    cases hsig
  | returned v => cases h
  | broken =>
    cases h
    have hin := hloop rfl
    have hdepth := hin.depth
    have hfloor := hin.floor
    exact ⟨by omega, by omega, Or.inr rfl, hin⟩
  | continued =>
    cases h
    have hin := hloop rfl
    have hdepth := hin.depth
    have hfloor := hin.floor
    exact ⟨by omega, by omega, Or.inl rfl, hin⟩

/-- The signal of a statement leaves the region that the statement is. -/
theorem Outcome.Sends.passes (h : o.Sends e dest w sig) (hloop : l = true → x.InLoop e dest a b)
    {d : Handler} {last : Nat} (hd : x.Guards d a last) (hlast : last ≤ b) (hm : m.frames = x.frames) :
    sig.Passes d m := by
  have hcall : d.callDepth = m.frames.length := by rw [hm, hd.callDepth]
  cases sig with
  | thrown id => trivial
  | returned v => exact hcall
  | left target t =>
    obtain ⟨_, hle, htarget, hin⟩ := h.left_dest hloop target t rfl
    have htop := hin.top
    have hout := hin.out
    refine ⟨hcall, by rwa [hd.scopeDepth], ?_⟩
    unfold Handler.covers
    rw [hd.tryAddr, hd.endAddr]
    -- The entry of the loop is before the region and the exit behind it.
    rcases htarget with rfl | rfl <;> simp <;> omega

end Signals

section Runs

variable {r : Result l}

theorem Departs.since {P : World → Signal → Prop} {st : Status} {w w' : World}
    (h : Departs s x σ w P st) (hk : Keeps x.base w' w) : Departs s x σ w' P st := by
  obtain ⟨m', sig, hlike, hstands, hstack, hkeeps, hsig⟩ := h
  exact ⟨m', sig, hlike, hstands, hstack, hk.trans hkeeps, hsig⟩

/-- A run that arrives at an instruction which sends a signal. -/
theorem Departs.arriving {P : World → Signal → Prop} {m₀ : Machine} {j : Nat}
    (h : Departs s x σ m.world P (m.advance s)) (hm : Moves s x.base j m₀ m) :
    Departs s x σ m₀.world P (Machine.runFor s (j + 1) (.running m₀)) := by
  rw [Machine.runFor_add, hm.1]
  exact h.since hm.2

/-- What comes before a statement only makes a run longer. -/
theorem Meets.after {m₀ : Machine} {j ℓ' : Nat} (h : Meets s x e dest ℓ b m r)
    (hm : Moves s x.base j m₀ m) (hℓ : ℓ' ≤ j + ℓ) : Meets s x e dest ℓ' b m₀ r := by
  have hrun (k : Nat) : Machine.runFor s (j + k) (.running m₀) = Machine.runFor s k (.running m) := by
    rw [Machine.runFor_add, hm.1]
  cases h with
  | lasting long runs => exact .lasting (by omega) ((hrun _).trans runs)
  | through moves there => exact .through (hm.trans moves) there
  | sending departs => exact .sending ((hrun _).symm ▸ departs.since hm.2)

/-- A signal passes a handler that has nothing left to run. -/
theorem Departs.spent {d : Handler} {P : World → Signal → Prop} {st : Status} {w : World}
    (h : Departs s (x.under d) σ w P st)
    (passes : ∀ m' sig, m'.frames = x.frames → P m'.world sig →
      sig.Passes d m' ∧ sig.isCaught d = false)
    (through : d.hasFinally = true → d.isFinalizing = true) : Departs s x σ w P st := by
  obtain ⟨m', sig, hlike, hstands, hstack, hkeeps, hsig⟩ := h
  obtain ⟨hpass, huncaught⟩ := passes m' sig hstands.frames hsig
  have hcarry : Machine.carry s m' (x.under d).handlers sig = Machine.carry s m' x.handlers sig :=
    Machine.carry_cons_spent hpass huncaught through
  rw [hcarry] at hlike
  exact ⟨m', sig, hlike, ⟨hstands.frames, hstands.depth, hstands.scopes, hstands.loops,
    hstands.control, hstands.shows⟩, hstack, hkeeps, hsig⟩

/-- A signal leaves a scope. -/
theorem Departs.leaveScope {P : World → Signal → Prop} {st : Status} {w : World}
    (h : Departs s x.deeper σ w P st) (hfit : x.Fits a b)
    (hdest : ∀ w sig, P w sig → ∀ target d, sig = .left target d → 0 ≤ d ∧ d ≤ (x.depth : Int)) :
    Departs s x σ.leave w P st := by
  obtain ⟨m', sig, hlike, hstands, hstack, hkeeps, hsig⟩ := h
  have hdepth : m'.scopeDepth = x.depth + 1 := hstands.depth
  -- All handlers are outside the scope, so whether it is left first makes no difference.
  have hcarry := Machine.carry_leaveScope (s := s) hstands.loops (hfit.handlers_outside hstands) sig
    fun target d ht => by
      obtain ⟨hnonneg, hle⟩ := hdest _ _ hsig target d ht
      omega
  exact ⟨m'.leaveScope, sig, hlike.trans hcarry, hstands.leaveScope hfit.floor, hstack, hkeeps, hsig⟩

/-- A leave to an exit of a loop from the scope that the loop has opened. -/
theorem Departs.toExit {st : Status} {w : World} {target : Nat}
    (h : Departs s x.deeper σ w (fun _ sig => sig = .left target x.depth) st) (hfit : x.Fits a b)
    (htarget : a ≤ target ∧ target ≤ b) :
    ∃ m', st = .running m' ∧ Keeps x.base w m'.world ∧ Poised s x σ.leave [] target m' := by
  have hleave := h.leaveScope hfit fun w sig hsig target d ht => by
    cases hsig.symm.trans ht
    omega
  obtain ⟨m', sig, hlike, hm, hstack, hkeeps, rfl⟩ := hleave
  -- The innermost handler of the frame covers both exits, so it does not stop the leave.
  have hcarry : Machine.carry s m' x.handlers (.left target x.depth) =
      .running { m' with handlers := x.handlers, ip := target } := by
    rw [← hm.depth]
    refine Machine.carry_left fun d hd hcall => ?_
    obtain ⟨htry, hend⟩ := hfit.around d hd (hcall.trans (congrArg List.length hm.frames))
    simp only [Handler.covers, Bool.and_eq_true, decide_eq_true_eq]
    omega
  rw [hcarry] at hlike
  exact ⟨_, hlike.eq_running, hkeeps,
    ⟨hm.frames, hm.depth, hm.scopes, hm.loops, hm.control, hm.shows⟩, rfl, hstack, rfl⟩

end Runs

end BytecodeMachine.Structured
