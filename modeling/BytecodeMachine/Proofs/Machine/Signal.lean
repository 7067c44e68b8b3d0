import BytecodeMachine.Proofs.Machine.Steps

/-! Exceptions, returns and leaves as one kind of signal that handlers stop or let pass. Where a signal
comes to depends on the machine it starts from only as far as the scopes and frames that handlers
unwind to, so a signal out of a scope or a call is one that starts outside of it. -/
namespace BytecodeMachine

/-- A transfer of control on its way outwards, outside all native loops. -/
inductive Signal where
  | thrown (id : Nat)
  | returned (v : Value)
  | left (target dest : Int)

/-- What a handler that puts a signal off records. -/
def Signal.pending (h : Handler) : Signal → Pending
  | .thrown id => .exception id
  | .returned v => .giveBack v
  | .left target dest => .leave target ((h.scopeDepth : Int) - dest)

/-- Whether a signal takes a machine out of the region of a handler. -/
def Signal.Passes (h : Handler) (m : Machine) : Signal → Prop
  | .thrown _ => True
  | .returned _ => h.callDepth = m.frames.length
  | .left target dest =>
    h.callDepth = m.frames.length ∧ dest ≤ (h.scopeDepth : Int) ∧ h.covers target = false

/-- Whether a handler takes a signal into its catch block. -/
def Signal.isCaught (h : Handler) : Signal → Bool
  | .thrown _ => h.phase = .trying && h.hasCatch
  | _ => false

/-- Equal, up to what is left of a machine whose run has ended. -/
def Status.Like : Status → Status → Prop
  | .running m, .running m' => m = m'
  | .ended e m, .ended e' m' => e = e' ∧ m.world = m'.world
  | _, _ => False

theorem Status.Like.refl (st : Status) : st.Like st := by
  cases st with
  | running m => exact rfl
  | ended e m => exact ⟨rfl, rfl⟩

theorem Status.Like.trans {st st' st'' : Status} (h : st.Like st') (h' : st'.Like st'') :
    st.Like st'' := by
  cases st <;> cases st' <;> cases st'' <;> try trivial
  · exact Eq.trans h h'
  · exact ⟨h.1.trans h'.1, h.2.trans h'.2⟩

theorem Status.Like.eq_running {st : Status} {m : Machine} (h : st.Like (.running m)) :
    st = .running m := by
  cases st with
  | running m' => exact congrArg Status.running h
  | ended => exact h.elim

namespace Machine

variable (s : Setup)

/-- Where a signal comes to that starts from a machine and meets handlers from the top down. -/
def carry (m : Machine) (handlers : List Handler) : Signal → Status
  | .thrown id =>
    match m.throwTo id 0 handlers with
    | .handled m => .running { m with control := .fetch, loops := [] }
    | .escaped m => .ended (.exception id) { m with loops := [] }
  | .returned v =>
    match m.returnThrough v handlers with
    | .inl m => .running m
    | .inr m => settle s (m.returnFrom v)
  | .left target dest =>
    match m.leaveThrough target dest handlers with
    | .inl m => .running m
    | .inr m => .running { m.leaveScopesTo dest with ip := target }

variable {s}

theorem popFrames_world (n : Nat) (m : Machine) : (popFrames n m).world = m.world := by
  induction n generalizing m with
  | zero => rfl
  | succ n ih =>
    rw [popFrames, ih]
    unfold popFrame
    split <;> rfl

theorem popFrame_leaveScope {m : Machine} (has : m.frames ≠ []) :
    m.leaveScope.popFrame = m.popFrame := by
  obtain ⟨f, fs, hf⟩ := List.exists_cons_of_ne_nil has
  have hf' : m.leaveScope.frames = f :: fs := hf
  unfold popFrame
  rw [hf, hf']
  rfl

/-- A handler lies outside the innermost scope of a machine. -/
def Outside (m : Machine) (h : Handler) : Prop :=
  h.callDepth < m.frames.length ∨ h.callDepth = m.frames.length ∧ h.scopeDepth < m.scopeDepth

theorem unwindTo_leaveScope {m : Machine} {h : Handler} (out : m.Outside h) :
    m.leaveScope.unwindTo h = m.unwindTo h := by
  have hframes : m.leaveScope.frames = m.frames := rfl
  have hdepth : m.leaveScope.scopeDepth = m.scopeDepth - 1 := rfl
  unfold unwindTo
  dsimp only
  rw [hframes]
  rcases out with hlt | ⟨heq, hlt⟩
  · obtain ⟨k, hk⟩ : ∃ k, m.frames.length - h.callDepth = k + 1 :=
      ⟨m.frames.length - h.callDepth - 1, by omega⟩
    have has : m.frames ≠ [] := List.length_pos_iff.mp (by omega)
    rw [hk, popFrames, popFrames, popFrame_leaveScope has]
  · have hzero : m.frames.length - h.callDepth = 0 := by omega
    obtain ⟨k, hk⟩ : ∃ k, ((m.scopeDepth : Int) - h.scopeDepth).toNat = k + 1 :=
      ⟨m.scopeDepth - h.scopeDepth - 1, by omega⟩
    have hk' : ((m.leaveScope.scopeDepth : Int) - h.scopeDepth).toNat = k := by omega
    rw [hzero, popFrames, popFrames, leaveScopesTo, leaveScopesTo, hk, hk', leaveScopes]

theorem unwindTo_popFrame {m : Machine} {h : Handler} (below : h.callDepth < m.frames.length) :
    m.popFrame.unwindTo h = m.unwindTo h := by
  have hlen : m.popFrame.frames.length = m.frames.length - 1 := by
    rw [popFrame_frames, List.length_tail]
  obtain ⟨k, hk⟩ : ∃ k, m.frames.length - h.callDepth = k + 1 :=
    ⟨m.frames.length - h.callDepth - 1, by omega⟩
  have hk' : m.popFrame.frames.length - h.callDepth = k := by omega
  unfold unwindTo
  dsimp only
  rw [hk, hk', popFrames]

/-- An exception goes the same way from machines that unwind alike. -/
theorem carry_thrown_like {m m' : Machine} {handlers : List Handler} (id : Nat)
    (hu : ∀ h ∈ handlers, m'.unwindTo h = m.unwindTo h) (hw : m'.world = m.world) :
    (carry s m handlers (.thrown id)).Like (carry s m' handlers (.thrown id)) := by
  induction handlers with
  | nil =>
    refine ⟨rfl, ?_⟩
    change (popFrames _ _).world = (popFrames _ _).world
    rw [popFrames_world, popFrames_world]
    exact hw.symm
  | cons h rest ih =>
    have hone := hu h List.mem_cons_self
    have hrest := ih fun d hd => hu d (List.mem_cons_of_mem h hd)
    unfold carry at hrest ⊢
    dsimp only at hrest ⊢
    unfold throwTo
    rw [if_neg (Nat.not_lt_zero _), if_neg (Nat.not_lt_zero _)]
    unfold enterCatch enterFinally
    rw [hone]
    by_cases hc : (decide (h.phase = .trying) && h.hasCatch) = true
    · rw [if_pos hc, if_pos hc]
      exact rfl
    · rw [if_neg hc, if_neg hc]
      by_cases hf : (!h.isFinalizing && h.hasFinally) = true
      · rw [if_pos hf, if_pos hf]
        exact rfl
      · rw [if_neg hf, if_neg hf]
        exact hrest

/-- A return passes a scope without a look at it. -/
theorem returnThrough_leaveScope {m : Machine} {handlers : List Handler} (v : Value)
    (out : ∀ h ∈ handlers, m.Outside h) :
    (∃ x, m.returnThrough v handlers = .inl x ∧ m.leaveScope.returnThrough v handlers = .inl x) ∨
      ∃ rest, m.returnThrough v handlers = .inr { m with handlers := rest } ∧
        m.leaveScope.returnThrough v handlers = .inr { m.leaveScope with handlers := rest } := by
  induction handlers with
  | nil => exact Or.inr ⟨[], rfl, rfl⟩
  | cons h rest ih =>
    have hframes : m.leaveScope.frames = m.frames := rfl
    rw [returnThrough, returnThrough, hframes]
    by_cases hd : h.callDepth ≠ m.frames.length
    · rw [if_pos hd, if_pos hd]
      exact Or.inr ⟨h :: rest, rfl, rfl⟩
    · rw [if_neg hd, if_neg hd]
      by_cases hf : (h.hasFinally && !h.isFinalizing) = true
      · rw [if_pos hf, if_pos hf]
        refine Or.inl ⟨_, rfl, ?_⟩
        unfold enterFinally
        rw [unwindTo_leaveScope (out h List.mem_cons_self)]
      · rw [if_neg hf, if_neg hf]
        exact ih fun d hd => out d (List.mem_cons_of_mem h hd)

theorem leaveThrough_leaveScope {m : Machine} {handlers : List Handler} (target dest : Int)
    (out : ∀ h ∈ handlers, m.Outside h) :
    (∃ x, m.leaveThrough target dest handlers = .inl x ∧
        m.leaveScope.leaveThrough target dest handlers = .inl x) ∨
      ∃ rest, m.leaveThrough target dest handlers = .inr { m with handlers := rest } ∧
        m.leaveScope.leaveThrough target dest handlers =
          .inr { m.leaveScope with handlers := rest } := by
  induction handlers with
  | nil => exact Or.inr ⟨[], rfl, rfl⟩
  | cons h rest ih =>
    have hframes : m.leaveScope.frames = m.frames := rfl
    rw [leaveThrough, leaveThrough, hframes]
    by_cases hd : (h.callDepth = m.frames.length && dest ≤ (h.scopeDepth : Int) &&
        !h.covers target) = true
    · rw [if_pos hd, if_pos hd]
      by_cases hf : (h.hasFinally && !h.isFinalizing) = true
      · rw [if_pos hf, if_pos hf]
        refine Or.inl ⟨_, rfl, ?_⟩
        unfold enterFinally
        rw [unwindTo_leaveScope (out h List.mem_cons_self)]
      · rw [if_neg hf, if_neg hf]
        exact ih fun d hd => out d (List.mem_cons_of_mem h hd)
    · rw [if_neg hd, if_neg hd]
      exact Or.inr ⟨h :: rest, rfl, rfl⟩

theorem returnFrom_leaveScope {m : Machine} (loops : m.loops = []) (v : Value) :
    (settle s (m.returnFrom v)).Like (settle s (m.leaveScope.returnFrom v)) := by
  have hframes : m.leaveScope.frames = m.frames := rfl
  have hloops : m.leaveScope.loops = m.loops := rfl
  unfold returnFrom
  rw [hframes]
  cases hf : m.frames with
  | nil =>
    dsimp only [settle]
    rw [hloops, loops]
    exact ⟨rfl, rfl⟩
  | cons f fs =>
    dsimp only
    rw [popFrame_leaveScope (by simp [hf])]
    exact Status.Like.refl _

/-- A signal out of a scope is one that starts outside of it. -/
theorem carry_leaveScope {m : Machine} {handlers : List Handler} (loops : m.loops = [])
    (out : ∀ h ∈ handlers, m.Outside h) (sig : Signal)
    (hdest : ∀ target dest, sig = .left target dest → 0 ≤ dest ∧ dest < (m.scopeDepth : Int)) :
    (carry s m handlers sig).Like (carry s m.leaveScope handlers sig) := by
  cases sig with
  | thrown id => exact carry_thrown_like id (fun h hh => unwindTo_leaveScope (out h hh)) rfl
  | returned v =>
    unfold carry
    dsimp only
    obtain ⟨x, hx, hx'⟩ | ⟨rest, hx, hx'⟩ := returnThrough_leaveScope v out
    · rw [hx, hx']
      exact rfl
    · rw [hx, hx']
      exact returnFrom_leaveScope (m := { m with handlers := rest }) loops v
  | left target dest =>
    obtain ⟨hnonneg, hlt⟩ := hdest target dest rfl
    unfold carry
    dsimp only
    obtain ⟨x, hx, hx'⟩ | ⟨rest, hx, hx'⟩ := leaveThrough_leaveScope target dest out
    · rw [hx, hx']
      exact rfl
    · rw [hx, hx']
      obtain ⟨k, hk⟩ : ∃ k, ((m.scopeDepth : Int) - dest).toNat = k + 1 :=
        ⟨((m.scopeDepth : Int) - dest).toNat - 1, by omega⟩
      have hdepth : m.leaveScope.scopeDepth = m.scopeDepth - 1 := rfl
      have hk' : ((m.leaveScope.scopeDepth : Int) - dest).toNat = k := by omega
      change ({ leaveScopes ((m.scopeDepth : Int) - dest).toNat { m with handlers := rest } with
          ip := target } : Machine) =
        { leaveScopes ((m.leaveScope.scopeDepth : Int) - dest).toNat
          { m.leaveScope with handlers := rest } with ip := target }
      rw [hk, hk', leaveScopes]
      rfl

/-- An exception out of a call is one that starts from its caller. -/
theorem carry_popFrame {m : Machine} {handlers : List Handler} (id : Nat)
    (below : ∀ h ∈ handlers, h.callDepth < m.frames.length) :
    (carry s m handlers (.thrown id)).Like (carry s m.popFrame handlers (.thrown id)) :=
  carry_thrown_like id (fun h hh => unwindTo_popFrame (below h hh)) (popFrames_world 1 m)

/-- A return leaves the handlers of its callers alone. -/
theorem carry_returned {m : Machine} {handlers : List Handler} {f : Frame} {fs : List Frame}
    (hf : m.frames = f :: fs) (called : f.callback = false)
    (below : ∀ h ∈ handlers, h.callDepth < m.frames.length) (v : Value) :
    carry s m handlers (.returned v) =
      .running ({ { m with handlers := handlers }.popFrame with ip := f.returnIp }.push v) := by
  have hthrough : m.returnThrough v handlers = .inr { m with handlers := handlers } := by
    cases handlers with
    | nil => rfl
    | cons h rest =>
      have hlt := below h List.mem_cons_self
      rw [returnThrough, if_pos (by omega)]
  unfold carry
  dsimp only
  rw [hthrough]
  unfold returnFrom
  simp only [hf, called, Bool.false_eq_true, if_false]
  rfl

/-- A leave within the region of the innermost handler of its frame arrives. -/
theorem carry_left {m : Machine} {handlers : List Handler} {target : Int}
    (stays : ∀ h ∈ handlers.head?, h.callDepth = m.frames.length → h.covers target = true) :
    carry s m handlers (.left target m.scopeDepth) =
      .running { m with handlers := handlers, ip := target } := by
  have hthrough : m.leaveThrough target m.scopeDepth handlers =
      .inr { m with handlers := handlers } := by
    cases handlers with
    | nil => rfl
    | cons h rest =>
      rw [leaveThrough, if_neg]
      intro hc
      simp only [Bool.and_eq_true, decide_eq_true_eq, Bool.not_eq_true'] at hc
      rw [stays h rfl hc.1.1] at hc
      exact Bool.noConfusion hc.2
  have hzero : ((m.scopeDepth : Int) - m.scopeDepth).toNat = 0 := by omega
  unfold carry
  dsimp only
  rw [hthrough]
  dsimp only [leaveScopesTo]
  rw [hzero, leaveScopes]

/-- A signal passes a handler that has nothing left to run. -/
theorem carry_cons_spent {m : Machine} {h : Handler} {handlers : List Handler} {sig : Signal}
    (passes : sig.Passes h m) (uncaught : sig.isCaught h = false)
    (through : h.hasFinally = true → h.isFinalizing = true) :
    carry s m (h :: handlers) sig = carry s m handlers sig := by
  have hthrough : (h.hasFinally && !h.isFinalizing) = false := by
    cases hf : h.hasFinally with
    | false => rfl
    | true => simp [through hf]
  cases sig with
  | thrown id =>
    have hnot : (decide (h.phase = .trying) && h.hasCatch) = false := uncaught
    have hthrough' : (!h.isFinalizing && h.hasFinally) = false := by
      rw [Bool.and_comm]
      exact hthrough
    simp only [carry, throwTo, Nat.not_lt_zero, if_false, hnot, hthrough', Bool.false_eq_true]
  | returned v =>
    have hdepth : h.callDepth = m.frames.length := passes
    simp only [carry, returnThrough, hdepth, ne_eq, not_true_eq_false, if_false, hthrough,
      Bool.false_eq_true]
  | left target dest =>
    obtain ⟨hdepth, hle, hcovers⟩ := passes
    simp only [carry, leaveThrough, hdepth, hle, hcovers, hthrough, decide_true, Bool.and_self,
      Bool.not_false, if_true, Bool.false_eq_true, if_false]

/-- A signal that meets a finally block still to run is put off. -/
theorem carry_cons_finally {m : Machine} {h : Handler} {handlers : List Handler} {sig : Signal}
    (control : m.control = .fetch) (loops : m.loops = []) (passes : sig.Passes h m)
    (uncaught : sig.isCaught h = false) (has : h.hasFinally = true)
    (fresh : h.isFinalizing = false) :
    carry s m (h :: handlers) sig = .running (m.enterFinally h handlers (sig.pending h)) := by
  cases sig with
  | thrown id =>
    have hnot : (decide (h.phase = .trying) && h.hasCatch) = false := uncaught
    simp only [carry, throwTo, Nat.not_lt_zero, if_false, hnot, has, fresh, Bool.false_eq_true,
      Bool.not_false, Bool.and_self, if_true]
    have hcontrol := (m.unwindTo_control h).1.trans control
    have hloops := (m.unwindTo_control h).2.trans loops
    simp only [enterFinally, Signal.pending, hcontrol, hloops]
  | returned v =>
    have hdepth : h.callDepth = m.frames.length := passes
    simp only [carry, returnThrough, hdepth, ne_eq, not_true_eq_false, if_false, has, fresh,
      Bool.not_false, Bool.and_self, if_true, Signal.pending]
  | left target dest =>
    obtain ⟨hdepth, hle, hcovers⟩ := passes
    simp only [carry, leaveThrough, hdepth, hle, hcovers, has, fresh, decide_true, Bool.and_self,
      Bool.not_false, if_true, Signal.pending]

theorem carry_cons_catch {m : Machine} {h : Handler} {handlers : List Handler} {id : Nat}
    (control : m.control = .fetch) (loops : m.loops = []) (trying : h.phase = .trying)
    (has : h.hasCatch = true) :
    carry s m (h :: handlers) (.thrown id) = .running (m.enterCatch h handlers id) := by
  have hcontrol := (m.unwindTo_control h).1.trans control
  have hloops := (m.unwindTo_control h).2.trans loops
  simp only [carry, throwTo, Nat.not_lt_zero, if_false, trying, has, decide_true, Bool.and_self,
    if_true, enterCatch, hcontrol, hloops]

/-- Nothing is unwound to a handler that was pushed where the machine is. -/
theorem unwindTo_self {m : Machine} {h : Handler} (frames : h.callDepth = m.frames.length)
    (depth : h.scopeDepth = m.scopeDepth) (stack : m.stack = []) : m.unwindTo h = m := by
  have hf : m.frames.length - h.callDepth = 0 := by omega
  have hd : ((m.scopeDepth : Int) - h.scopeDepth).toNat = 0 := by omega
  unfold unwindTo leaveScopesTo
  dsimp only
  rw [hf, popFrames, hd, leaveScopes, stack]
  simp only [truncated, List.drop_nil]
  rw [← stack]

theorem settle_giveBack (m : Machine) (v : Value) :
    settle s (m.giveBack v) = carry s m m.handlers (.returned v) := by
  unfold giveBack carry
  dsimp only
  cases m.returnThrough v m.handlers with
  | inl x => rfl
  | inr x => rfl

theorem settle_leaveTo (m : Machine) (target : Int) {scopes dest : Int} (nonneg : 0 ≤ scopes)
    (hdest : (m.scopeDepth : Int) - scopes = dest) (inside : (m.scopeFloor : Int) ≤ dest) :
    settle s (leaveTo s m target scopes) = carry s m m.handlers (.left target dest) := by
  have hdepth : m.leaveDepth scopes = dest := by
    unfold leaveDepth
    rw [if_neg]
    · exact hdest
    · simp
      omega
  unfold leaveTo carry
  dsimp only
  rw [hdepth, if_neg (by omega)]
  cases m.leaveThrough target dest m.handlers with
  | inl x => rfl
  | inr x => rfl

/-- A machine with one more exception, which is the latest. -/
def withException (m : Machine) (e : Exception) : Machine :=
  { m with world :=
    { m.world with store :=
      { m.world.store with exceptions := m.world.store.exceptions.push e } } }

/-- A new exception is made and thrown; its place is known. -/
theorem settle_raise {m : Machine} (loops : m.loops = []) (cause : ErrorCause) (payload : Value) :
    ∃ e : Exception, settle s (.failed (.raise cause payload) m) =
        carry s (m.withException e) m.handlers (.thrown m.world.store.exceptions.size) ∧
      e.kind = cause.kind ∧ e.message = cause.message ∧ e.payload = payload ∧
      e.positioned = true := by
  let e₀ : Exception := { kind := cause.kind, message := cause.message, payload := payload }
  let m₀ := m.withException e₀
  have hget : m₀.world.store.exception m.world.store.exceptions.size = e₀ := by
    simp [m₀, withException, Store.exception]
  have hstamp : stamp s m₀ m.world.store.exceptions.size = m.withException (stamped s m₀ e₀) := by
    have hmodify : m₀.world.store.exceptions.modify m.world.store.exceptions.size (stamped s m₀) =
        m.world.store.exceptions.push (stamped s m₀ e₀) := by
      change (m.world.store.exceptions.push e₀).modify m.world.store.exceptions.size _ = _
      apply Array.ext_getElem?
      intro i
      rw [Array.getElem?_modify, Array.getElem?_push, Array.getElem?_push]
      split
      · next h =>
        subst h
        rw [if_pos rfl, if_pos rfl]
        rfl
      · next h => rw [if_neg (Ne.symm h), if_neg (Ne.symm h)]
    unfold stamp
    dsimp only
    rw [hget, if_neg (show ¬e₀.positioned = true by simp [e₀]), hmodify]
    rfl
  refine ⟨stamped s m₀ e₀, ?_, ?_⟩
  · have hexc : m.exceptionOf (.raise cause payload) =
        some (m.world.store.exceptions.size, m₀) := rfl
    have hhandlers : m₀.handlers = m.handlers := rfl
    unfold settle carry
    dsimp only
    rw [loops]
    unfold fail offer
    rw [hexc]
    dsimp only
    unfold throwException
    rw [hstamp, hhandlers]
    cases (m.withException (stamped s m₀ e₀)).throwTo m.world.store.exceptions.size 0 m.handlers with
    | handled x => rfl
    | escaped x => rfl
  · unfold stamped
    dsimp only
    split <;> exact ⟨rfl, rfl, rfl, rfl⟩

/-- An exception that was raised before is thrown as it is. -/
theorem settle_rethrow {m : Machine} {id : Nat} (loops : m.loops = [])
    (positioned : (m.world.store.exception id).positioned = true) :
    settle s (.failed (.rethrow id) m) = carry s m m.handlers (.thrown id) := by
  have hstamp : stamp s m id = m := by
    unfold stamp
    dsimp only
    rw [if_pos positioned]
  unfold settle carry
  dsimp only
  rw [loops]
  unfold fail offer exceptionOf throwException
  dsimp only
  rw [hstamp]
  cases m.throwTo id 0 m.handlers with
  | handled x => rfl
  | escaped x => rfl

/-- The end of a finally block lets a signal go on. -/
theorem settle_replay {m : Machine} {h : Handler} {sig : Signal} (loops : m.loops = [])
    (depth : h.scopeDepth = m.scopeDepth)
    (positioned : ∀ id, sig = .thrown id → (m.world.store.exception id).positioned = true)
    (inside : ∀ target dest, sig = .left target dest →
      (m.scopeFloor : Int) ≤ dest ∧ dest ≤ (m.scopeDepth : Int)) :
    settle s (replay s m (sig.pending h)) = carry s m m.handlers sig := by
  cases sig with
  | thrown id => exact settle_rethrow loops (positioned id rfl)
  | returned v => exact settle_giveBack m v
  | left target dest =>
    obtain ⟨hfloor, hle⟩ := inside target dest rfl
    exact settle_leaveTo m target (by omega) (by omega) hfloor

end Machine

end BytecodeMachine
