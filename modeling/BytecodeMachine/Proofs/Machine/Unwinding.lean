import BytecodeMachine.Proofs.Machine.Change
import BytecodeMachine.Proofs.Machine.Passing

/-! Throwing, returning and leaving as changes of a machine. Each drops handlers from the top, all of
which have nothing left to run, and then enters a block of the next one or goes on below it. The log
of a transfer is tied to where it stops: entering a block is the last that happens in a step, and the
block is what runs next. -/
namespace BytecodeMachine

variable {s : Setup}

/-- What a transfer that begins in `m` puts off at a handler. A leave notes how far below the handler
it goes. -/
def Pending.putOff (m : Machine) (h : Handler) : Pending → Pending
  | .leave target scopes => .leave target ((h.scopeDepth : Int) - m.leaveDepth scopes)
  | pending => pending

namespace Machine

/-- Where a transfer that begins in `m` stops when it has come to the handlers `rest`: the events of
that, and the state of the run after the step. -/
inductive Stops (s : Setup) (m : Machine) :
    Pending → (rest : List Handler) → List HandlerEvent → Status → Prop
  /-- The finally block of the top handler runs next, with the transfer put off. -/
  | entered (pending : Pending) {h : Handler} {rest : List Handler} {n : Machine}
      (has : h.hasFinally = true) (fresh : h.isFinalizing = false)
      (handlers : n.handlers = { h with phase := .finalizing (pending.putOff m h) } :: rest)
      (ip : n.ip = h.finallyAddr) (control : n.control = .fetch) :
      Stops s m pending (h :: rest) [.entered (pending.putOff m h)] (.running n)
  /-- The catch block of the top handler runs next, with the exception on the stack. -/
  | caught {id : Nat} {h : Handler} {rest : List Handler} {n : Machine}
      (trying : h.phase = .trying) (has : h.hasCatch = true)
      (handlers : n.handlers = { h with phase := .catching } :: rest) (ip : n.ip = h.catchAddr)
      (top : n.stack.head? = some (.exception id)) (control : n.control = .fetch) :
      Stops s m (.exception id) (h :: rest) [.caught] (.running n)
  /-- An exception that passes all handlers ends the run. -/
  | uncaught {id : Nat} {n : Machine} (handlers : n.handlers = []) :
      Stops s m (.exception id) [] [] (.ended (.exception id) n)
  /-- A return outside all frames ends the run. -/
  | halted {v : Value} {rest : List Handler} {n : Machine} (outside : m.frames = [])
      (stays : ∀ h ∈ rest.head?, h.callDepth ≠ m.frames.length) (handlers : n.handlers = rest) :
      Stops s m (.giveBack v) rest [] (.ended (.value v) n)
  | returned {v : Value} {rest : List Handler} {n : Machine} {f : Frame} {fs : List Frame}
      (inside : m.frames = f :: fs) (called : f.callback = false)
      (stays : ∀ h ∈ rest.head?, h.callDepth ≠ m.frames.length) (handlers : n.handlers = rest)
      (frames : n.frames = fs) (ip : n.ip = f.returnIp) (top : n.stack.head? = some v) :
      Stops s m (.giveBack v) rest [] (.running n)
  /-- The value of a callback goes to the native loop that called. -/
  | answered {v : Value} {rest : List Handler} {n : Machine} {f : Frame} {fs : List Frame}
      (inside : m.frames = f :: fs) (called : f.callback = true)
      (stays : ∀ h ∈ rest.head?, h.callDepth ≠ m.frames.length) (handlers : n.handlers = rest)
      (frames : n.frames = fs) : Stops s m (.giveBack v) rest [] (n.deliver v)
  | left {target scopes : Int} {rest : List Handler} {n : Machine}
      (stays : ∀ h ∈ rest.head?, ¬ h.Exited m target (m.leaveDepth scopes))
      (handlers : n.handlers = rest) (frames : n.frames = m.frames) (ip : n.ip = target)
      (scopeDepth : (n.scopeDepth : Int) = min (m.scopeDepth : Int) (m.leaveDepth scopes)) :
      Stops s m (.leave target scopes) rest [] (.running n)
  /-- A leave out of the frame is a fault. -/
  | refused {target scopes : Int} {n : Machine} (past : m.leaveDepth scopes < (m.scopeFloor : Int))
      (handlers : n.handlers = m.handlers) : Stops s m (.leave target scopes) m.handlers []
        (.ended (.fault ⟨(m.place s).ip, (m.place s).op, .leavePast scopes⟩) n)

/-- A transfer that begins in `m`: it passes handlers that have nothing left to run, and stops. -/
inductive Proceeds (s : Setup) (m : Machine) : Pending → List HandlerEvent → Status → Prop
  | nothing : Proceeds s m .nothing [] (.running m)
  | passes {pending : Pending} {t : Transfer} (above : List Handler) {rest : List Handler}
      {log : List HandlerEvent} {st : Status} (kind : pending.transfer? = some t)
      (found : m.handlers = above ++ rest) (through : ∀ a ∈ above, a.Through)
      (stops : Stops s m pending rest log st) :
      Proceeds s m pending (above.map (fun _ => .spent t) ++ log) st

/-- A failure that is no exception ends the run and leaves the handlers alone. An exception is thrown,
and one that was thrown before stays the same. -/
inductive Raised (s : Setup) (m : Machine) (f : Failure) : List HandlerEvent → Status → Prop
  | ended {e : Ending} {n : Machine} (new : ∀ id, f ≠ .rethrow id)
      (handlers : n.handlers = m.handlers) : Raised s m f [] (.ended e n)
  | thrown {id : Nat} {log : List HandlerEvent} {st : Status}
      (same : ∀ old, f = .rethrow old → id = old) (proceeds : Proceeds s m (.exception id) log st) :
      Raised s m f log st

/-- Every event of a log belongs to one transfer. -/
def Unwinds (t : Transfer) (log : List HandlerEvent) : Prop := ∀ e ∈ log, e.transfer? = some t

theorem Pending.transfer?_putOff (m : Machine) (h : Handler) (pending : Pending) :
    (pending.putOff m h).transfer? = pending.transfer? := by
  cases pending <;> rfl

theorem Proceeds.unwinds {m : Machine} {pending : Pending} {log : List HandlerEvent} {st : Status}
    {t : Transfer} (h : Proceeds s m pending log st) (kind : pending.transfer? = some t) :
    Unwinds t log := by
  intro e hmem
  cases h with
  | nothing => cases kind
  | @passes _ t' above _ tail _ kind' _ _ stops =>
    obtain rfl : t' = t := Option.some.inj (kind'.symm.trans kind)
    rcases List.mem_append.mp hmem with he | he
    · obtain ⟨_, _, rfl⟩ := List.mem_map.mp he
      rfl
    · cases stops with
      | entered =>
        obtain rfl := List.mem_singleton.mp he
        exact (Pending.transfer?_putOff _ _ _).trans kind
      | caught =>
        obtain rfl := List.mem_singleton.mp he
        exact kind
      | uncaught | halted | returned | answered | left | refused => cases he

/-- Handlers that are dropped on the way to where an exception is thrown again. -/
theorem Proceeds.after {m n : Machine} {id : Nat} {above : List Handler} {log : List HandlerEvent}
    {st : Status} (h : Proceeds s n (.exception id) log st) (found : m.handlers = above ++ n.handlers)
    (through : ∀ a ∈ above, a.Through) :
    Proceeds s m (.exception id) (above.map (fun _ => .spent .throwing) ++ log) st := by
  cases h with
  | @passes _ t above' rest tail _ kind found' through' stops =>
    cases kind
    rw [← List.append_assoc, ← List.map_append]
    refine .passes (above ++ above') rfl (by rw [found, found', List.append_assoc])
      (List.forall_mem_append.mpr ⟨through, through'⟩) ?_
    cases stops with
    | entered _ has fresh handlers ip control =>
      exact .entered (.exception id) has fresh handlers ip control
    | caught trying has handlers ip top control => exact .caught trying has handlers ip top control
    | uncaught handlers => exact .uncaught handlers

/-- The native loops have no part in an exception that is handled inside them. -/
theorem Proceeds.with_loops {m n : Machine} {id : Nat} {log : List HandlerEvent}
    (h : Proceeds s m (.exception id) log (.running n)) (loops : List Loop) :
    Proceeds s m (.exception id) log (.running { n with loops := loops }) := by
  cases h with
  | passes above kind found through stops =>
    refine .passes above kind found through ?_
    cases stops with
    | entered _ has fresh handlers ip control =>
      exact .entered (.exception id) has fresh handlers ip control
    | caught trying has handlers ip top control => exact .caught trying has handlers ip top control

/-- Only the handlers of the machine count. -/
theorem Raised.congr {m n : Machine} {f : Failure} {log : List HandlerEvent} {st : Status}
    (h : Raised s n f log st) (handlers : n.handlers = m.handlers) : Raised s m f log st := by
  cases h with
  | ended new hsame => exact .ended new (hsame.trans handlers)
  | thrown same goes => exact .thrown same (goes.after (List.nil_append _ ▸ handlers.symm) (List.forall_mem_nil _))

/-- A loop gives a failure its own name, but not to an exception that was thrown before. -/
theorem Raised.named {m : Machine} {f : Failure} {name : Text} {log : List HandlerEvent}
    {st : Status} (h : Raised s m (f.named name) log st) : Raised s m f log st := by
  have hold : ∀ id, f = .rethrow id → f.named name = .rethrow id := by
    rintro id rfl
    rfl
  cases h with
  | ended new hsame => exact .ended (fun id hf => new id (hold id hf)) hsame
  | thrown same goes => exact .thrown (fun old hf => same old (hold old hf)) goes

/-- An exception that was thrown before goes on. -/
theorem Raised.proceeds {m : Machine} {id : Nat} {log : List HandlerEvent} {st : Status}
    (h : Raised s m (.rethrow id) log st) : Proceeds s m (.exception id) log st := by
  cases h with
  | ended new => exact absurd rfl (new id)
  | thrown same goes => exact same id rfl ▸ goes

/-- Frames, scopes and the stack are unwound without a look at the handlers. -/
theorem popFrames_with_handlers (n : Nat) (m : Machine) (handlers : List Handler) :
    popFrames n { m with handlers := handlers } = { popFrames n m with handlers := handlers } := by
  induction n generalizing m with
  | zero => rfl
  | succ n ih =>
    have hone : popFrame { m with handlers := handlers } =
        { m.popFrame with handlers := handlers } := by
      cases hf : m.frames <;> simp [popFrame, hf]
    rw [popFrames, hone, ih, popFrames]

theorem leaveScopes_with_handlers (n : Nat) (m : Machine) (handlers : List Handler) :
    leaveScopes n { m with handlers := handlers } =
      { leaveScopes n m with handlers := handlers } := by
  induction n generalizing m with
  | zero => rfl
  | succ n ih => exact ih m.leaveScope

theorem unwindTo_with_handlers (m : Machine) (h : Handler) (handlers : List Handler) :
    { m with handlers := handlers }.unwindTo h = { m.unwindTo h with handlers := handlers } := by
  unfold unwindTo leaveScopesTo
  dsimp only
  rw [popFrames_with_handlers]
  dsimp only
  rw [leaveScopes_with_handlers]

theorem popFrames_handlers (n : Nat) (m : Machine) : (popFrames n m).handlers = m.handlers := by
  rw [show m = { m with handlers := m.handlers } from rfl, popFrames_with_handlers]

theorem popFrame_handlers (m : Machine) : m.popFrame.handlers = m.handlers := popFrames_handlers 1 m

theorem popFrame_frames (m : Machine) : m.popFrame.frames = m.frames.tail := by
  unfold popFrame
  split
  · next h => simp [h]
  · next h => simp [h]

theorem popFrames_frames (n : Nat) (m : Machine) : (popFrames n m).frames = m.frames.drop n := by
  induction n generalizing m with
  | zero => rfl
  | succ n ih => rw [popFrames, ih, popFrame_frames, List.drop_tail]

/-- Frames above the one of the top handler are dropped one by one. -/
theorem popFrames_changes (n : Nat) (m : Machine) (hn : n ≤ m.frames.length)
    (left : ∀ h ∈ m.handlers.head?, n = 0 ∨ h.callDepth + n ≤ m.frames.length) :
    Changes s m [] (popFrames n m) := by
  induction n generalizing m with
  | zero => exact Changes.refl m
  | succ n ih =>
    have hlen : m.popFrame.frames.length = m.frames.length - 1 := by
      rw [popFrame_frames, List.length_tail]
    have hhead := m.popFrame_handlers
    have hone : Change s m [] m.popFrame := by
      refine Change.popFrame (fun h => ?_) fun h hh => ?_
      · simp [h] at hn
      · have := left h hh
        omega
    refine (Changes.one hone).trans (ih m.popFrame (by omega) fun h hh => ?_)
    rw [hhead] at hh
    have := left h hh
    omega

/-- Scopes younger than the top handler are left one by one, inside its frame. -/
theorem leaveScopes_changes (n : Nat) (m : Machine) {h : Handler} {rest : List Handler}
    (top : m.handlers = h :: rest) (here : m.frames.length ≤ h.callDepth)
    (younger : n ≤ m.scopeDepth - h.scopeDepth) : Changes s m [] (leaveScopes n m) := by
  induction n generalizing m with
  | zero => exact Changes.refl m
  | succ n ih =>
    have hone : Change s m [] m.leaveScope := Change.unwindScope top here (by omega)
    have hd : m.leaveScope.scopeDepth = m.scopeDepth - 1 := rfl
    exact (Changes.one hone).trans (ih m.leaveScope top here (by omega))

theorem unwindTo_changes (m : Machine) {h : Handler} {rest : List Handler}
    (top : m.handlers = h :: rest) : Changes s m [] (m.unwindTo h) := by
  have hframes := popFrames_changes (s := s) (m.frames.length - h.callDepth) m (by omega)
    (by
      intro d hd
      rw [top, List.head?_cons, Option.mem_some_iff] at hd
      subst hd
      omega)
  let m' := popFrames (m.frames.length - h.callDepth) m
  have htop : m'.handlers = h :: rest := (popFrames_handlers _ m).trans top
  have hhere : m'.frames.length ≤ h.callDepth := by
    rw [popFrames_frames, List.length_drop]
    omega
  have hscopes := leaveScopes_changes (s := s) ((m'.scopeDepth : Int) - h.scopeDepth).toNat m' htop
    hhere (by omega)
  exact (hframes.trans hscopes).then_quiet (Quiet.of_eq rfl rfl rfl rfl rfl)

theorem enterFinally_changes (m : Machine) (h : Handler) (rest : List Handler) (pending : Pending)
    (has : h.hasFinally = true) (fresh : h.isFinalizing = false) :
    Changes s { m with handlers := h :: rest } [.entered pending]
      (m.enterFinally h rest pending) := by
  have hu := unwindTo_changes (s := s) { m with handlers := h :: rest } rfl
  rw [unwindTo_with_handlers] at hu
  have hs : Change s { m.unwindTo h with handlers := h :: rest } [.entered pending]
      { m.unwindTo h with handlers := { h with phase := .finalizing pending } :: rest } :=
    Change.shift (m := { m.unwindTo h with handlers := h :: rest })
      (Shift.entered pending has fresh) (by simp)
  exact (hu.trans (Changes.one hs)).then_quiet (Quiet.of_eq rfl rfl rfl rfl rfl)

theorem enterCatch_changes (m : Machine) (h : Handler) (rest : List Handler) (exc : Nat)
    (trying : h.phase = .trying) (has : h.hasCatch = true) :
    Changes s { m with handlers := h :: rest } [.caught] (m.enterCatch h rest exc) := by
  have hu := unwindTo_changes (s := s) { m with handlers := h :: rest } rfl
  rw [unwindTo_with_handlers] at hu
  have hs : Change s { m.unwindTo h with handlers := h :: rest } [.caught]
      { m.unwindTo h with handlers := { h with phase := .catching } :: rest } :=
    Change.shift (m := { m.unwindTo h with handlers := h :: rest }) (Shift.caught trying has)
      (by simp)
  exact (hu.trans (Changes.one hs)).then_quiet (Quiet.of_eq rfl rfl rfl rfl rfl)

theorem unwindTo_control (m : Machine) (h : Handler) :
    (m.unwindTo h).control = m.control ∧ (m.unwindTo h).loops = m.loops := by
  have hframes (n : Nat) (m : Machine) :
      (popFrames n m).control = m.control ∧ (popFrames n m).loops = m.loops := by
    induction n generalizing m with
    | zero => exact ⟨rfl, rfl⟩
    | succ n ih =>
      have hone : m.popFrame.control = m.control ∧ m.popFrame.loops = m.loops := by
        unfold popFrame
        split <;> exact ⟨rfl, rfl⟩
      exact ⟨(ih _).1.trans hone.1, (ih _).2.trans hone.2⟩
  have hscopes (n : Nat) (m : Machine) :
      (leaveScopes n m).control = m.control ∧ (leaveScopes n m).loops = m.loops := by
    induction n generalizing m with
    | zero => exact ⟨rfl, rfl⟩
    | succ n ih => exact ih m.leaveScope
  exact ⟨(hscopes _ _).1.trans (hframes _ m).1, (hscopes _ _).2.trans (hframes _ m).2⟩

theorem leaveScopes_scopeDepth (k : Nat) (m : Machine) :
    (leaveScopes k m).scopeDepth = m.scopeDepth - k := by
  induction k generalizing m with
  | zero => rfl
  | succ k ih =>
    rw [leaveScopes, ih]
    change m.scopeDepth - 1 - k = m.scopeDepth - (k + 1)
    omega

/-- A transfer drops the top handlers that have nothing left to run. -/
theorem passed_changes (m : Machine) (t : Transfer) {above rest : List Handler}
    (found : m.handlers = above ++ rest) (through : ∀ a ∈ above, a.Through) :
    Changes s m (above.map fun _ => .spent t) { m with handlers := rest } := by
  have hall (above : List Handler) (through : ∀ a ∈ above, a.Through) :
      Changes s { m with handlers := above ++ rest } (above.map fun _ => .spent t)
        { m with handlers := rest } := by
    induction above with
    | nil => exact Changes.refl _
    | cons a above ih =>
      obtain ⟨ha, habove⟩ := List.forall_mem_cons.mp through
      exact Changes.cons (Change.shift (m := { m with handlers := a :: (above ++ rest) })
        (Shift.spent t ha) (by simp)) (ih habove)
  have h := hall above through
  rwa [← found] at h

/-- The frames that an exception leaves on its way out of a loop. -/
theorem escape_changes (m : Machine) (boundary : Nat)
    (below : ∀ h ∈ m.handlers.head?, h.callDepth < boundary) :
    Changes s m [] (popFrames (m.frames.length + 1 - max boundary 1) m) := by
  refine popFrames_changes _ m (by omega) fun h hh => ?_
  have := below h hh
  omega

def Thrown.machine : Thrown → Machine
  | .handled m => m
  | .escaped m => m

end Machine

/-- The machine that an instruction leaves. -/
def Effect.machine : Effect → Machine
  | .next m => m
  | .returned _ m => m
  | .failed _ m => m

/-- The machine of a run that goes on or has ended. -/
def Status.machine : Status → Machine
  | .running m => m
  | .ended _ m => m

/-- A fault, the end of the program, or a stop from outside. -/
def Failure.isFinal : Failure → Bool
  | .fault _ | .halt _ | .stopped _ => true
  | _ => false

theorem Failure.named_of_isFinal {f : Failure} (h : f.isFinal = true) (name : Text) :
    f.named name = f := by
  cases f <;> first | rfl | cases h

namespace Machine

theorem offer_of_final {f : Failure} (hf : f.isFinal = true) (m : Machine) (boundary : Nat) :
    m.offer s f boundary = .inr (f, m) := by
  unfold offer
  cases f <;> first | rfl | cases hf

/-- No handler is offered a final failure, at any depth of native loops. -/
theorem fail_eq_ended {f : Failure} (hf : f.isFinal = true) (inside : Bool) (m : Machine)
    (loops : List Loop) :
    ∃ ip pc, fail s inside f m loops =
      .ended (endingOf f) { m with loops := [], ip := ip, pc := pc } := by
  induction loops generalizing inside m with
  | nil => exact ⟨m.ip, m.pc, by rw [fail, offer_of_final hf]⟩
  | cons l loops ih =>
    obtain ⟨ip, pc, he⟩ := ih (!l.nested) { m with ip := l.ip, pc := l.pc }
    refine ⟨ip, pc, ?_⟩
    have hout : (if inside then m.offer s f l.boundary else .inr (f, m)) = .inr (f, m) := by
      rw [offer_of_final hf, ite_self]
    rw [fail, hout]
    dsimp only
    rw [Failure.named_of_isFinal hf]
    exact he

theorem enterFinally_stops {m : Machine} {h : Handler} (rest : List Handler) (pending : Pending)
    (control : m.control = .fetch) (has : h.hasFinally = true) (fresh : h.isFinalizing = false) :
    Stops s m pending (h :: rest) [.entered (pending.putOff m h)]
      (.running (m.enterFinally h rest (pending.putOff m h))) :=
  .entered pending has fresh rfl rfl ((m.unwindTo_control h).1.trans control)

/-- Gives a value back from the current frame, or ends the program where there is none. -/
def returnFrom (m : Machine) (v : Value) : Effect :=
  match m.frames with
  | [] => .failed (.halt v) m
  | f :: _ =>
    if f.callback then .returned v m.popFrame
    else .next ({ m.popFrame with ip := f.returnIp }.push v)

theorem giveBack_eq (m : Machine) (v : Value) :
    m.giveBack v = (m.returnThrough v m.handlers).elim .next (·.returnFrom v) := by
  unfold giveBack
  cases m.returnThrough v m.handlers with
  | inl n => rfl
  | inr n => rfl

theorem returnFrom_stops {m n : Machine} (v : Value) (frames : n.frames = m.frames)
    (stays : ∀ h ∈ n.handlers.head?, h.callDepth ≠ m.frames.length) :
    Changes s n [] (n.returnFrom v).machine ∧
      Stops s m (.giveBack v) n.handlers [] (settle s (n.returnFrom v)) := by
  unfold returnFrom
  split
  · next hf =>
    obtain ⟨ip, pc, hend⟩ := fail_eq_ended (s := s) (f := .halt v) rfl true n n.loops
    refine ⟨Changes.refl n, ?_⟩
    rw [settle, hend]
    exact .halted (frames.symm.trans hf) stays rfl
  · next f fs hf =>
    have hpop : Changes s n [] n.popFrame :=
      Changes.one (Change.popFrame (by simp [hf]) (by rwa [frames]))
    have hleft : n.popFrame.frames = fs := by rw [popFrame_frames, hf, List.tail_cons]
    have hm : m.frames = f :: fs := frames.symm.trans hf
    cases hb : f.callback with
    | true => exact ⟨hpop, .answered hm hb stays n.popFrame_handlers hleft⟩
    | false =>
      exact ⟨hpop.then_quiet (Quiet.of_eq rfl rfl rfl rfl rfl),
        .returned hm hb stays n.popFrame_handlers hleft rfl rfl⟩

/-- A return, as changes of the machine and with where it stops. -/
theorem giveBack_proceeds (m : Machine) (v : Value) (control : m.control = .fetch) :
    ∃ log, Changes s m log (m.giveBack v).machine ∧
      Proceeds s m (.giveBack v) log (settle s (m.giveBack v)) := by
  have hr := returnThrough_defers m v m.handlers
  rw [giveBack_eq]
  generalize m.returnThrough v m.handlers = r at hr ⊢
  cases hr with
  | @entered above rest h found passed _ has fresh =>
    have hthrough : ∀ a ∈ above, a.Through := fun a ha => (passed a ha).2
    exact ⟨_, (passed_changes m .returning found hthrough).trans
        (enterFinally_changes m h rest (.giveBack v) has fresh),
      .passes above rfl found hthrough (enterFinally_stops rest (.giveBack v) control has fresh)⟩
  | @out above rest found passed stays =>
    have hthrough : ∀ a ∈ above, a.Through := fun a ha => (passed a ha).2
    obtain ⟨hleave, hstops⟩ := returnFrom_stops (s := s) (m := m) (n := { m with handlers := rest })
      v rfl stays
    exact ⟨_, (passed_changes m .returning found hthrough).trans hleave,
      .passes above rfl found hthrough hstops⟩

/-- Scopes above the floor of the current frame are left one by one. -/
theorem leaveScopes_inside (n : Nat) (m : Machine) (inside : n ≤ m.scopeDepth - m.scopeFloor) :
    Changes s m [] (leaveScopes n m) := by
  induction n generalizing m with
  | zero => exact Changes.refl m
  | succ n ih =>
    have hone : Change s m [] m.leaveScope := Change.popScope (by omega)
    have hd : m.leaveScope.scopeDepth = m.scopeDepth - 1 := rfl
    have hf : m.leaveScope.scopeFloor = m.scopeFloor := rfl
    exact (Changes.one hone).trans (ih m.leaveScope (by omega))

theorem leaveTo_proceeds (m : Machine) (target scopes : Int) (control : m.control = .fetch) :
    ∃ log, Changes s m log (leaveTo s m target scopes).machine ∧
      Proceeds s m (.leave target scopes) log (settle s (leaveTo s m target scopes)) := by
  have hl := leaveThrough_defers m target (m.leaveDepth scopes) m.handlers
  unfold leaveTo
  dsimp only
  by_cases hfloor : m.leaveDepth scopes < (m.scopeFloor : Int)
  · rw [if_pos hfloor]
    obtain ⟨ip, pc, hend⟩ := fail_eq_ended (s := s) (f := m.fault s (.leavePast scopes)) rfl true m
      m.loops
    refine ⟨_, Changes.refl m, .passes [] rfl rfl (by simp) ?_⟩
    change Stops s m _ m.handlers [] (fail s true (m.fault s (.leavePast scopes)) m m.loops)
    rw [hend]
    exact .refused hfloor rfl
  · rw [if_neg hfloor]
    generalize m.leaveThrough target (m.leaveDepth scopes) m.handlers = r at hl ⊢
    cases hl with
    | @entered above rest h found passed _ has fresh =>
      have hthrough : ∀ a ∈ above, a.Through := fun a ha => (passed a ha).2
      exact ⟨_, (passed_changes m .leaving found hthrough).trans
          (enterFinally_changes m h rest _ has fresh),
        .passes above rfl found hthrough
          (enterFinally_stops rest (.leave target scopes) control has fresh)⟩
    | @out above rest found passed stays =>
      have hthrough : ∀ a ∈ above, a.Through := fun a ha => (passed a ha).2
      let q : Machine := { m with handlers := rest }
      have hfloor' : q.scopeFloor = m.scopeFloor := rfl
      have hdepth' : q.scopeDepth = m.scopeDepth := rfl
      have hin := leaveScopes_inside (s := s) ((q.scopeDepth : Int) - m.leaveDepth scopes).toNat q
        (by omega)
      have hdepth := leaveScopes_scopeDepth ((q.scopeDepth : Int) - m.leaveDepth scopes).toNat q
      have hkeep (k : Nat) (n : Machine) : (leaveScopes k n).handlers = n.handlers ∧
          (leaveScopes k n).frames = n.frames := by
        induction k generalizing n with
        | zero => exact ⟨rfl, rfl⟩
        | succ k ih => exact ih n.leaveScope
      refine ⟨_, ((passed_changes m .leaving found hthrough).trans hin).then_quiet
          (Quiet.of_eq rfl rfl rfl rfl rfl),
        .passes above rfl found hthrough (.left stays (hkeep _ q).1 (hkeep _ q).2 rfl ?_)⟩
      change ((leaveScopes _ q).scopeDepth : Int) = _
      rw [hdepth]
      omega

/-- Does what was put off until the end of a finally block. -/
def replay (s : Setup) (m : Machine) : Pending → Effect
  | .nothing => .next m
  | .exception id => .failed (.rethrow id) m
  | .giveBack v => m.giveBack v
  | .leave target scopes => leaveTo s m target scopes

/-- The end of a finally block drops the handler before it does what was put off. -/
theorem endFinally_eq_replay {m : Machine} {h : Handler} {rest : List Handler}
    (top : m.handlers = h :: rest) :
    endFinally s m = replay s { m with handlers := rest } h.pending := by
  unfold endFinally Handler.pending
  rw [top]
  dsimp only
  cases h.phase with
  | trying => rfl
  | catching => rfl
  | finalizing pending => cases pending <;> rfl

/-- Ordinary flow comes to the finally block of the top handler. -/
def Arrives (m : Machine) (h : Handler) (rest : List Handler) : Prop :=
  m.handlers = h :: rest ∧ h.finallyAddr = m.ip ∧ h.callDepth = m.frames.length ∧
    h.isFinalizing = false

/-- Ordinary flow that comes to a finally block enters it. -/
theorem markFinalizing_changes (m : Machine) (inside : 0 ≤ m.ip) :
    (∃ h rest, m.Arrives h rest ∧ Changes s m [.arrived] m.markFinalizing ∧
        m.markFinalizing.handlers = { h with phase := .finalizing .nothing } :: rest) ∨
      ((∀ h rest, ¬ m.Arrives h rest) ∧ m.markFinalizing = m) := by
  unfold markFinalizing
  cases hh : m.handlers with
  | nil => exact Or.inr ⟨fun h rest ha => by simp [Arrives, hh] at ha, rfl⟩
  | cons h rest =>
    dsimp only
    split
    · next hc =>
      simp only [Bool.and_eq_true, decide_eq_true_eq, Bool.not_eq_true'] at hc
      have has : h.hasFinally = true := by
        rw [Handler.hasFinally, decide_eq_true_eq]
        omega
      exact Or.inl ⟨h, rest, ⟨hh, hc.1.1, hc.1.2, hc.2⟩,
        Changes.one (Change.shift (by rw [hh]; exact Shift.arrived has hc.2) (by simp)), rfl⟩
    · next hc =>
      refine Or.inr ⟨fun h' rest' ⟨htop, haddr, hdepth, hfresh⟩ => hc ?_, rfl⟩
      rw [hh] at htop
      cases htop
      simp [haddr, hdepth, hfresh]

theorem exceptionOf_quiet {m m' : Machine} {f : Failure} {id : Nat}
    (h : m.exceptionOf f = some (id, m')) : Quiet m m' := by
  unfold exceptionOf at h
  split at h
  · cases h
    exact Quiet.of_eq rfl rfl rfl rfl rfl
  · cases h
    exact Quiet.refl m
  · cases h

theorem stamp_quiet (m : Machine) (id : Nat) : Quiet m (stamp s m id) := by
  unfold stamp
  dsimp only
  split
  · exact Quiet.refl m
  · exact Quiet.of_eq rfl rfl rfl rfl rfl

/-- What comes of offering a failure to the handlers above a boundary. -/
inductive Offers (s : Setup) (m : Machine) (f : Failure) (boundary : Nat) :
    List HandlerEvent → Machine ⊕ (Failure × Machine) → Prop
  | other (new : ∀ id, f ≠ .rethrow id) : Offers s m f boundary [] (.inr (f, m))
  | handled {id : Nat} {log : List HandlerEvent} {n : Machine}
      (same : ∀ old, f = .rethrow old → id = old)
      (proceeds : Proceeds s m (.exception id) log (.running n)) : Offers s m f boundary log (.inl n)
  | escaped {id : Nat} {above : List Handler} {n : Machine}
      (same : ∀ old, f = .rethrow old → id = old) (found : m.handlers = above ++ n.handlers)
      (through : ∀ a ∈ above, a.Through)
      (outside : ∀ h ∈ n.handlers.head?, h.callDepth < boundary) :
      Offers s m f boundary (above.map fun _ => .spent .throwing) (.inr (.rethrow id, n))

theorem offer_changes (m : Machine) (f : Failure) (boundary : Nat) :
    ∃ log, Changes s m log ((m.offer s f boundary).elim id (·.2)) ∧
      Offers s m f boundary log (m.offer s f boundary) := by
  unfold offer
  cases he : m.exceptionOf f with
  | none =>
    refine ⟨[], Changes.refl m, .other fun id hf => ?_⟩
    rw [hf, exceptionOf] at he
    cases he
  | some p =>
    obtain ⟨exc, m₁⟩ := p
    have hsame : ∀ old, f = .rethrow old → exc = old := by
      rintro old rfl
      cases he
      rfl
    have hq : m.Quiet (stamp s m₁ exc) := (exceptionOf_quiet he).trans (stamp_quiet m₁ exc)
    have hh : m₁.handlers = m.handlers := (exceptionOf_quiet he).handlers
    have ht := throwTo_throws (stamp s m₁ exc) exc boundary m₁.handlers
    dsimp only [throwException]
    generalize (stamp s m₁ exc).throwTo exc boundary m₁.handlers = t at ht ⊢
    -- The handlers that are passed are dropped from the machine that is stamped.
    have hstamped : (stamp s m₁ exc).handlers = m₁.handlers := (stamp_quiet m₁ exc).handlers
    have hpass (above rest : List Handler) (found : m₁.handlers = above ++ rest)
        (through : ∀ a ∈ above, a.Through) : Changes s m (above.map fun _ => .spent .throwing)
          { stamp s m₁ exc with handlers := rest } :=
      Changes.after_quiet hq (passed_changes _ .throwing (hstamped.trans found) through)
    cases ht with
    | @caught above rest h found passed _ trying has =>
      have hthrough : ∀ a ∈ above, a.Through := fun a ha => (passed a ha).2
      exact ⟨_, ((hpass _ _ found hthrough).trans
          (enterCatch_changes _ h rest exc trying has)).then_quiet
            (Quiet.of_eq rfl rfl rfl rfl rfl),
        .handled hsame (.passes above rfl (hh.symm.trans found) hthrough
          (.caught trying has rfl rfl rfl rfl))⟩
    | @entered above rest h found passed _ has fresh =>
      have hthrough : ∀ a ∈ above, a.Through := fun a ha => (passed a ha).2
      exact ⟨_, ((hpass _ _ found hthrough).trans
          (enterFinally_changes _ h rest (.exception exc) has fresh)).then_quiet
            (Quiet.of_eq rfl rfl rfl rfl rfl),
        .handled hsame (.passes above rfl (hh.symm.trans found) hthrough
          (.entered (.exception exc) has fresh rfl rfl rfl))⟩
    | @escaped above rest found passed outside =>
      have hthrough : ∀ a ∈ above, a.Through := fun a ha => (passed a ha).2
      refine ⟨above.map fun _ => .spent .throwing, ?_, .escaped hsame ?_ hthrough ?_⟩
      · have hall := (hpass above rest found hthrough).trans (escape_changes _ boundary outside)
        rwa [List.append_nil] at hall
      · rw [popFrames_handlers, ← hh, found]
      · rwa [popFrames_handlers]

/-- A failure on its way outwards only throws, through one native loop after the other. -/
theorem fail_changes (inside : Bool) (f : Failure) (m : Machine) (loops : List Loop) :
    ∃ log, Changes s m log (fail s inside f m loops).machine ∧
      Raised s m f log (fail s inside f m loops) := by
  induction loops generalizing inside f m with
  | nil =>
    obtain ⟨log, hch, ho⟩ := offer_changes (s := s) m f 0
    unfold fail
    generalize m.offer s f 0 = r at hch ho ⊢
    cases ho with
    | other new =>
      exact ⟨[], hch.then_quiet (Quiet.of_eq rfl rfl rfl rfl rfl), .ended new rfl⟩
    | handled same goes =>
      exact ⟨log, hch.then_quiet (Quiet.of_eq rfl rfl rfl rfl rfl), .thrown same (goes.with_loops [])⟩
    | @escaped id above n same found through outside =>
      have hnone : n.handlers = [] := by
        cases hn : n.handlers with
        | nil => rfl
        | cons h rest => exact absurd (outside h (by simp [hn])) (Nat.not_lt_zero _)
      refine ⟨above.map (fun _ => .spent .throwing) ++ [], ?_, .thrown same
        (.passes above rfl found through ?_)⟩
      · rw [List.append_nil]
        exact hch.then_quiet (Quiet.of_eq rfl rfl rfl rfl rfl)
      · rw [hnone]
        exact .uncaught hnone
  | cons l loops ih =>
    -- Not handled inside the loop, the failure goes on as one of the loop.
    have hout (g : Failure) (n : Machine) : ∃ log,
        Changes s n log
          (fail s (!l.nested) (g.named l.name) { n with ip := l.ip, pc := l.pc } loops).machine ∧
        Raised s n g log
          (fail s (!l.nested) (g.named l.name) { n with ip := l.ip, pc := l.pc } loops) := by
      obtain ⟨log, hch, hr⟩ := ih (!l.nested) (g.named l.name) { n with ip := l.ip, pc := l.pc }
      have hq : n.Quiet { n with ip := l.ip, pc := l.pc } := Quiet.of_eq rfl rfl rfl rfl rfl
      exact ⟨log, Changes.after_quiet hq hch, Raised.named (hr.congr hq.handlers)⟩
    cases inside with
    | false => exact hout f m
    | true =>
      obtain ⟨log, hch, ho⟩ := offer_changes (s := s) m f l.boundary
      unfold fail
      rw [if_pos rfl]
      generalize m.offer s f l.boundary = r at hch ho ⊢
      cases ho with
      | other _ => exact hout f m
      | handled same goes =>
        exact ⟨log, hch.then_quiet (Quiet.of_eq rfl rfl rfl rfl rfl),
          .thrown same (goes.with_loops (l :: loops))⟩
      | @escaped id above n same found through _ =>
        obtain ⟨log', hch', hr⟩ := hout (.rethrow id) n
        exact ⟨_, hch.trans hch', .thrown same (hr.proceeds.after found through)⟩

end Machine

end BytecodeMachine
