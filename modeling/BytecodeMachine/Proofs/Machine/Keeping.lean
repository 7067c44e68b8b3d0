import BytecodeMachine.Proofs.Machine.Landing

/-! What a machine keeps for a handler. A handler remembers three numbers only. As long as it is on the
stack, the frames below are those it was pushed on, the old values lie at the bottom of the stack, and
the scopes lead back to the old one, so that unwinding by counting ends at all three. -/
namespace BytecodeMachine

variable {s : Setup}

/-- The way from a scope back to an older one: through the scopes that the frames in between have
saved, and then outwards. Those frames found the old values on the stack. -/
def Scopes.LeadsBack (S : Scopes) (scope₀ depth₀ height : Nat) :
    List Frame → (scope depth : Nat) → Prop
  | [], scope, depth => depth₀ ≤ depth ∧ S.climb (depth - depth₀) scope = some scope₀
  | f :: fs, _, _ => height ≤ f.stackBase ∧ S.LeadsBack scope₀ depth₀ height fs f.scope f.scopeDepth

theorem Scopes.LeadsBack.extend {S S' : Scopes} {scope₀ depth₀ height : Nat} (h : S.Extends S')
    {fs : List Frame} {scope depth : Nat} (hl : S.LeadsBack scope₀ depth₀ height fs scope depth) :
    S'.LeadsBack scope₀ depth₀ height fs scope depth := by
  induction fs generalizing scope depth with
  | nil => exact ⟨hl.1, h.climb hl.2⟩
  | cons f fs ih => exact ⟨hl.1, ih hl.2⟩

/-- A handler was pushed on another one, or is that very one. -/
structure Handler.Under (h a : Handler) : Prop where
  callDepth : h.callDepth ≤ a.callDepth
  stackHeight : h.stackHeight ≤ a.stackHeight
  scopeDepth : a.callDepth = h.callDepth → h.scopeDepth ≤ a.scopeDepth

/-- What a handler remembers of the machine it was pushed on. -/
structure Handler.Remembers (h : Handler) (m₀ : Machine) : Prop where
  callDepth : h.callDepth = m₀.frames.length
  scopeDepth : h.scopeDepth = m₀.scopeDepth
  stackHeight : h.stackHeight = m₀.stack.length

/-- As long as there are more handlers than before it was pushed, the handler and those below it are
there, in the phase given. -/
def Held (h : Handler) (rest : List Handler) (p : Phase) (handlers : List Handler) : Prop :=
  rest.length < handlers.length →
    ∃ above, handlers = above ++ { h with phase := p } :: rest ∧ ∀ a ∈ above, h.Under a

namespace Held

variable {h : Handler} {rest handlers : List Handler} {p : Phase}

/-- Handlers above may go. -/
theorem split {above : List Handler} (hh : Held h rest p (above ++ handlers)) :
    Held h rest p handlers := by
  intro stays
  obtain ⟨upper, heq, hupper⟩ := hh (by rw [List.length_append]; omega)
  rcases List.append_eq_append_iff.mp heq with ⟨c, hc, hrest⟩ | ⟨c, hc, hrest⟩
  · refine ⟨c, hrest, fun a ha => hupper a ?_⟩
    rw [hc]
    exact List.mem_append_right above ha
  · cases c with
    | nil => exact ⟨[], hrest.symm, by simp⟩
    | cons d c =>
      have hlen := congrArg List.length hrest
      simp only [List.length_cons, List.length_append] at hlen
      omega

theorem push {a : Handler} (hh : Held h rest p handlers) (under : h.Under a)
    (many : rest.length < handlers.length) : Held h rest p (a :: handlers) := by
  intro _
  obtain ⟨upper, rfl, hupper⟩ := hh many
  exact ⟨a :: upper, rfl, List.forall_mem_cons.mpr ⟨under, hupper⟩⟩

/-- A handler that is found is the remembered one or was pushed on it. -/
theorem under {above below : List Handler} {a : Handler}
    (hh : Held h rest p (above ++ a :: below)) (stays : rest.length ≤ below.length) :
    h.Under a ∧ (below = rest ∧ a = { h with phase := p } ∨
      ∀ q, Held h rest p ({ a with phase := q } :: below)) := by
  obtain ⟨upper, heq, hupper⟩ := hh.split (by rw [List.length_cons]; omega)
  cases upper with
  | nil =>
    cases heq
    exact ⟨⟨Nat.le_refl _, Nat.le_refl _, fun _ => Nat.le_refl _⟩, Or.inl ⟨rfl, rfl⟩⟩
  | cons d upper =>
    cases heq
    obtain ⟨hd, hrest⟩ := List.forall_mem_cons.mp hupper
    refine ⟨hd, Or.inr fun q _ => ⟨{ a with phase := q } :: upper, rfl, ?_⟩⟩
    exact List.forall_mem_cons.mpr ⟨⟨hd.callDepth, hd.stackHeight, hd.scopeDepth⟩, hrest⟩

end Held

namespace Machine

variable {m₀ m n : Machine} {h : Handler} {rest : List Handler} {p : Phase}

/-- The old frames, the old values and the way back to the old scope are still there. -/
structure Kept (m₀ : Machine) (h : Handler) (m : Machine) : Prop where
  frames : ∃ upper, m.frames = upper ++ m₀.frames ∧
    m.scopes.LeadsBack m₀.scope h.scopeDepth h.stackHeight upper m.scope m.scopeDepth
  stack : ∃ top, m.stack = top ++ m₀.stack

theorem Kept.same (hk : Kept m₀ h m) (hs : m.Same n) : Kept m₀ h n := by
  obtain ⟨upper, hframes, hback⟩ := hk.frames
  refine ⟨⟨upper, hs.frames.trans hframes, ?_⟩, hs.stack ▸ hk.stack⟩
  rw [hs.scopes, hs.scope, hs.scopeDepth]
  exact hback

theorem Kept.callDepth_le (hk : Kept m₀ h m) (rem : h.Remembers m₀) :
    h.callDepth ≤ m.frames.length := by
  obtain ⟨upper, hframes, -⟩ := hk.frames
  rw [hframes, List.length_append, rem.callDepth]
  omega

/-- Values may come and go above the old ones. -/
theorem Kept.quiet (hk : Kept m₀ h m) (hq : m.Quiet n)
    (stack : ∃ top, n.stack = top ++ m₀.stack) : Kept m₀ h n := by
  obtain ⟨upper, hframes, hback⟩ := hk.frames
  refine ⟨⟨upper, hq.frames.trans hframes, ?_⟩, stack⟩
  rw [hq.scope, hq.scopeDepth]
  exact hback.extend hq.parents

theorem Kept.push (hk : Kept m₀ h m) (v : Value) : Kept m₀ h (m.push v) := by
  obtain ⟨top, htop⟩ := hk.stack
  exact hk.quiet (m.quiet_stack _) ⟨v :: top, congrArg (v :: ·) htop⟩

theorem Kept.calm {takes puts : Nat} (hk : Kept m₀ h m) (rem : h.Remembers m₀)
    (hc : m.Calm takes puts n) (room : h.stackHeight + takes ≤ m.stack.length) : Kept m₀ h n := by
  refine hk.quiet hc.toQuiet ?_
  obtain ⟨top, htop⟩ := hk.stack
  obtain ⟨new, -, hnew⟩ := hc.stack
  have hle : takes ≤ top.length := by
    rw [htop, List.length_append, rem.stackHeight] at room
    omega
  refine ⟨new ++ top.drop takes, ?_⟩
  rw [hnew, htop, List.drop_append_of_le_length hle, List.append_assoc]

theorem Kept.enterFrame (hk : Kept m₀ h m) (rem : h.Remembers m₀) (c : Closure)
    (self : Option Value) (args : List Value) (callback : Bool) :
    Kept m₀ h (m.enterFrame c self args callback) := by
  obtain ⟨upper, hframes, hback⟩ := hk.frames
  obtain ⟨top, htop⟩ := hk.stack
  let f : Frame := ⟨c.name, m.ip, m.pc, m.scope, m.scopeDepth, m.stack.length, callback⟩
  refine ⟨⟨f :: upper, congrArg (f :: ·) hframes, ?_, ?_⟩, top, htop⟩
  · change h.stackHeight ≤ m.stack.length
    rw [htop, List.length_append, rem.stackHeight]
    omega
  · exact hback.extend ((Scopes.extends_push _ _).trans (Scopes.extends_bindings _ _ _))

theorem Kept.pushScope (hk : Kept m₀ h m) : Kept m₀ h m.pushScope := by
  obtain ⟨upper, hframes, hback⟩ := hk.frames
  have hback' := hback.extend (Scopes.extends_push m.scopes (some m.scope))
  refine ⟨⟨upper, hframes, ?_⟩, hk.stack⟩
  cases upper with
  | nil =>
    obtain ⟨hle, hclimb⟩ := hback'
    have hone : m.scopeDepth + 1 - h.scopeDepth = m.scopeDepth - h.scopeDepth + 1 := by omega
    refine ⟨Nat.le_succ_of_le hle, ?_⟩
    change (m.scopes.push (some m.scope)).2.climb (m.scopeDepth + 1 - h.scopeDepth)
      m.scopes.cells.size = some m₀.scope
    rw [hone, Scopes.climb, Scopes.parent?_push_fresh]
    exact hclimb
  | cons f fs => exact hback'

/-- In the frame of the handler, scopes are left down to its depth only. -/
theorem Kept.leaveScopes (hk : Kept m₀ h m) (rem : h.Remembers m₀) (k : Nat)
    (inside : m.frames.length = h.callDepth → h.scopeDepth + k ≤ m.scopeDepth) :
    Kept m₀ h (leaveScopes k m) := by
  induction k generalizing m with
  | zero => exact hk
  | succ k ih =>
    refine ih ?_ fun hlen => ?_
    · obtain ⟨upper, hframes, hback⟩ := hk.frames
      refine ⟨⟨upper, hframes, ?_⟩, hk.stack⟩
      cases upper with
      | nil =>
        have hin := inside (by rw [hframes, rem.callDepth]; rfl)
        obtain ⟨hle, hclimb⟩ := hback
        obtain ⟨j, hj⟩ : ∃ j, m.scopeDepth - h.scopeDepth = j + 1 :=
          ⟨m.scopeDepth - h.scopeDepth - 1, by omega⟩
        rw [hj, Scopes.climb] at hclimb
        obtain ⟨parent, hparent, hclimb⟩ := Option.bind_eq_some_iff.mp hclimb
        have hscope : m.leaveScope.scope = parent := by
          change (m.scopes.parent? m.scope).getD World.globals = parent
          rw [hparent, Option.getD_some]
        have hdepth : m.leaveScope.scopeDepth - h.scopeDepth = j := by
          change m.scopeDepth - 1 - h.scopeDepth = j
          omega
        refine ⟨?_, ?_⟩
        · change h.scopeDepth ≤ m.scopeDepth - 1
          omega
        · rw [hscope, hdepth]
          exact hclimb
      | cons f fs => exact hback
    · have hin := inside hlen
      change h.scopeDepth + k ≤ m.scopeDepth - 1
      omega

theorem Kept.truncate (hk : Kept m₀ h m) (rem : h.Remembers m₀) {height : Nat}
    (above : h.stackHeight ≤ height) :
    Kept m₀ h { m with stack := truncated m.stack height } := by
  refine hk.quiet (m.quiet_stack _) ?_
  obtain ⟨top, htop⟩ := hk.stack
  have hle : m.stack.length - height ≤ top.length := by
    rw [htop, List.length_append]
    rw [rem.stackHeight] at above
    omega
  change ∃ kept, m.stack.drop (m.stack.length - height) = kept ++ m₀.stack
  generalize m.stack.length - height = count at hle
  refine ⟨top.drop count, ?_⟩
  rw [htop, List.drop_append_of_le_length hle]

theorem Kept.popFrame (hk : Kept m₀ h m) (rem : h.Remembers m₀)
    (inner : h.callDepth < m.frames.length) : Kept m₀ h m.popFrame := by
  obtain ⟨upper, hframes, hback⟩ := hk.frames
  cases upper with
  | nil =>
    rw [hframes, List.nil_append, rem.callDepth] at inner
    omega
  | cons f fs =>
    have hpop : m.popFrame = { { m with stack := truncated m.stack f.stackBase } with
        frames := fs ++ m₀.frames, scope := f.scope, scopeDepth := f.scopeDepth } := by
      unfold Machine.popFrame
      rw [hframes]
      rfl
    rw [hpop]
    exact ⟨⟨fs, rfl, hback.2⟩, (hk.truncate rem hback.1).stack⟩

theorem Kept.popFrames (hk : Kept m₀ h m) (rem : h.Remembers m₀) (k : Nat)
    (inner : h.callDepth + k ≤ m.frames.length) : Kept m₀ h (popFrames k m) := by
  induction k generalizing m with
  | zero => exact hk
  | succ k ih =>
    refine ih (hk.popFrame rem (by omega)) ?_
    rw [popFrame_frames, List.length_tail]
    omega

/-- The frames, scopes and values since a younger handler can go. -/
theorem Kept.unwindTo (hk : Kept m₀ h m) (rem : h.Remembers m₀) {a : Handler} (under : h.Under a)
    (framed : a.callDepth ≤ m.frames.length) : Kept m₀ h (m.unwindTo a) := by
  have hcall := under.callDepth
  have hframes := hk.popFrames rem (m.frames.length - a.callDepth) (by omega)
  have hscopes := hframes.leaveScopes rem
    (((Machine.popFrames (m.frames.length - a.callDepth) m).scopeDepth : Int) -
      a.scopeDepth).toNat (by
    intro hlen
    rw [popFrames_frames, List.length_drop] at hlen
    have hdepth := under.scopeDepth (by omega)
    obtain ⟨upper, hupper, hback⟩ := hframes.frames
    cases upper with
    | nil =>
      have hle := hback.1
      omega
    | cons f fs =>
      have hlong := congrArg List.length hupper
      rw [popFrames_frames, List.length_drop, List.length_append, List.length_cons,
        ← rem.callDepth] at hlong
      omega)
  exact hscopes.truncate rem under.stackHeight

theorem leaveScopes_handlers (k : Nat) (m : Machine) : (leaveScopes k m).handlers = m.handlers := by
  induction k generalizing m with
  | zero => rfl
  | succ k ih => exact ih m.leaveScope

/-- Unwinding comes down to the depth and the height of the handler. -/
theorem unwindTo_le (m : Machine) (h : Handler) :
    (m.unwindTo h).scopeDepth ≤ h.scopeDepth ∧ (m.unwindTo h).stack.length ≤ h.stackHeight := by
  refine ⟨?_, ?_⟩
  · change (leaveScopes _ _).scopeDepth ≤ h.scopeDepth
    rw [leaveScopes_scopeDepth]
    omega
  · change (List.drop _ _).length ≤ h.stackHeight
    rw [List.length_drop]
    omega

/-- Unwinding to the handler itself ends at the old scope, the old frames and the old values. -/
theorem Kept.unwindTo_self (hk : Kept m₀ h m) (rem : h.Remembers m₀) :
    (m.unwindTo h).scope = m₀.scope ∧ (m.unwindTo h).scopeDepth = h.scopeDepth ∧
      (m.unwindTo h).frames = m₀.frames ∧ (m.unwindTo h).stack = m₀.stack := by
  have hself : h.Under h := ⟨Nat.le_refl _, Nat.le_refl _, fun _ => Nat.le_refl _⟩
  have hframed := hk.callDepth_le rem
  have hall := hk.unwindTo rem hself hframed
  obtain ⟨hdepth, hheight⟩ := m.unwindTo_le h
  obtain ⟨upper, hframes, hback⟩ := hall.frames
  obtain ⟨top, htop⟩ := hall.stack
  have hupper : upper = [] := by
    have hlen := congrArg List.length hframes
    rw [unwindTo_frames, List.length_drop, List.length_append, ← rem.callDepth] at hlen
    exact List.length_eq_zero_iff.mp (by omega)
  have hnone : top = [] := by
    rw [htop, List.length_append, rem.stackHeight] at hheight
    exact List.length_eq_zero_iff.mp (by omega)
  subst hupper
  obtain ⟨hle, hclimb⟩ := hback
  have hzero : (m.unwindTo h).scopeDepth - h.scopeDepth = 0 := by omega
  rw [hzero] at hclimb
  refine ⟨Option.some.inj hclimb, by omega, hframes, ?_⟩
  rw [htop, hnone, List.nil_append]

/-- The state in which a handler was pushed is back, but for what its block is given: a catch block
finds the exception on the stack. -/
structure Restored (m₀ : Machine) (h : Handler) (rest : List Handler) (m : Machine) : Prop where
  scope : m.scope = m₀.scope
  scopeDepth : m.scopeDepth = h.scopeDepth
  frames : m.frames = m₀.frames
  block : (∃ exc, m.handlers = { h with phase := .catching } :: rest ∧
      m.stack = .exception exc :: m₀.stack ∧ m.ip = h.catchAddr) ∨
    ∃ pending, pending ≠ .nothing ∧ m.handlers = { h with phase := .finalizing pending } :: rest ∧
      m.stack = m₀.stack ∧ m.ip = h.finallyAddr

/-- In the frame of the handler, its scope has not been left. -/
def Inside (h : Handler) (m : Machine) : Prop :=
  m.frames.length = h.callDepth → h.scopeDepth ≤ m.scopeDepth

/-- What a step makes of a machine that has kept what a handler remembers: unless the handler is gone,
it still does, or it is back at where the handler was pushed. -/
def Goes (m₀ : Machine) (h : Handler) (rest : List Handler) (p : Phase) (n : Machine) : Prop :=
  rest.length < n.handlers.length →
    Held h rest p n.handlers ∧ (Inside h n → Kept m₀ h n) ∨ Restored m₀ h rest n

theorem Restored.kept (hr : Restored m₀ h rest m) : Kept m₀ h m := by
  have hback : m.scopes.LeadsBack m₀.scope h.scopeDepth h.stackHeight [] m.scope m.scopeDepth := by
    refine ⟨Nat.le_of_eq hr.scopeDepth.symm, ?_⟩
    rw [hr.scopeDepth, Nat.sub_self, Scopes.climb, hr.scope]
  refine ⟨⟨[], hr.frames, hback⟩, ?_⟩
  obtain ⟨exc, -, hstack, -⟩ | ⟨pending, -, -, hstack, -⟩ := hr.block
  · exact ⟨[.exception exc], hstack⟩
  · exact ⟨[], hstack⟩

theorem Restored.held (hr : Restored m₀ h rest m) : ∃ p, Held h rest p m.handlers := by
  obtain ⟨exc, hh, -⟩ | ⟨pending, -, hh, -⟩ := hr.block
  · exact ⟨.catching, fun _ => ⟨[], hh, by simp⟩⟩
  · exact ⟨.finalizing pending, fun _ => ⟨[], hh, by simp⟩⟩

/-- A transfer that does not pass the handler lands above it or in one of its blocks. -/
theorem Kept.lands (hk : Kept m₀ h m) (rem : h.Remembers m₀) (ranked : m.Ranked)
    (held : Held h rest p m.handlers) (hl : m.LandsLike m.handlers n) : Goes m₀ h rest p n := by
  intro stays
  obtain ⟨q, hq, hsame, hhandlers, hip⟩ := hl
  have hself := hk.unwindTo_self rem
  cases hq with
  | @caught above below a exc found trying has =>
    rw [hhandlers] at stays
    rw [found] at held
    obtain ⟨hunder, ⟨rfl, rfl⟩ | hheld⟩ := held.under (Nat.le_of_lt_succ stays)
    · refine Or.inr ⟨hsame.scope.trans hself.1, hsame.scopeDepth.trans hself.2.1,
        hsame.frames.trans hself.2.2.1, Or.inl ⟨exc, hhandlers, ?_, hip⟩⟩
      exact hsame.stack.trans (congrArg (Value.exception exc :: ·) hself.2.2.2)
    · refine Or.inl ⟨hhandlers ▸ hheld .catching, fun _ => ?_⟩
      have hframed := ranked.framed a (by rw [found]; simp)
      have hpush := (hk.unwindTo rem hunder hframed).push (.exception exc)
      have hcatch : ((m.unwindTo a).push (.exception exc)).Same (m.enterCatch a below exc) :=
        ⟨rfl, rfl, rfl, rfl, rfl⟩
      exact hpush.same (hcatch.trans hsame)
  | @entered above below a pending found fresh has some =>
    rw [hhandlers] at stays
    rw [found] at held
    obtain ⟨hunder, ⟨rfl, rfl⟩ | hheld⟩ := held.under (Nat.le_of_lt_succ stays)
    · refine Or.inr ⟨hsame.scope.trans hself.1, hsame.scopeDepth.trans hself.2.1,
        hsame.frames.trans hself.2.2.1, Or.inr ⟨pending, some, hhandlers, ?_, hip⟩⟩
      exact hsame.stack.trans hself.2.2.2
    · refine Or.inl ⟨hhandlers ▸ hheld (.finalizing pending), fun _ => ?_⟩
      have hframed := ranked.framed a (by rw [found]; simp)
      have henter : (m.unwindTo a).Same (m.enterFinally a below pending) :=
        ⟨rfl, rfl, rfl, rfl, rfl⟩
      exact (hk.unwindTo rem hunder hframed).same (henter.trans hsame)

end Machine

end BytecodeMachine
