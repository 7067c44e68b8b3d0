import BytecodeMachine.Proofs.Machine.Natural

/-! Where transfers land. A throw, a return or a leave that finds a handler with something left to run
enters a block of it; the handlers above are dropped, those below stay. An exception that passes
native loops on its way lands where it would land without them. -/
namespace BytecodeMachine

variable {s : Setup}

namespace Machine

/-- The same frames, scopes and values on the stack. -/
structure Same (m n : Machine) : Prop where
  frames : n.frames = m.frames
  scope : n.scope = m.scope
  scopeDepth : n.scopeDepth = m.scopeDepth
  stack : n.stack = m.stack
  scopes : n.scopes = m.scopes

theorem Same.refl (m : Machine) : m.Same m := ⟨rfl, rfl, rfl, rfl, rfl⟩

theorem Same.trans {m n o : Machine} (h : m.Same n) (h' : n.Same o) : m.Same o :=
  ⟨h'.frames.trans h.frames, h'.scope.trans h.scope, h'.scopeDepth.trans h.scopeDepth,
    h'.stack.trans h.stack, h'.scopes.trans h.scopes⟩

/-- A transfer that meets some handlers from the top down has come into a block of one of them. -/
inductive Lands (m : Machine) (handlers : List Handler) : Machine → Prop
  | caught (above : List Handler) {rest : List Handler} {h : Handler} (exc : Nat)
      (found : handlers = above ++ h :: rest) (trying : h.phase = .trying)
      (has : h.hasCatch = true) : Lands m handlers (m.enterCatch h rest exc)
  | entered (above : List Handler) {rest : List Handler} {h : Handler} (pending : Pending)
      (found : handlers = above ++ h :: rest) (fresh : h.isFinalizing = false)
      (has : h.hasFinally = true) (some : pending ≠ .nothing) :
      Lands m handlers (m.enterFinally h rest pending)

variable {m : Machine}

/-- Handlers further up are only passed. -/
theorem Lands.under {handlers : List Handler} {n : Machine} (above : List Handler)
    (h : m.Lands handlers n) : m.Lands (above ++ handlers) n := by
  cases h with
  | caught above' exc found trying has =>
    refine .caught (above ++ above') exc ?_ trying has
    rw [found, List.append_assoc]
  | entered above' pending found fresh has some =>
    refine .entered (above ++ above') pending ?_ fresh has some
    rw [found, List.append_assoc]

/-- An exception lands at a handler inside the loop, or it leaves the frames inside the loop and the
handlers that it has passed. -/
theorem throwTo_lands (m : Machine) (exc boundary : Nat) (handlers : List Handler) :
    match m.throwTo exc boundary handlers with
    | .handled n => m.Lands handlers n
    | .escaped n => ∃ above rest, handlers = above ++ rest ∧
        (∀ h ∈ rest.head?, h.callDepth < boundary) ∧
        n = popFrames (m.frames.length + 1 - max boundary 1) { m with handlers := rest } := by
  have ht := throwTo_throws m exc boundary handlers
  generalize m.throwTo exc boundary handlers = t at ht ⊢
  cases ht with
  | caught above found _ _ trying has => exact .caught above exc found trying has
  | entered above found _ _ has fresh => exact .entered above (.exception exc) found fresh has (by simp)
  | escaped above found _ outside => exact ⟨above, _, found, outside, rfl⟩

/-- A return that finds nothing to run leaves the handlers of the frames below. -/
theorem returnThrough_lands (m : Machine) (v : Value) (handlers : List Handler) :
    match m.returnThrough v handlers with
    | .inl n => m.Lands handlers n
    | .inr n => ∃ above rest, handlers = above ++ rest ∧ n = { m with handlers := rest } ∧
        ∀ h ∈ rest.head?, h.callDepth ≠ m.frames.length := by
  have hr := returnThrough_defers m v handlers
  generalize m.returnThrough v handlers = r at hr ⊢
  cases hr with
  | entered above found _ _ has fresh => exact .entered above (.giveBack v) found fresh has (by simp)
  | out above found _ stays => exact ⟨above, _, found, rfl, stays⟩

theorem leaveThrough_lands (m : Machine) (target dest : Int) (handlers : List Handler) :
    match m.leaveThrough target dest handlers with
    | .inl n => m.Lands handlers n
    | .inr n => ∃ above rest, handlers = above ++ rest ∧ n = { m with handlers := rest } := by
  have hl := leaveThrough_defers m target dest handlers
  generalize m.leaveThrough target dest handlers = r at hl ⊢
  cases hl with
  | entered above found _ _ has fresh => exact .entered above _ found fresh has (by simp)
  | out above found => exact ⟨above, _, found, rfl⟩

theorem Same.popFrames {n : Machine} (h : m.Same n) (k : Nat) :
    (popFrames k m).Same (popFrames k n) := by
  induction k generalizing m n with
  | zero => exact h
  | succ k ih =>
    apply ih
    unfold popFrame
    rw [h.frames]
    cases m.frames with
    | nil => exact h
    | cons f fs =>
      refine ⟨rfl, rfl, rfl, ?_, h.scopes⟩
      change truncated n.stack f.stackBase = truncated m.stack f.stackBase
      rw [h.stack]

theorem Same.leaveScopes {n : Machine} (h : m.Same n) (k : Nat) :
    (leaveScopes k m).Same (leaveScopes k n) := by
  induction k generalizing m n with
  | zero => exact h
  | succ k ih =>
    apply ih
    refine ⟨h.frames, ?_, ?_, h.stack, h.scopes⟩
    · change (n.scopes.parent? n.scope).getD World.globals =
        (m.scopes.parent? m.scope).getD World.globals
      rw [h.scopes, h.scope]
    · change n.scopeDepth - 1 = m.scopeDepth - 1
      rw [h.scopeDepth]

/-- What is unwound depends on the frames, the scopes and the stack only. -/
theorem Same.unwindTo {n : Machine} (h : m.Same n) (d : Handler) :
    (m.unwindTo d).Same (n.unwindTo d) := by
  have hframes := h.popFrames (m.frames.length - d.callDepth)
  have hlen : n.frames.length = m.frames.length := congrArg List.length h.frames
  unfold Machine.unwindTo leaveScopesTo
  dsimp only
  rw [hlen, hframes.scopeDepth]
  have hscopes := hframes.leaveScopes
    (((Machine.popFrames (m.frames.length - d.callDepth) m).scopeDepth : Int) - d.scopeDepth).toNat
  refine ⟨hscopes.frames, hscopes.scope, hscopes.scopeDepth, ?_, hscopes.scopes⟩
  change truncated _ d.stackHeight = truncated _ d.stackHeight
  rw [hscopes.stack]

/-- Frames that are dropped on the way to a handler below them make no difference. -/
theorem unwindTo_popFrames {m : Machine} {h : Handler} (k : Nat)
    (below : h.callDepth + k ≤ m.frames.length) :
    (popFrames k m).unwindTo h = m.unwindTo h := by
  induction k generalizing m with
  | zero => rfl
  | succ k ih =>
    have hlen : m.popFrame.frames.length = m.frames.length - 1 := by
      rw [popFrame_frames, List.length_tail]
    rw [popFrames, ih (by omega), unwindTo_popFrame (by omega)]

/-- Where a machine has come to by a landing, but for its loops and what native code sees. -/
def LandsLike (m : Machine) (handlers : List Handler) (n : Machine) : Prop :=
  ∃ q, m.Lands handlers q ∧ q.Same n ∧ n.handlers = q.handlers ∧ n.ip = q.ip

/-- Landings agree where the ways to the handlers agree. -/
theorem LandsLike.of_unwindTo {n q : Machine} {handlers : List Handler}
    (h : n.LandsLike handlers q)
    (hu : ∀ d ∈ handlers, (m.unwindTo d).Same (n.unwindTo d)) : m.LandsLike handlers q := by
  obtain ⟨q', h, hsame, hhandlers, hip⟩ := h
  cases h with
  | @caught above rest d exc found trying has =>
    have hd := hu d (by rw [found]; simp)
    have hstack := congrArg (Value.exception exc :: ·) hd.stack
    have hcatch : (m.enterCatch d rest exc).Same (n.enterCatch d rest exc) :=
      ⟨hd.frames, hd.scope, hd.scopeDepth, hstack, hd.scopes⟩
    exact ⟨_, .caught above exc found trying has, hcatch.trans hsame, hhandlers, hip⟩
  | @entered above rest d pending found fresh has some =>
    have hd := hu d (by rw [found]; simp)
    have henter : (m.enterFinally d rest pending).Same (n.enterFinally d rest pending) :=
      ⟨hd.frames, hd.scope, hd.scopeDepth, hd.stack, hd.scopes⟩
    exact ⟨_, .entered above pending found fresh has some, henter.trans hsame, hhandlers, hip⟩

theorem exceptionOf_same {n : Machine} {f : Failure} {id : Nat}
    (h : m.exceptionOf f = some (id, n)) : m.Same n := by
  unfold exceptionOf at h
  split at h
  · cases h
    exact ⟨rfl, rfl, rfl, rfl, rfl⟩
  · cases h
    exact Same.refl m
  · cases h

theorem stamp_same (m : Machine) (id : Nat) : m.Same (stamp s m id) := by
  unfold stamp
  dsimp only
  split
  · exact Same.refl m
  · exact ⟨rfl, rfl, rfl, rfl, rfl⟩

/-- The handlers of a machine as far as unwinding relies on them: further up they belong to inner
frames, and those frames are there. -/
structure Ranked (m : Machine) : Prop where
  sorted : m.handlers.Pairwise fun h below => below.callDepth ≤ h.callDepth
  framed : ∀ h ∈ m.handlers, h.callDepth ≤ m.frames.length

theorem WellFormed.ranked {bases : List Nat} (h : m.WellFormed s bases) : m.Ranked :=
  ⟨h.handlers_sorted, h.handlers_framed⟩

/-- The handlers below one that lies outside a loop lie outside of it too. -/
theorem outside_of_head {handlers : List Handler} {boundary : Nat}
    (sorted : handlers.Pairwise fun h below => below.callDepth ≤ h.callDepth)
    (head : ∀ h ∈ handlers.head?, h.callDepth < boundary) :
    ∀ h ∈ handlers, h.callDepth < boundary := by
  intro d hd
  cases handlers with
  | nil => cases hd
  | cons top rest =>
    have htop := head top rfl
    rcases List.mem_cons.mp hd with rfl | hd
    · exact htop
    · have := List.rel_of_pairwise_cons sorted hd
      omega

/-- The frames inside a loop can go before the handlers outside of it are looked at. -/
theorem Ranked.escape {rest above : List Handler} (ranked : m.Ranked) {boundary : Nat}
    (split : m.handlers = above ++ rest) (head : ∀ h ∈ rest.head?, h.callDepth < boundary) :
    let n := popFrames (m.frames.length + 1 - max boundary 1) { m with handlers := rest }
    n.handlers = rest ∧ n.Ranked ∧ ∀ h ∈ rest, (m.unwindTo h).Same (n.unwindTo h) := by
  intro n
  let k := m.frames.length + 1 - max boundary 1
  have hhandlers : n.handlers = rest := popFrames_handlers k _
  have hframes : n.frames = m.frames.drop k := popFrames_frames k _
  have hsorted : rest.Pairwise fun h below => below.callDepth ≤ h.callDepth := by
    have hall := ranked.sorted
    rw [split] at hall
    exact (List.pairwise_append.mp hall).2.1
  have hframed (d : Handler) (hd : d ∈ rest) : d.callDepth ≤ m.frames.length :=
    ranked.framed d (by rw [split]; exact List.mem_append_right above hd)
  have hbelow := outside_of_head hsorted head
  refine ⟨hhandlers, ⟨?_, ?_⟩, ?_⟩
  · rw [hhandlers]
    exact hsorted
  · intro d hd
    rw [hhandlers] at hd
    have h₁ := hbelow d hd
    have h₂ := hframed d hd
    rw [hframes, List.length_drop]
    omega
  · intro d hd
    have h₁ := hbelow d hd
    have h₂ := hframed d hd
    have hsame : m.Same { m with handlers := rest } := ⟨rfl, rfl, rfl, rfl, rfl⟩
    -- The frames that are dropped are above the depth of every handler that is left.
    by_cases hk : k = 0
    · have hn : n = { m with handlers := rest } := by
        change popFrames k _ = _
        rw [hk]
        rfl
      rw [hn]
      exact hsame.unwindTo d
    · have hn : n.unwindTo d = { m with handlers := rest }.unwindTo d :=
        unwindTo_popFrames k (show d.callDepth + k ≤ m.frames.length by omega)
      rw [hn]
      exact hsame.unwindTo d

theorem Ranked.same {n : Machine} (ranked : m.Ranked) (hs : m.Same n)
    (hh : n.handlers = m.handlers) : n.Ranked := by
  refine ⟨?_, ?_⟩
  · rw [hh]
    exact ranked.sorted
  · rw [hh, hs.frames]
    exact ranked.framed

theorem markFinalizing_same (m : Machine) : m.Same m.markFinalizing := by
  rw [markFinalizing_eq]
  exact ⟨rfl, rfl, rfl, rfl, rfl⟩

theorem begun_same (m : Machine) (ins : Instruction) : m.Same (m.begun s ins) := by
  obtain ⟨_, heq⟩ := m.begun_eq (s := s) ins
  rw [heq]
  exact ⟨rfl, rfl, rfl, rfl, rfl⟩

theorem Ranked.mark (ranked : m.Ranked) : m.markFinalizing.Ranked := by
  unfold markFinalizing
  split
  · exact ranked
  · next h rest top =>
    split
    · obtain ⟨hsorted, hframed⟩ := ranked
      rw [top] at hsorted hframed
      obtain ⟨hs, hsorted⟩ := List.pairwise_cons.mp hsorted
      obtain ⟨hf, hframed⟩ := List.forall_mem_cons.mp hframed
      exact ⟨List.pairwise_cons.mpr ⟨hs, hsorted⟩, List.forall_mem_cons.mpr ⟨hf, hframed⟩⟩
    · exact ranked

theorem Ranked.begun (ranked : m.Ranked) (ins : Instruction) : (m.begun s ins).Ranked := by
  have htick : m.tick.Ranked := ⟨ranked.sorted, ranked.framed⟩
  refine htick.mark.same ?_ (begun_handlers m ins)
  unfold Machine.begun traced
  split <;> exact ⟨rfl, rfl, rfl, rfl, rfl⟩

/-- An offer to the handlers inside a loop lands, or what is left lies outside the loop. -/
theorem offer_lands (s : Setup) (f : Failure) (boundary : Nat) (ranked : m.Ranked) :
    match m.offer s f boundary with
    | .inl n => m.LandsLike m.handlers n
    | .inr (_, n) => (∃ above, m.handlers = above ++ n.handlers) ∧ n.Ranked ∧
        ∀ h ∈ n.handlers, (m.unwindTo h).Same (n.unwindTo h) := by
  unfold offer
  cases he : m.exceptionOf f with
  | none => exact ⟨⟨[], rfl⟩, ranked, fun h _ => Same.refl _⟩
  | some e =>
    obtain ⟨id, n⟩ := e
    have hsame : m.Same (stamp s n id) := (exceptionOf_same he).trans (stamp_same n id)
    have hhandlers : n.handlers = m.handlers := (exceptionOf_quiet he).handlers
    have hstamp : (stamp s n id).handlers = m.handlers := (stamp_quiet n id).handlers.trans hhandlers
    have hlands := throwTo_lands (stamp s n id) id boundary m.handlers
    dsimp only [throwException]
    rw [hhandlers]
    cases ht : (stamp s n id).throwTo id boundary m.handlers with
    | handled o =>
      rw [ht] at hlands
      have hlike : (stamp s n id).LandsLike m.handlers { o with control := .fetch } :=
        ⟨o, hlands, ⟨rfl, rfl, rfl, rfl, rfl⟩, rfl, rfl⟩
      exact hlike.of_unwindTo fun d _ => hsame.unwindTo d
    | escaped o =>
      rw [ht] at hlands
      obtain ⟨above, rest, hsplit, hhead, rfl⟩ := hlands
      have hranked := ranked.same hsame hstamp
      obtain ⟨hrest, hranked', hunwind⟩ := hranked.escape (hstamp.trans hsplit) hhead
      refine ⟨⟨above, ?_⟩, hranked', fun d hd => ?_⟩
      · rw [hsplit]
        exact congrArg (above ++ ·) hrest.symm
      · rw [hrest] at hd
        exact (hsame.unwindTo d).trans (hunwind d hd)

/-- However many loops a failure passes, it lands as if it met the handlers at once. -/
theorem fail_lands {inside : Bool} {f : Failure} {n : Machine} {L : List Loop} (ranked : m.Ranked)
    (h : fail s inside f m L = .running n) : m.LandsLike m.handlers n := by
  induction L generalizing inside f m with
  | nil =>
    have hoffer := offer_lands s f 0 ranked
    unfold fail at h
    cases ho : m.offer s f 0 with
    | inl o =>
      rw [ho] at h hoffer
      cases h
      obtain ⟨q, hq, hsame, hhandlers, hip⟩ := hoffer
      exact ⟨q, hq, hsame.trans ⟨rfl, rfl, rfl, rfl, rfl⟩, hhandlers, hip⟩
    | inr e =>
      rw [ho] at h
      cases h
  | cons l L ih =>
    -- Whoever is landed on further out has found what it would have found from here.
    have hpass {o : Machine} {f : Failure} {inside : Bool}
        (hsplit : ∃ above, m.handlers = above ++ o.handlers) (hranked : o.Ranked)
        (hu : ∀ h ∈ o.handlers, (m.unwindTo h).Same (o.unwindTo h))
        (h : fail s inside f { o with ip := l.ip, pc := l.pc } L = .running n) :
        m.LandsLike m.handlers n := by
      have hback : o.Same { o with ip := l.ip, pc := l.pc } := ⟨rfl, rfl, rfl, rfl, rfl⟩
      have hlands := ih (hranked.same hback rfl) h
      obtain ⟨q, hq, hrest⟩ := hlands.of_unwindTo fun d hd => (hu d hd).trans (hback.unwindTo d)
      obtain ⟨above, hsplit⟩ := hsplit
      rw [hsplit]
      exact ⟨q, hq.under above, hrest⟩
    unfold fail at h
    cases inside with
    | false => exact hpass ⟨[], rfl⟩ ranked (fun d _ => Same.refl _) h
    | true =>
      have hoffer := offer_lands s f l.boundary ranked
      simp only [if_true] at h
      cases ho : m.offer s f l.boundary with
      | inl o =>
        rw [ho] at h hoffer
        cases h
        obtain ⟨q, hq, hsame, hhandlers, hip⟩ := hoffer
        exact ⟨q, hq, hsame.trans ⟨rfl, rfl, rfl, rfl, rfl⟩, hhandlers, hip⟩
      | inr e =>
        rw [ho] at h hoffer
        exact hpass hoffer.1 hoffer.2.1 hoffer.2.2 h

end Machine

end BytecodeMachine
