import BytecodeMachine.Proofs.Machine.Ordinary
import BytecodeMachine.Proofs.Machine.Signal

/-! Machines among other frames and loops. Frames count by what they restore; who a frame returns to
matters to its return alone, and the loops around matter to no instruction. So instructions, and
exceptions on their way to a handler, do the same among frames that are alike. -/
namespace BytecodeMachine

variable {s : Setup}

/-- A frame without regard to who called it. -/
def Frame.anyCaller (f : Frame) : Frame := { f with callback := false }

theorem Frame.eq_of_anyCaller {f g : Frame} (h : f.anyCaller = g.anyCaller) :
    f = { g with callback := f.callback } := by
  cases f
  cases g
  cases h
  rfl

/-- The same frames up to who called them. -/
def FramesAlike (F G : List Frame) : Prop := F.map Frame.anyCaller = G.map Frame.anyCaller

namespace FramesAlike

variable {F G : List Frame}

theorem refl (F : List Frame) : FramesAlike F F := rfl

theorem length (h : FramesAlike F G) : F.length = G.length := by
  have hlen := congrArg List.length h
  rwa [List.length_map, List.length_map] at hlen

theorem drop (h : FramesAlike F G) (n : Nat) : FramesAlike (F.drop n) (G.drop n) := by
  unfold FramesAlike
  rw [List.map_drop, List.map_drop]
  exact congrArg (List.drop n) h

theorem cons_right {g : Frame} (h : FramesAlike F (g :: G)) :
    ∃ f F', F = f :: F' ∧ f.anyCaller = g.anyCaller ∧ FramesAlike F' G := by
  obtain ⟨f, F', hF, hf, hF'⟩ := List.map_eq_cons_iff.mp h
  exact ⟨f, F', hF, hf, hF'⟩

theorem cons {f g : Frame} (hf : f.anyCaller = g.anyCaller) (h : FramesAlike F G) :
    FramesAlike (f :: F) (g :: G) := by
  unfold FramesAlike
  rw [List.map_cons, List.map_cons, hf]
  exact congrArg (g.anyCaller :: ·) h

theorem nil_right (h : FramesAlike F []) : F = [] := List.map_eq_nil_iff.mp h

end FramesAlike

namespace Machine

variable {m : Machine} {F : List Frame}

theorem popFrame_dress (h : FramesAlike F m.frames) (L : List Loop) :
    (m.dress F L).popFrame = m.popFrame.dress F.tail L := by
  cases hm : m.frames with
  | nil =>
    rw [hm] at h
    rw [h.nil_right]
    unfold popFrame
    rw [hm]
    rfl
  | cons g G =>
    rw [hm] at h
    obtain ⟨f, F', rfl, hf, -⟩ := h.cons_right
    rw [Frame.eq_of_anyCaller hf]
    unfold popFrame
    rw [hm]
    rfl

theorem popFrames_dress (n : Nat) (h : FramesAlike F m.frames) (L : List Loop) :
    popFrames n (m.dress F L) = (popFrames n m).dress (F.drop n) L := by
  induction n generalizing m F with
  | zero => rfl
  | succ n ih =>
    have htail : FramesAlike F.tail m.popFrame.frames := by
      rw [popFrame_frames, ← List.drop_one, ← List.drop_one]
      exact h.drop 1
    rw [popFrames, popFrame_dress h, ih htail, popFrames, List.drop_tail]

theorem leaveScopes_dress (n : Nat) (m : Machine) (F : List Frame) (L : List Loop) :
    leaveScopes n (m.dress F L) = (leaveScopes n m).dress F L := by
  induction n generalizing m with
  | zero => rfl
  | succ n ih => exact ih m.leaveScope

theorem leaveScopesTo_dress (depth : Int) (m : Machine) (F : List Frame) (L : List Loop) :
    (m.dress F L).leaveScopesTo depth = (m.leaveScopesTo depth).dress F L :=
  leaveScopes_dress _ m F L

theorem leaveScopes_frames (n : Nat) (m : Machine) : (leaveScopes n m).frames = m.frames := by
  induction n generalizing m with
  | zero => rfl
  | succ n ih => exact ih m.leaveScope

theorem unwindTo_frames (m : Machine) (h : Handler) :
    (m.unwindTo h).frames = m.frames.drop (m.frames.length - h.callDepth) := by
  unfold unwindTo leaveScopesTo
  dsimp only
  rw [leaveScopes_frames, popFrames_frames]

theorem unwindTo_dress (hF : FramesAlike F m.frames) (L : List Loop) (h : Handler) :
    (m.dress F L).unwindTo h =
      (m.unwindTo h).dress (F.drop (m.frames.length - h.callDepth)) L := by
  unfold unwindTo
  dsimp only
  rw [show (m.dress F L).frames.length = m.frames.length from hF.length, popFrames_dress _ hF,
    leaveScopesTo_dress]
  rfl

/-- The innermost of the given frames, as many as the machine has left. -/
def redress (m : Machine) (F : List Frame) (L : List Loop) : Machine :=
  m.dress (F.drop (F.length - m.frames.length)) L

theorem redress_of_drop {n : Machine} {k : Nat} (hn : n.frames = m.frames.drop k)
    (hF : FramesAlike F m.frames) (L : List Loop) : n.redress F L = n.dress (F.drop k) L := by
  have hlen := hF.length
  unfold redress
  rw [hn, List.length_drop, hlen]
  by_cases hk : k ≤ m.frames.length
  · rw [Nat.sub_sub_self hk]
  · rw [List.drop_eq_nil_of_le (by omega), List.drop_eq_nil_of_le (by omega)]

theorem enterFinally_dress (hF : FramesAlike F m.frames) (L : List Loop) (h : Handler)
    (rest : List Handler) (pending : Pending) :
    (m.dress F L).enterFinally h rest pending = (m.enterFinally h rest pending).redress F L := by
  have hframes : (m.enterFinally h rest pending).frames =
      m.frames.drop (m.frames.length - h.callDepth) := unwindTo_frames m h
  rw [redress_of_drop hframes hF]
  unfold enterFinally
  dsimp only
  rw [unwindTo_dress hF]
  rfl

theorem enterCatch_dress (hF : FramesAlike F m.frames) (L : List Loop) (h : Handler)
    (rest : List Handler) (exc : Nat) :
    (m.dress F L).enterCatch h rest exc = (m.enterCatch h rest exc).redress F L := by
  have hframes : (m.enterCatch h rest exc).frames =
      m.frames.drop (m.frames.length - h.callDepth) := unwindTo_frames m h
  rw [redress_of_drop hframes hF]
  unfold enterCatch
  dsimp only
  rw [unwindTo_dress hF]
  rfl

theorem redress_of_frames {n : Machine} (hn : n.frames = m.frames) (hF : FramesAlike F m.frames)
    (L : List Loop) : n.redress F L = n.dress F L :=
  redress_of_drop (k := 0) hn hF L

/-- A finally block of the current frame is entered without a look at the frames. -/
theorem enterFinally_dress_here (hF : FramesAlike F m.frames) (L : List Loop) {h : Handler}
    (here : h.callDepth = m.frames.length) (rest : List Handler) (pending : Pending) :
    (m.enterFinally h rest pending).frames = m.frames ∧
      (m.dress F L).enterFinally h rest pending = (m.enterFinally h rest pending).dress F L := by
  have hframes : (m.enterFinally h rest pending).frames = m.frames := by
    change (m.unwindTo h).frames = m.frames
    rw [unwindTo_frames, here, Nat.sub_self, List.drop_zero]
  rw [enterFinally_dress hF, redress_of_frames hframes hF]
  exact ⟨hframes, rfl⟩

theorem scopeFloor_dress (hF : FramesAlike F m.frames) (L : List Loop) :
    (m.dress F L).scopeFloor = m.scopeFloor := by
  rw [scopeFloor_eq, scopeFloor_eq]
  change floorOf F = floorOf m.frames
  cases hm : m.frames with
  | nil =>
    rw [hm] at hF
    rw [hF.nil_right]
  | cons g G =>
    rw [hm] at hF
    obtain ⟨f, F', rfl, hf, -⟩ := hF.cons_right
    rw [Frame.eq_of_anyCaller hf]
    rfl

/-- The frames, loops and what is done next stay as they are. -/
structure Keeps (m n : Machine) : Prop where
  frames : n.frames = m.frames
  loops : n.loops = m.loops
  control : n.control = m.control

theorem Keeps.refl (m : Machine) : m.Keeps m := ⟨rfl, rfl, rfl⟩

theorem Keeps.trans {n o : Machine} (h : m.Keeps n) (h' : n.Keeps o) : m.Keeps o :=
  ⟨h'.frames.trans h.frames, h'.loops.trans h.loops, h'.control.trans h.control⟩

theorem Calm.keeps {n : Machine} {takes puts : Nat} (h : m.Calm takes puts n) : m.Keeps n :=
  ⟨h.frames, h.loops, h.control⟩

theorem leaveScopes_keeps (n : Nat) (m : Machine) : m.Keeps (leaveScopes n m) := by
  induction n generalizing m with
  | zero => exact Keeps.refl m
  | succ n ih =>
    have hone : m.Keeps m.leaveScope := ⟨rfl, rfl, rfl⟩
    exact hone.trans (ih m.leaveScope)

theorem enterFinally_keeps {h : Handler} (here : h.callDepth = m.frames.length)
    (rest : List Handler) (pending : Pending) : m.Keeps (m.enterFinally h rest pending) :=
  ⟨(enterFinally_dress_here (FramesAlike.refl m.frames) m.loops here rest pending).1,
    (m.unwindTo_control h).2, (m.unwindTo_control h).1⟩

/-- A return looks at the handlers of the current frame only, so the frames stay. -/
theorem returnThrough_dress (v : Value) (handlers : List Handler) :
    (∃ n, m.Keeps n ∧ ∀ F L, FramesAlike F m.frames →
        (m.dress F L).returnThrough v handlers = .inl (n.dress F L)) ∨
      ∃ rest, rest <:+ handlers ∧ ∀ F L, FramesAlike F m.frames →
        (m.dress F L).returnThrough v handlers =
          .inr ({ m with handlers := rest }.dress F L) := by
  induction handlers with
  | nil => exact Or.inr ⟨[], List.suffix_rfl, fun F L _ => rfl⟩
  | cons h rest ih =>
    by_cases hd : h.callDepth = m.frames.length
    · by_cases hf : (h.hasFinally && !h.isFinalizing) = true
      · refine Or.inl ⟨_, enterFinally_keeps hd rest (.giveBack v), fun F L hF => ?_⟩
        have hlen : ¬h.callDepth ≠ (m.dress F L).frames.length := by
          rw [not_not, hd]
          exact hF.length.symm
        rw [returnThrough, if_neg hlen, if_pos hf,
          (enterFinally_dress_here hF L hd rest (.giveBack v)).2]
      · have hpass (F : List Frame) (L : List Loop) (hF : FramesAlike F m.frames) :
            (m.dress F L).returnThrough v (h :: rest) = (m.dress F L).returnThrough v rest := by
          have hlen : ¬h.callDepth ≠ (m.dress F L).frames.length := by
            rw [not_not, hd]
            exact hF.length.symm
          rw [returnThrough, if_neg hlen, if_neg hf]
        rcases ih with ⟨n, hk, hn⟩ | ⟨rest', hleft, hn⟩
        · exact Or.inl ⟨n, hk, fun F L hF => (hpass F L hF).trans (hn F L hF)⟩
        · exact Or.inr ⟨rest', hleft.trans (List.suffix_cons h rest),
            fun F L hF => (hpass F L hF).trans (hn F L hF)⟩
    · refine Or.inr ⟨h :: rest, List.suffix_rfl, fun F L hF => ?_⟩
      have hlen : h.callDepth ≠ (m.dress F L).frames.length := by
        intro he
        exact hd (he.trans hF.length)
      rw [returnThrough, if_pos hlen]
      rfl

theorem leaveThrough_dress (target dest : Int) (handlers : List Handler) :
    (∃ n, m.Keeps n ∧ ∀ F L, FramesAlike F m.frames →
        (m.dress F L).leaveThrough target dest handlers = .inl (n.dress F L)) ∨
      ∃ rest, ∀ F L, FramesAlike F m.frames →
        (m.dress F L).leaveThrough target dest handlers =
          .inr ({ m with handlers := rest }.dress F L) := by
  induction handlers with
  | nil => exact Or.inr ⟨[], fun F L _ => rfl⟩
  | cons h rest ih =>
    have hsame (F : List Frame) (L : List Loop) (hF : FramesAlike F m.frames) :
        (h.callDepth = (m.dress F L).frames.length) = (h.callDepth = m.frames.length) := by
      rw [show (m.dress F L).frames.length = m.frames.length from hF.length]
    by_cases hc : (decide (h.callDepth = m.frames.length) && decide (dest ≤ (h.scopeDepth : Int)) &&
        !h.covers target) = true
    · have hd : h.callDepth = m.frames.length := by
        simp only [Bool.and_eq_true, decide_eq_true_eq] at hc
        exact hc.1.1
      by_cases hf : (h.hasFinally && !h.isFinalizing) = true
      · refine Or.inl ⟨_, enterFinally_keeps hd rest (.leave target ((h.scopeDepth : Int) - dest)),
          fun F L hF => ?_⟩
        simp only [leaveThrough, hsame F L hF]
        rw [if_pos hc, if_pos hf, (enterFinally_dress_here hF L hd rest _).2]
      · have hpass (F : List Frame) (L : List Loop) (hF : FramesAlike F m.frames) :
            (m.dress F L).leaveThrough target dest (h :: rest) =
              (m.dress F L).leaveThrough target dest rest := by
          simp only [leaveThrough, hsame F L hF]
          rw [if_pos hc, if_neg hf]
        rcases ih with ⟨n, hk, hn⟩ | ⟨rest', hn⟩
        · exact Or.inl ⟨n, hk, fun F L hF => (hpass F L hF).trans (hn F L hF)⟩
        · exact Or.inr ⟨rest', fun F L hF => (hpass F L hF).trans (hn F L hF)⟩
    · refine Or.inr ⟨h :: rest, fun F L hF => ?_⟩
      simp only [leaveThrough, hsame F L hF]
      rw [if_neg hc]
      rfl

/-- Where an exception goes does not depend on who called the frames it leaves. -/
theorem throwTo_dress (hF : FramesAlike F m.frames) (L : List Loop) (exc boundary : Nat)
    (handlers : List Handler) :
    (m.dress F L).throwTo exc boundary handlers =
      match m.throwTo exc boundary handlers with
      | .handled n => .handled (n.redress F L)
      | .escaped n => .escaped (n.redress F L) := by
  have hescape (handlers : List Handler) (k : Nat) :
      popFrames k { m.dress F L with handlers := handlers } =
        (popFrames k { m with handlers := handlers }).redress F L := by
    have hframes := popFrames_frames k { m with handlers := handlers }
    rw [redress_of_drop (m := { m with handlers := handlers }) hframes hF]
    exact popFrames_dress (m := { m with handlers := handlers }) k hF L
  have hlen : (m.dress F L).frames.length = m.frames.length := hF.length
  induction handlers with
  | nil =>
    simp only [throwTo, hlen]
    rw [hescape]
  | cons h rest ih =>
    simp only [throwTo, hlen]
    by_cases hb : h.callDepth < boundary
    · rw [if_pos hb, if_pos hb, hescape]
    · rw [if_neg hb, if_neg hb]
      by_cases hc : (decide (h.phase = .trying) && h.hasCatch) = true
      · rw [if_pos hc, if_pos hc, enterCatch_dress hF]
      · rw [if_neg hc, if_neg hc]
        by_cases hf : (!h.isFinalizing && h.hasFinally) = true
        · rw [if_pos hf, if_pos hf, enterFinally_dress hF]
        · rw [if_neg hf, if_neg hf]
          exact ih

theorem traceLines_alike {F G : List Frame} (h : FramesAlike F G) (pc : Int) :
    traceLines s pc F = traceLines s pc G := by
  induction G generalizing F pc with
  | nil => rw [h.nil_right]
  | cons g G ih =>
    obtain ⟨f, F', rfl, hf, hF'⟩ := h.cons_right
    rw [Frame.eq_of_anyCaller hf]
    simp only [traceLines]
    rw [ih hF']

theorem stamp_dress (hF : FramesAlike F m.frames) (L : List Loop) (id : Nat) :
    stamp s (m.dress F L) id = (stamp s m id).dress F L := by
  have hstamped : stamped s (m.dress F L) = stamped s m := by
    funext e
    unfold stamped
    rw [show (m.dress F L).frames = F from rfl, traceLines_alike hF]
    rfl
  by_cases hp : (m.world.store.exception id).positioned = true
  · have hd : ((m.dress F L).world.store.exception id).positioned = true := hp
    unfold stamp
    simp only [hp, hd, if_true]
  · have hd : ¬((m.dress F L).world.store.exception id).positioned = true := hp
    unfold stamp
    simp only [hp, hd, hstamped]
    rfl

theorem exceptionOf_dress (F : List Frame) (L : List Loop) (f : Failure) :
    (m.dress F L).exceptionOf f = (m.exceptionOf f).map fun e => (e.1, e.2.dress F L) := by
  cases f <;> rfl

theorem offer_dress (hF : FramesAlike F m.frames) (L : List Loop) (f : Failure) (boundary : Nat) :
    (m.dress F L).offer s f boundary =
      (m.offer s f boundary).map (·.redress F L) fun e => (e.1, e.2.redress F L) := by
  unfold offer
  rw [exceptionOf_dress]
  cases he : m.exceptionOf f with
  | none =>
    simp only [Option.map_none, Sum.map_inr]
    rw [redress_of_frames rfl hF]
  | some e =>
    obtain ⟨id, n⟩ := e
    have hn : n.frames = m.frames := (exceptionOf_quiet he).frames
    have hs : (stamp s n id).frames = m.frames := (stamp_quiet n id).frames.trans hn
    simp only [Option.map_some, throwException]
    rw [stamp_dress (hn ▸ hF), throwTo_dress (hs ▸ hF)]
    have hh : (n.dress F L).handlers = n.handlers := rfl
    rw [hh]
    cases throwTo (stamp s n id) id boundary n.handlers with
    | handled o => rfl
    | escaped o => rfl

end Machine

/-- The effect of an instruction: up to the frame that a return leaves, it is the same among frames
that are alike and among any loops. -/
inductive Effect.Natural (s : Setup) (m : Machine) (e : List Frame → List Loop → Effect) : Prop
  | next {n : Machine} (keeps : m.Keeps n)
      (same : ∀ F L, FramesAlike F m.frames → e F L = .next (n.dress F L))
  | failed {f : Failure} {n : Machine} (keeps : m.Keeps n) (left : n.handlers <:+ m.handlers)
      (usual : f.isException = true ∨ f.isFinal = true ∨ ∃ t, f = .output t)
      (same : ∀ F L, FramesAlike F m.frames → e F L = .failed f (n.dress F L))
  | enters {n : Machine} {c : Closure} {self : Option Value} {args : List Value}
      (keeps : m.Keeps n) (room : m.frames.length < s.maxCallDepth)
      (same : ∀ F L, FramesAlike F m.frames →
        e F L = .next ((n.dress F L).enterFrame c self args false))
  | loops {n : Machine} {l : Loop} (keeps : m.Keeps n) (place : l.ip = n.ip ∧ l.pc = n.pc)
      (boundary : l.boundary = m.frames.length + 1) (outer : l.nested = false)
      (same : ∀ F L, FramesAlike F m.frames → e F L = .next ((n.dress F L).startLoop l))
  | returns {n : Machine} {g : Frame} {v : Value} (top : m.frames = g :: n.frames)
      (loops : n.loops = m.loops) (control : n.control = m.control)
      (same : ∀ f F L, f.anyCaller = g.anyCaller → FramesAlike F n.frames → e (f :: F) L =
        if f.callback then .returned v (n.dress F L)
        else .next (({ n with ip := g.returnIp }.push v).dress F L))

namespace Effect

variable {m n : Machine} {e : List Frame → List Loop → Effect}

theorem Ordinary.natural {takes puts : Nat} (h : Effect.Ordinary s m takes puts e) :
    Effect.Natural s m e := by
  cases h with
  | next calm same => exact .next calm.keeps fun F L hF => same F L hF.length
  | failed calm _ usual same =>
    exact .failed calm.keeps (calm.handlers ▸ List.suffix_rfl) usual fun F L hF =>
      same F L hF.length
  | enters calm room same => exact .enters calm.keeps room fun F L hF => same F L hF.length
  | loops calm place boundary outer same =>
    exact .loops calm.keeps place boundary outer fun F L hF => same F L hF.length

theorem Natural.after (h : m.Keeps n) (below : n.handlers <:+ m.handlers)
    (he : Effect.Natural s n e) : Effect.Natural s m e := by
  have hlen : n.frames.length = m.frames.length := congrArg List.length h.frames
  have hback {F : List Frame} (hF : FramesAlike F m.frames) : FramesAlike F n.frames :=
    h.frames ▸ hF
  cases he with
  | next keeps same => exact .next (h.trans keeps) fun F L hF => same F L (hback hF)
  | failed keeps left usual same =>
    exact .failed (h.trans keeps) (left.trans below) usual fun F L hF => same F L (hback hF)
  | enters keeps room same =>
    exact .enters (h.trans keeps) (hlen ▸ room) fun F L hF => same F L (hback hF)
  | loops keeps place boundary outer same =>
    exact .loops (h.trans keeps) place (hlen ▸ boundary) outer fun F L hF => same F L (hback hF)
  | returns top loops control same =>
    exact .returns (h.frames.symm.trans top) (loops.trans h.loops) (control.trans h.control) same

theorem Natural.congr {e' : List Frame → List Loop → Effect}
    (heq : ∀ F L, FramesAlike F m.frames → e F L = e' F L) (he : Effect.Natural s m e') :
    Effect.Natural s m e := by
  cases he with
  | next keeps same => exact .next keeps fun F L hF => (heq F L hF).trans (same F L hF)
  | failed keeps left usual same =>
    exact .failed keeps left usual fun F L hF => (heq F L hF).trans (same F L hF)
  | enters keeps room same => exact .enters keeps room fun F L hF => (heq F L hF).trans (same F L hF)
  | loops keeps place boundary outer same =>
    exact .loops keeps place boundary outer fun F L hF => (heq F L hF).trans (same F L hF)
  | @returns _ _ v top loops control same =>
    refine .returns (v := v) top loops control fun f F L hf hF => ?_
    exact (heq _ L (top ▸ FramesAlike.cons hf hF)).trans (same f F L hf hF)

end Effect

namespace Machine

variable {m : Machine}

theorem fault_natural (c : FaultCause) :
    Effect.Natural s m fun F L => .failed ((m.dress F L).fault s c) (m.dress F L) :=
  Effect.Ordinary.natural (fault_ordinary c : Effect.Ordinary s m 0 0 _)

theorem still_natural : Effect.Natural s m fun F L => .next (m.dress F L) := still_ordinary.natural

theorem returnFrom_natural (v : Value) :
    Effect.Natural s m fun F L => (m.dress F L).returnFrom v := by
  cases hm : m.frames with
  | nil =>
    refine .failed (f := .halt v) (Keeps.refl m) List.suffix_rfl (Or.inr (Or.inl rfl))
      fun F L hF => ?_
    rw [hm] at hF
    rw [hF.nil_right]
    rfl
  | cons g G =>
    have hpop : m.popFrame.frames = G := by rw [popFrame_frames, hm, List.tail_cons]
    have hkeeps : m.popFrame.loops = m.loops ∧ m.popFrame.control = m.control := by
      unfold popFrame
      rw [hm]
      exact ⟨rfl, rfl⟩
    have htop : m.frames = g :: m.popFrame.frames := by rw [hpop, hm]
    refine .returns (v := v) htop hkeeps.1 hkeeps.2 fun f F L hf hF => ?_
    have halike : FramesAlike (f :: F) m.frames := hm ▸ FramesAlike.cons hf (hpop ▸ hF)
    have hback : f.returnIp = g.returnIp := by rw [Frame.eq_of_anyCaller hf]
    have hfrom : (m.dress (f :: F) L).returnFrom v =
        if f.callback then .returned v (m.dress (f :: F) L).popFrame
        else .next ({ (m.dress (f :: F) L).popFrame with ip := f.returnIp }.push v) := rfl
    rw [hfrom, popFrame_dress halike, hback]
    rfl

theorem giveBack_dress (v : Value) (F : List Frame) (L : List Loop) : (m.dress F L).giveBack v =
    match (m.dress F L).returnThrough v m.handlers with
    | .inl n => .next n
    | .inr n => n.returnFrom v := rfl

theorem giveBack_natural (v : Value) : Effect.Natural s m fun F L => (m.dress F L).giveBack v := by
  obtain ⟨n, hkeeps, hn⟩ | ⟨rest, hleft, hn⟩ := returnThrough_dress (m := m) v m.handlers
  · refine .next hkeeps fun F L hF => ?_
    rw [giveBack_dress, hn F L hF]
  · have hkeeps : m.Keeps { m with handlers := rest } := ⟨rfl, rfl, rfl⟩
    refine ((returnFrom_natural v).after hkeeps hleft).congr fun F L hF => ?_
    rw [giveBack_dress, hn F L hF]

theorem leaveTo_eq (target scopes : Int) {F : List Frame} (L : List Loop)
    (hF : FramesAlike F m.frames) :
    leaveTo s (m.dress F L) target scopes =
      if m.leaveDepth scopes < (m.scopeFloor : Int) then
        .failed ((m.dress F L).fault s (.leavePast scopes)) (m.dress F L)
      else
        match (m.dress F L).leaveThrough target (m.leaveDepth scopes) m.handlers with
        | .inl n => .next n
        | .inr n => .next { n.leaveScopesTo (m.leaveDepth scopes) with ip := target } := by
  rw [← scopeFloor_dress hF L]
  rfl

theorem leaveTo_natural (target scopes : Int) :
    Effect.Natural s m fun F L => leaveTo s (m.dress F L) target scopes := by
  by_cases hd : m.leaveDepth scopes < (m.scopeFloor : Int)
  · refine (fault_natural (.leavePast scopes)).congr fun F L hF => ?_
    rw [leaveTo_eq target scopes L hF, if_pos hd]
  · obtain ⟨n, hkeeps, hn⟩ | ⟨rest, hn⟩ :=
      leaveThrough_dress (m := m) target (m.leaveDepth scopes) m.handlers
    · refine .next hkeeps fun F L hF => ?_
      rw [leaveTo_eq target scopes L hF, if_neg hd, hn F L hF]
    · have hkeeps : m.Keeps { { m with handlers := rest }.leaveScopesTo (m.leaveDepth scopes) with
          ip := target } := by
        have hleave := leaveScopes_keeps ((m.scopeDepth : Int) - m.leaveDepth scopes).toNat
          { m with handlers := rest }
        exact ⟨hleave.frames, hleave.loops, hleave.control⟩
      refine .next hkeeps fun F L hF => ?_
      rw [leaveTo_eq target scopes L hF, if_neg hd, hn F L hF]
      dsimp only
      rw [leaveScopesTo_dress]
      rfl

theorem endFinally_natural : Effect.Natural s m fun F L => endFinally s (m.dress F L) := by
  cases hh : m.handlers with
  | nil =>
    refine (fault_natural .endFinallyWithoutHandler).congr fun F L _ => ?_
    unfold endFinally
    rw [show (m.dress F L).handlers = [] from hh]
  | cons h rest =>
    have hkeeps : m.Keeps { m with handlers := rest } := ⟨rfl, rfl, rfl⟩
    have hleft : rest <:+ m.handlers := hh ▸ List.suffix_cons h rest
    have hreplay (F : List Frame) (L : List Loop) : endFinally s (m.dress F L) =
        replay s ({ m with handlers := rest }.dress F L) h.pending := endFinally_eq_replay hh
    cases hp : h.pending with
    | nothing =>
      refine (still_natural.after hkeeps hleft).congr fun F L _ => ?_
      rw [hreplay, hp]
      rfl
    | exception id =>
      refine .failed (f := .rethrow id) hkeeps hleft (Or.inl rfl) fun F L _ => ?_
      rw [hreplay, hp]
      rfl
    | giveBack v =>
      refine ((giveBack_natural v).after hkeeps hleft).congr fun F L _ => ?_
      rw [hreplay, hp]
      rfl
    | leave target scopes =>
      refine ((leaveTo_natural target scopes).after hkeeps hleft).congr fun F L _ => ?_
      rw [hreplay, hp]
      rfl

theorem popHandler_natural : Effect.Natural s m fun F L => (m.dress F L).popHandler s := by
  cases hh : m.handlers with
  | nil =>
    refine (fault_natural .tryPopWithoutHandler).congr fun F L _ => ?_
    unfold popHandler
    rw [show (m.dress F L).handlers = [] from hh]
  | cons h rest =>
    have hkeeps : m.Keeps { m with handlers := rest } := ⟨rfl, rfl, rfl⟩
    refine .next hkeeps fun F L _ => ?_
    unfold popHandler
    rw [show (m.dress F L).handlers = h :: rest from hh]
    rfl

theorem popScope_natural : Effect.Natural s m fun F L => (m.dress F L).popScope s := by
  by_cases hd : m.scopeDepth ≤ m.scopeFloor
  · refine (fault_natural .scopeUnderflow).congr fun F L hF => ?_
    unfold popScope
    rw [scopeFloor_dress hF, if_pos (show (m.dress F L).scopeDepth ≤ m.scopeFloor from hd)]
  · refine .next (n := m.leaveScope) ⟨rfl, rfl, rfl⟩ fun F L hF => ?_
    unfold popScope
    rw [scopeFloor_dress hF, if_neg (show ¬(m.dress F L).scopeDepth ≤ m.scopeFloor from hd)]
    rfl

theorem ret_natural :
    Effect.Natural s m fun F L => (m.dress F L).pop s fun v n => n.giveBack v := by
  cases hst : m.stack with
  | nil =>
    refine (fault_natural .stackUnderflow).congr fun F L _ => ?_
    exact pop_of_nil (m := m.dress F L) hst _
  | cons v stack =>
    have hkeeps : m.Keeps { m with stack := stack } := ⟨rfl, rfl, rfl⟩
    refine ((giveBack_natural v).after hkeeps List.suffix_rfl).congr fun F L _ => ?_
    exact pop_of_cons (m := m.dress F L) hst _

/-- Every instruction does the same among frames that are alike. -/
theorem step_natural (m : Machine) (ins : Instruction) :
    Effect.Natural s m fun F L => (m.dress F L).step s ins := by
  unfold step
  cases Opcode.ofCode? ins.op with
  | none => exact fault_natural _
  | some op =>
    cases ho : op.transfers with
    | false => exact (perform_ordinary ins.operand ho).natural
    | true =>
      cases op
      case pushScope => exact .next (n := m.pushScope) ⟨rfl, rfl, rfl⟩ fun _ _ _ => rfl
      case popScope => exact popScope_natural
      case leave => exact leaveTo_natural _ _
      case ret => exact ret_natural
      case tryPush =>
        refine .next (n := m.pushHandler s ins.operand.int.toInt ins.operand.int2.toInt)
          ⟨rfl, rfl, rfl⟩ fun F L hF => ?_
        dsimp only [perform, pushHandler]
        rw [show (m.dress F L).frames.length = m.frames.length from hF.length]
        rfl
      case tryPop => exact popHandler_natural
      case endFinally => exact endFinally_natural
      all_goals cases ho

/-- What is done before an instruction is executed leaves the frames and the loops. -/
theorem begun_keeps (m : Machine) (ins : Instruction) : m.Keeps (m.begun s ins) := by
  obtain ⟨_, heq⟩ := m.begun_eq (s := s) ins
  rw [heq]
  exact ⟨rfl, rfl, rfl⟩

theorem markFinalizing_dress {F : List Frame} (hF : FramesAlike F m.frames) (L : List Loop) :
    (m.dress F L).markFinalizing = m.markFinalizing.dress F L := by
  unfold markFinalizing
  rw [show (m.dress F L).frames.length = m.frames.length from hF.length]
  cases hh : m.handlers with
  | nil => rw [show (m.dress F L).handlers = [] from hh]
  | cons h rest =>
    rw [show (m.dress F L).handlers = h :: rest from hh, show (m.dress F L).ip = m.ip from rfl]
    dsimp only
    by_cases hc : (decide (h.finallyAddr = m.ip) && decide (h.callDepth = m.frames.length) &&
        !h.isFinalizing) = true
    · rw [if_pos hc, if_pos hc]
      rfl
    · rw [if_neg hc, if_neg hc]

theorem begun_dress {F : List Frame} (hF : FramesAlike F m.frames) (L : List Loop)
    (ins : Instruction) :
    (m.dress F L).begun s ins = (m.begun s ins).dress F L := by
  have htraced {q : Machine} (hq : q.frames = m.frames) :
      traced s (q.dress F L) ins = (traced s q ins).dress F L := by
    have hlen : (q.dress F L).frames.length = q.frames.length := hF.length.trans (by rw [hq])
    unfold traced
    rw [hlen]
    by_cases ht : s.trace = true
    · rw [if_pos ht, if_pos ht]
      rfl
    · rw [if_neg ht, if_neg ht]
  have hmark : m.tick.markFinalizing.frames = m.frames := by rw [markFinalizing_eq]; rfl
  have hdress := markFinalizing_dress (m := m.tick) hF L
  unfold begun
  rw [show (m.dress F L).tick = m.tick.dress F L from rfl, hdress]
  exact htraced (q := { m.tick.markFinalizing with
    pc := m.tick.markFinalizing.ip, ip := m.tick.markFinalizing.ip + 1 }) hmark

end Machine

end BytecodeMachine
