import BytecodeMachine.Proofs.Machine.Restoring
import BytecodeMachine.Proofs.Machine.Crossing

/-! Working above what was there before. The frames, values and handlers of a caller lie at the bottom;
whatever comes on top of them unwinds no further than to them. Only the instructions that close a
region reach below, where the callee has no handler of its own, and those that take more values off
the stack than the callee has put there. -/
namespace BytecodeMachine

variable {s : Setup}

namespace Machine

variable {m n : Machine} {F : List Frame} {V : List Value} {R : List Handler}

/-- The given frames and values lie at the bottom, and the frames above have found the values. -/
structure Grounded (F : List Frame) (V : List Value) (m : Machine) : Prop where
  frames : ∃ upper, m.frames = upper ++ F ∧ ∀ f ∈ upper, V.length ≤ f.stackBase
  values : V <:+ m.stack

/-- The given handlers lie at the bottom too. Those above belong to frames above and have found the
values. -/
structure Above (F : List Frame) (V : List Value) (R : List Handler) (m : Machine) : Prop extends
    Grounded F V m where
  handlers : ∃ own, m.handlers = own ++ R ∧
    ∀ h ∈ own, F.length < h.callDepth ∧ V.length ≤ h.stackHeight
  outside : ∀ h ∈ R, h.callDepth ≤ F.length

theorem suffix_truncated {stack : List Value} {height : Nat} (h : V <:+ stack)
    (high : V.length ≤ height) : V <:+ truncated stack height := by
  have hlen := h.length_le
  refine List.suffix_of_suffix_length_le h (List.drop_suffix _ _) ?_
  change V.length ≤ (stack.drop _).length
  rw [List.length_drop]
  omega

theorem length_truncated_le (stack : List Value) (height : Nat) :
    (truncated stack height).length ≤ height := by
  unfold truncated
  rw [List.length_drop]
  omega

theorem leaveScopes_stack (k : Nat) (m : Machine) : (leaveScopes k m).stack = m.stack := by
  induction k generalizing m with
  | zero => rfl
  | succ k ih => exact ih m.leaveScope

namespace Grounded

theorem of_eq (h : Grounded F V m) (frames : n.frames = m.frames) (values : V <:+ n.stack) :
    Grounded F V n := ⟨frames ▸ h.frames, values⟩

theorem popFrame (h : Grounded F V m) (inner : F.length < m.frames.length) :
    Grounded F V m.popFrame := by
  obtain ⟨upper, hframes, hbase⟩ := h.frames
  cases upper with
  | nil =>
    rw [hframes, List.nil_append] at inner
    exact absurd inner (Nat.lt_irrefl _)
  | cons f upper =>
    obtain ⟨hf, hbase⟩ := List.forall_mem_cons.mp hbase
    have hstack : m.popFrame.stack = truncated m.stack f.stackBase := by
      unfold Machine.popFrame
      rw [hframes]
      rfl
    refine ⟨⟨upper, ?_, hbase⟩, ?_⟩
    · rw [popFrame_frames, hframes]
      rfl
    · rw [hstack]
      exact suffix_truncated h.values hf

theorem popFrames (h : Grounded F V m) (k : Nat) (inner : F.length + k ≤ m.frames.length) :
    Grounded F V (popFrames k m) := by
  induction k generalizing m with
  | zero => exact h
  | succ k ih =>
    refine ih (h.popFrame (by omega)) ?_
    rw [popFrame_frames, List.length_tail]
    omega

/-- Unwinding comes down to a handler above what lies at the bottom. -/
theorem unwindTo (h : Grounded F V m) {d : Handler} (inner : F.length < d.callDepth)
    (high : V.length ≤ d.stackHeight) (framed : d.callDepth ≤ m.frames.length) :
    Grounded F V (m.unwindTo d) := by
  have hframes := h.popFrames (m.frames.length - d.callDepth) (by omega)
  have hunwound : (m.unwindTo d).frames =
      (Machine.popFrames (m.frames.length - d.callDepth) m).frames := by
    rw [unwindTo_frames, popFrames_frames]
  have hstack : (m.unwindTo d).stack =
      truncated (Machine.popFrames (m.frames.length - d.callDepth) m).stack d.stackHeight := by
    unfold Machine.unwindTo leaveScopesTo
    dsimp only
    rw [leaveScopes_stack]
  refine hframes.of_eq hunwound ?_
  rw [hstack]
  exact suffix_truncated hframes.values high

end Grounded

namespace Above

theorem of_eq (h : Above F V R m) (frames : n.frames = m.frames)
    (handlers : n.handlers = m.handlers) (values : V <:+ n.stack) : Above F V R n :=
  ⟨h.toGrounded.of_eq frames values, handlers ▸ h.handlers, h.outside⟩

theorem same (h : Above F V R m) (hs : m.Same n) (hh : n.handlers = m.handlers) : Above F V R n :=
  h.of_eq hs.frames hh (hs.stack ▸ h.values)

/-- The values at the bottom need not be looked after. -/
theorem no_values (h : Above F V R m) : Above F [] R m := by
  obtain ⟨upper, hframes, -⟩ := h.frames
  obtain ⟨own, hown, hdeep⟩ := h.handlers
  exact ⟨⟨⟨upper, hframes, fun _ _ => Nat.zero_le _⟩, List.nil_suffix⟩,
    ⟨own, hown, fun d hd => ⟨(hdeep d hd).1, Nat.zero_le _⟩⟩, h.outside⟩

/-- A handler that belongs to a frame above is not one of those at the bottom. -/
theorem split {above below : List Handler} {d : Handler} (h : Above F V R m)
    (found : m.handlers = above ++ d :: below) (inner : F.length < d.callDepth) :
    V.length ≤ d.stackHeight ∧ ∃ own, below = own ++ R ∧
      ∀ a ∈ own, F.length < a.callDepth ∧ V.length ≤ a.stackHeight := by
  obtain ⟨own, hown, hdeep⟩ := h.handlers
  rw [found] at hown
  rcases List.append_eq_append_iff.mp hown with ⟨c, hc, hbelow⟩ | ⟨c, hc, hR⟩
  · cases c with
    | nil =>
      have hmem : d ∈ R := by
        rw [List.nil_append] at hbelow
        rw [← hbelow]
        exact List.mem_cons_self
      have := h.outside d hmem
      omega
    | cons a c =>
      cases hbelow
      have hin : ∀ x ∈ d :: c, x ∈ own := fun x hx => by
        rw [hc]
        exact List.mem_append_right above hx
      exact ⟨(hdeep d (hin d List.mem_cons_self)).2, c, rfl, fun a ha =>
        hdeep a (hin a (List.mem_cons_of_mem d ha))⟩
  · have hmem : d ∈ R := by
      rw [hR]
      exact List.mem_append_right c List.mem_cons_self
    have := h.outside d hmem
    omega

/-- Handlers of frames above may go. -/
theorem pass {above below : List Handler} (h : Above F V R m) (found : m.handlers = above ++ below)
    (inner : ∀ a ∈ above, F.length < a.callDepth) : Above F V R { m with handlers := below } := by
  refine ⟨⟨h.frames, h.values⟩, ?_, h.outside⟩
  rcases List.eq_nil_or_concat above with rfl | ⟨init, d, rfl⟩
  · rw [List.nil_append] at found
    exact found ▸ h.handlers
  · rw [List.concat_eq_append, List.append_assoc] at found
    exact (h.split found (inner d (by simp))).2

/-- Where the frames above are gone, so are their handlers. -/
theorem handlers_eq (h : Above F V R m) (ranked : m.Ranked) (frames : m.frames = F) :
    m.handlers = R := by
  obtain ⟨own, hown, hdeep⟩ := h.handlers
  cases own with
  | nil => exact hown
  | cons d own =>
    have hlt := (hdeep d List.mem_cons_self).1
    have hle := ranked.framed d (by rw [hown]; exact List.mem_cons_self)
    rw [frames] at hle
    omega

theorem calm {takes puts : Nat} (h : Above F V R m) (hc : m.Calm takes puts n)
    (room : V = [] ∨ V.length + takes ≤ m.stack.length) : Above F V R n := by
  obtain ⟨new, -, hnew⟩ := hc.stack
  refine h.of_eq hc.frames hc.handlers ?_
  rw [hnew]
  refine List.IsSuffix.trans ?_ (List.suffix_append new _)
  rcases room with rfl | hroom
  · exact List.nil_suffix
  · refine List.suffix_of_suffix_length_le h.values (List.drop_suffix _ _) ?_
    rw [List.length_drop]
    omega

theorem enterFrame (h : Above F V R m) (c : Closure) (self : Option Value) (args : List Value)
    (callback : Bool) : Above F V R (m.enterFrame c self args callback) := by
  obtain ⟨upper, hframes, hbase⟩ := h.frames
  let f : Frame := ⟨c.name, m.ip, m.pc, m.scope, m.scopeDepth, m.stack.length, callback⟩
  exact ⟨⟨⟨f :: upper, congrArg (f :: ·) hframes, List.forall_mem_cons.mpr
    ⟨h.values.length_le, hbase⟩⟩, h.values⟩, h.handlers, h.outside⟩

theorem pushHandler (h : Above F V R m) (inner : F.length < m.frames.length)
    (catchAddr finallyAddr : Int) : Above F V R (m.pushHandler s catchAddr finallyAddr) := by
  obtain ⟨own, hown, hdeep⟩ := h.handlers
  refine ⟨⟨h.frames, h.values⟩, ⟨_ :: own, congrArg (List.cons _) hown, ?_⟩, h.outside⟩
  exact List.forall_mem_cons.mpr ⟨⟨inner, h.values.length_le⟩, hdeep⟩

/-- The instruction that closes a region drops the top handler, whoever it belongs to. -/
theorem drop {d : Handler} {below : List Handler} (h : Above F V R m)
    (top : m.handlers = d :: below) : ∃ R', R' <:+ R ∧ (R.length < m.handlers.length → R' = R) ∧
      Above F V R' { m with handlers := below } := by
  obtain ⟨own, hown, hdeep⟩ := h.handlers
  rw [top] at hown ⊢
  cases own with
  | nil =>
    rw [List.nil_append] at hown
    subst hown
    refine ⟨below, List.suffix_cons d below, fun hlt => absurd hlt (Nat.lt_irrefl _), ?_⟩
    exact ⟨⟨h.frames, h.values⟩, ⟨[], rfl, by simp⟩, (List.forall_mem_cons.mp h.outside).2⟩
  | cons a own =>
    cases hown
    refine ⟨R, List.suffix_rfl, fun _ => rfl, ?_⟩
    exact ⟨⟨h.frames, h.values⟩, ⟨own, rfl, (List.forall_mem_cons.mp hdeep).2⟩, h.outside⟩

/-- A landing among the frames above is one at a handler above. -/
theorem lands (h : Above F V R m) (ranked : m.Ranked) (hl : m.LandsLike m.handlers n)
    (inner : F.length < n.frames.length) : Above F V R n := by
  obtain ⟨q, hq, hsame, hhandlers, -⟩ := hl
  have hdepth {d : Handler} (hd : d ∈ m.handlers)
      (hframes : n.frames = m.frames.drop (m.frames.length - d.callDepth)) :
      F.length < d.callDepth ∧ d.callDepth ≤ m.frames.length := by
    have hle := ranked.framed d hd
    rw [hframes, List.length_drop] at inner
    omega
  cases hq with
  | @caught above below d exc found trying has =>
    obtain ⟨hin, hframed⟩ := hdepth (by rw [found]; simp) (hsame.frames.trans (unwindTo_frames m d))
    obtain ⟨hhigh, own, hbelow, hdeep⟩ := h.split found hin
    have hground := h.toGrounded.unwindTo hin hhigh hframed
    refine ⟨hground.of_eq hsame.frames ?_, ?_, h.outside⟩
    · rw [hsame.stack]
      exact hground.values.trans (List.suffix_cons _ _)
    · refine ⟨{ d with phase := .catching } :: own, ?_, ?_⟩
      · rw [hhandlers, hbelow]
        rfl
      · exact List.forall_mem_cons.mpr ⟨⟨hin, hhigh⟩, hdeep⟩
  | @entered above below d pending found fresh has some =>
    obtain ⟨hin, hframed⟩ := hdepth (by rw [found]; simp) (hsame.frames.trans (unwindTo_frames m d))
    obtain ⟨hhigh, own, hbelow, hdeep⟩ := h.split found hin
    have hground := h.toGrounded.unwindTo hin hhigh hframed
    refine ⟨hground.of_eq hsame.frames ?_, ?_, h.outside⟩
    · rw [hsame.stack]
      exact hground.values
    · refine ⟨{ d with phase := .finalizing pending } :: own, ?_, ?_⟩
      · rw [hhandlers, hbelow]
        rfl
      · exact List.forall_mem_cons.mpr ⟨⟨hin, hhigh⟩, hdeep⟩

/-- Ordinary flow comes to finally blocks of the current frame only. -/
theorem mark (h : Above F V R m) (inner : F.length < m.frames.length) :
    Above F V R m.markFinalizing := by
  unfold markFinalizing
  split
  · exact h
  · next d below top =>
    split
    · next here =>
      have hd : d.callDepth = m.frames.length := by
        simp only [Bool.and_eq_true, decide_eq_true_eq] at here
        exact here.1.2
      have hin : F.length < d.callDepth := hd ▸ inner
      obtain ⟨hhigh, own, hbelow, hdeep⟩ := @split m F V R [] below d h top hin
      refine ⟨⟨h.frames, h.values⟩, ⟨{ d with phase := .finalizing .nothing } :: own, ?_, ?_⟩,
        h.outside⟩
      · rw [hbelow]
        rfl
      · exact List.forall_mem_cons.mpr ⟨⟨hin, hhigh⟩, hdeep⟩
    · exact h

end Above

/-- A return passes handlers of the current frame only, and stays in the frame for a finally block. -/
theorem returnThrough_passes (m : Machine) (v : Value) (handlers : List Handler) :
    match m.returnThrough v handlers with
    | .inl n => n.frames = m.frames
    | .inr n => ∃ above rest, handlers = above ++ rest ∧ n = { m with handlers := rest } ∧
        ∀ a ∈ above, a.callDepth = m.frames.length := by
  have hr := returnThrough_defers m v handlers
  generalize m.returnThrough v handlers = r at hr ⊢
  cases hr with
  | entered above _ _ here => exact (enterFinally_keeps here _ (.giveBack v)).frames
  | out above found passed => exact ⟨above, _, found, rfl, fun a ha => (passed a ha).1⟩

theorem leaveThrough_passes (m : Machine) (target dest : Int) (handlers : List Handler) :
    match m.leaveThrough target dest handlers with
    | .inl n => n.frames = m.frames
    | .inr n => ∃ above rest, handlers = above ++ rest ∧ n = { m with handlers := rest } ∧
        ∀ a ∈ above, a.callDepth = m.frames.length := by
  have hl := leaveThrough_defers m target dest handlers
  generalize m.leaveThrough target dest handlers = r at hl ⊢
  cases hl with
  | entered above _ _ here => exact (enterFinally_keeps here.1 _ _).frames
  | out above found passed => exact ⟨above, _, found, rfl, fun a ha => (passed a ha).1.1⟩

namespace Above

theorem popFrame (h : Above F V R m) (inner : F.length < m.frames.length) :
    Above F V R m.popFrame := by
  refine ⟨h.toGrounded.popFrame inner, ?_, h.outside⟩
  rw [popFrame_handlers]
  exact h.handlers

theorem landed (h : Above F V R m) (ranked : m.Ranked) (hl : m.Lands m.handlers n)
    (inner : F.length < n.frames.length) : Above F V R n :=
  h.lands ranked ⟨n, hl, Same.refl n, rfl, rfl⟩ inner

theorem giveBack (h : Above F V R m) (inner : F.length < m.frames.length) (ranked : m.Ranked)
    (v : Value) : Above F V R (m.giveBack v).machine := by
  have hlands := returnThrough_lands m v m.handlers
  have hpasses := returnThrough_passes m v m.handlers
  unfold Machine.giveBack
  -- A finally block on the way takes the value with it; without one the frame is left.
  cases ht : m.returnThrough v m.handlers with
  | inl n =>
    rw [ht] at hlands hpasses
    exact h.landed ranked hlands (hpasses ▸ inner)
  | inr n =>
    rw [ht] at hpasses
    obtain ⟨above, rest, split, rfl, hdepth⟩ := hpasses
    have hpass : Above F V R { m with handlers := rest } :=
      h.pass split fun a ha => (hdepth a ha).symm ▸ inner
    have hpop := hpass.popFrame inner
    dsimp only
    split
    · exact hpass
    · split
      · exact hpop
      · exact hpop.of_eq rfl rfl (hpop.values.trans (List.suffix_cons _ _))

theorem leaveTo (h : Above F V R m) (inner : F.length < m.frames.length) (ranked : m.Ranked)
    (target scopes : Int) : Above F V R (Machine.leaveTo s m target scopes).machine := by
  have hlands := leaveThrough_lands m target (m.leaveDepth scopes) m.handlers
  have hpasses := leaveThrough_passes m target (m.leaveDepth scopes) m.handlers
  unfold Machine.leaveTo
  dsimp only
  split
  · exact h
  · cases ht : m.leaveThrough target (m.leaveDepth scopes) m.handlers with
    | inl n =>
      rw [ht] at hlands hpasses
      exact h.landed ranked hlands (hpasses ▸ inner)
    | inr n =>
      rw [ht] at hpasses
      obtain ⟨above, rest, split, rfl, hdepth⟩ := hpasses
      have hpass : Above F V R { m with handlers := rest } :=
        h.pass split fun a ha => (hdepth a ha).symm ▸ inner
      let k := ((m.scopeDepth : Int) - m.leaveDepth scopes).toNat
      have hleave : Above F V R (leaveScopes k { m with handlers := rest }) := by
        refine hpass.of_eq (leaveScopes_frames k _) (leaveScopes_handlers k _) ?_
        rw [leaveScopes_stack]
        exact hpass.values
      exact hleave.of_eq rfl rfl hleave.values

/-- The handler whose finally block ends may be one at the bottom. -/
theorem endFinally (h : Above F V R m) (inner : F.length < m.frames.length) (ranked : m.Ranked) :
    ∃ R', R' <:+ R ∧ (R.length < m.handlers.length → R' = R) ∧
      Above F V R' (Machine.endFinally s m).machine := by
  unfold Machine.endFinally
  split
  · exact ⟨R, List.suffix_rfl, fun _ => rfl, h⟩
  · next d below top =>
    obtain ⟨R', hle, hwhole, hdrop⟩ := h.drop top
    have hranked : { m with handlers := below }.Ranked := by
      obtain ⟨hsorted, hframed⟩ := ranked
      rw [top] at hsorted hframed
      exact ⟨(List.pairwise_cons.mp hsorted).2, (List.forall_mem_cons.mp hframed).2⟩
    -- What was put off goes on below the handler, which may have been the last of those above.
    refine ⟨R', hle, hwhole, ?_⟩
    dsimp only
    split
    · exact hdrop
    · exact hdrop.giveBack inner hranked _
    · exact hdrop.leaveTo inner hranked _ _
    · exact hdrop

theorem ordinary {takes puts : Nat} {e : List Frame → List Loop → Effect} (h : Above F V R m)
    (he : Effect.Ordinary s m takes puts e) (room : V = [] ∨ V.length + takes ≤ m.stack.length) :
    Above F V R (e m.frames m.loops).machine := by
  -- An ordinary instruction is described for any frames and loops, here for those of the machine.
  have hdress {q : Machine} {j puts : Nat} (hc : m.Calm j puts q) :
      q.dress m.frames m.loops = q := by
    rw [← hc.frames, ← hc.loops]
    rfl
  cases he with
  | next calm same =>
    rw [same _ _ rfl, hdress calm]
    exact h.calm calm room
  | failed calm part usual same =>
    rw [same _ _ rfl, hdress calm]
    exact h.calm calm (room.imp_right fun hroom => by omega)
  | enters calm _ same =>
    rw [same _ _ rfl, hdress calm]
    exact (h.calm calm room).enterFrame _ _ _ _
  | loops calm _ _ _ same =>
    rw [same _ _ rfl, hdress calm]
    have hcalm := h.calm calm room
    exact hcalm.of_eq rfl rfl hcalm.values

/-- What an instruction does above. Handlers at the bottom go only where it closes a region with no
handler above, values at the bottom only where it takes more values than there are above. -/
theorem perform (h : Above F V R m) (inner : F.length < m.frames.length) (ranked : m.Ranked)
    (o : Operand) (op : Opcode) (room : V = [] ∨ V.length + m.takes s o op ≤ m.stack.length) :
    ∃ R', R' <:+ R ∧ ((op = .tryPop ∨ op = .endFinally → R.length < m.handlers.length) → R' = R) ∧
      Above F V R' (m.perform s o op).machine := by
  -- The others open, close or leave a region, a scope or a frame, each in its own way.
  by_cases hop : op.transfers = false
  · exact ⟨R, List.suffix_rfl, fun _ => rfl, h.ordinary (perform_ordinary o hop) room⟩
  · cases op
    case pushScope => exact ⟨R, List.suffix_rfl, fun _ => rfl, h.of_eq rfl rfl h.values⟩
    case popScope =>
      refine ⟨R, List.suffix_rfl, fun _ => rfl, ?_⟩
      change Above F V R (m.popScope s).machine
      unfold Machine.popScope
      split
      · exact h
      · exact h.of_eq rfl rfl h.values
    case leave => exact ⟨R, List.suffix_rfl, fun _ => rfl, h.leaveTo inner ranked _ _⟩
    case ret =>
      refine ⟨R, List.suffix_rfl, fun _ => rfl, ?_⟩
      change Above F V R (m.pop s fun v m => m.giveBack v).machine
      cases hst : m.stack with
      | nil =>
        rw [pop_of_nil hst]
        exact h
      | cons v stack =>
        rw [pop_of_cons hst]
        have hdrop := m.calm_drop 1
        have hcalm := h.calm hdrop room
        rw [hst] at hcalm
        exact hcalm.giveBack inner ⟨ranked.sorted, ranked.framed⟩ v
    case tryPush => exact ⟨R, List.suffix_rfl, fun _ => rfl, h.pushHandler inner _ _⟩
    case tryPop =>
      change ∃ R', R' <:+ R ∧ _ ∧ Above F V R' (m.popHandler s).machine
      unfold Machine.popHandler
      split
      · exact ⟨R, List.suffix_rfl, fun _ => rfl, h⟩
      · next d below top =>
        obtain ⟨R', hle, hwhole, hdrop⟩ := h.drop top
        exact ⟨R', hle, fun hown => hwhole (hown (Or.inl rfl)), hdrop⟩
    case endFinally =>
      obtain ⟨R', hle, hwhole, hend⟩ := h.endFinally (s := s) inner ranked
      exact ⟨R', hle, fun hown => hwhole (hown (Or.inr rfl)), hend⟩
    all_goals exact absurd rfl hop

end Above

end Machine

end BytecodeMachine
