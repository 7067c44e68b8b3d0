import BytecodeMachine.Proofs.Machine.Above
import BytecodeMachine.Proofs.Machine.Callback

/-! A callback from the call to its end, seen from the loop that makes it. Whatever loops and frames come
on top in between, each frame that a loop has called remembers the scope and the values that the loop
goes on with, so the way back leads to those there were at the call. -/
namespace BytecodeMachine

variable {s : Setup}

/-- What code works in: a scope, its depth, and a number of values on the stack. -/
structure Site where
  scope : Nat
  scopeDepth : Nat
  height : Nat

/-- The same scope, and no more values. -/
structure Site.Within (t t₀ : Site) : Prop where
  scope : t.scope = t₀.scope
  scopeDepth : t.scopeDepth = t₀.scopeDepth
  height : t.height ≤ t₀.height

theorem Site.Within.refl (t : Site) : t.Within t := ⟨rfl, rfl, Nat.le_refl _⟩

theorem Site.Within.trans {t t₁ t₂ : Site} (h : t.Within t₁) (h' : t₁.Within t₂) : t.Within t₂ :=
  ⟨h.scope.trans h'.scope, h.scopeDepth.trans h'.scopeDepth, Nat.le_trans h.height h'.height⟩

/-- What the caller of a frame goes on in. -/
def Frame.site (f : Frame) : Site := ⟨f.scope, f.scopeDepth, f.stackBase⟩

namespace Machine

variable {m n q : Machine} {F G : List Frame} {V : List Value} {R : List Handler}

def site (m : Machine) : Site := ⟨m.scope, m.scopeDepth, m.stack.length⟩

theorem Same.site (h : m.Same n) : n.site = m.site := by
  unfold Machine.site
  rw [h.scope, h.scopeDepth, h.stack]

theorem popFrame_site {g : Frame} (h : m.frames = g :: G) : m.popFrame.site.Within g.site := by
  unfold popFrame
  rw [h]
  exact ⟨rfl, rfl, length_truncated_le m.stack g.stackBase⟩

theorem popFrames_site {A : List Frame} {g : Frame} (h : m.frames = A ++ g :: G) :
    (popFrames (A.length + 1) m).site.Within g.site := by
  induction A generalizing m with
  | nil => exact popFrame_site h
  | cons a A ih =>
    refine ih ?_
    rw [popFrame_frames, h]
    rfl

/-- An exception that leaves a loop has passed handlers inside it only. -/
theorem throwTo_passes (m : Machine) (exc b : Nat) (handlers : List Handler) :
    match m.throwTo exc b handlers with
    | .handled _ => True
    | .escaped n => ∃ above rest, handlers = above ++ rest ∧ (∀ a ∈ above, b ≤ a.callDepth) ∧
        n = popFrames (m.frames.length + 1 - max b 1) { m with handlers := rest } := by
  have ht := throwTo_throws m exc b handlers
  generalize m.throwTo exc b handlers = t at ht ⊢
  cases ht with
  | caught | entered => trivial
  | escaped above found passed _ => exact ⟨above, _, found, fun a ha => (passed a ha).1, rfl⟩

theorem offer_passes {f g : Failure} {b : Nat} (hf : f.isException = true)
    (h : m.offer s f b = .inr (g, n)) : g.isException = true ∧ ∃ above rest,
      m.handlers = above ++ rest ∧ (∀ a ∈ above, b ≤ a.callDepth) ∧ n.handlers = rest ∧
        (popFrames (m.frames.length + 1 - max b 1) { m with handlers := rest }).Same n := by
  obtain ⟨id, q, he, rfl, ht⟩ := offer_eq_inr hf h
  have hsame : m.Same (stamp s q id) := (exceptionOf_same he).trans (stamp_same q id)
  have hhandlers : q.handlers = m.handlers := (exceptionOf_quiet he).handlers
  have hlen : (stamp s q id).frames.length = m.frames.length := congrArg List.length hsame.frames
  have hpasses := throwTo_passes (stamp s q id) id b q.handlers
  rw [ht] at hpasses
  obtain ⟨above, rest, hsplit, hinside, rfl⟩ := hpasses
  have hrest : { m with handlers := rest }.Same { stamp s q id with handlers := rest } :=
    ⟨hsame.frames, hsame.scope, hsame.scopeDepth, hsame.stack, hsame.scopes⟩
  refine ⟨rfl, above, rest, hhandlers.symm.trans hsplit, hinside, popFrames_handlers _ _, ?_⟩
  rw [hlen]
  exact hrest.popFrames _

theorem Above.popFrames (h : Above F V R m) (k : Nat) (inner : F.length + k ≤ m.frames.length) :
    Above F V R (popFrames k m) := by
  refine ⟨h.toGrounded.popFrames k inner, ?_, h.outside⟩
  rw [popFrames_handlers]
  exact h.handlers

/-- An exception that leaves a callback goes back to what its frame remembers. -/
theorem Above.escape (h : Above F V R m) {f e : Failure} (hf : f.isException = true)
    {A : List Frame} {g : Frame} (frames : m.frames = A ++ g :: G) (inner : F.length ≤ G.length)
    (ho : m.offer s f (G.length + 1) = .inr (e, n)) :
    e.isException = true ∧ n.frames = G ∧ n.site.Within g.site ∧ Above F V R n := by
  obtain ⟨he, above, rest, split, hinside, hrest, hsame⟩ := offer_passes hf ho
  have hlen : m.frames.length = A.length + 1 + G.length := by
    rw [frames, List.length_append, List.length_cons]
    omega
  have hcount : m.frames.length + 1 - max (G.length + 1) 1 = A.length + 1 := by omega
  have hpass : Above F V R { m with handlers := rest } :=
    h.pass split fun a ha => Nat.lt_of_lt_of_le (Nat.lt_succ_of_le inner) (hinside a ha)
  have hpop := hpass.popFrames (A.length + 1) (by
    change F.length + (A.length + 1) ≤ m.frames.length
    omega)
  have hleft : n.handlers =
      (Machine.popFrames (A.length + 1) { m with handlers := rest }).handlers := by
    rw [hrest, popFrames_handlers]
  rw [hcount] at hsame
  refine ⟨he, ?_, ?_, hpop.same hsame hleft⟩
  · rw [hsame.frames, popFrames_frames]
    change m.frames.drop (A.length + 1) = G
    rw [frames]
    simp
  · rw [hsame.site]
    exact popFrames_site (m := { m with handlers := rest }) frames

/-- The loops and frames while a loop of a machine waits for its callback, with what the code on top
works in. The callee can be a function or start loops of its own, and so on further up. -/
inductive Underway (m : Machine) (l : Loop) (outer : List Loop) :
    Control → List Loop → List Frame → Site → Prop
  | here {t : Site} (within : t.Within m.site) : Underway m l outer .iterate (l :: outer) m.frames t
  | callback {y : Loop} {K : List Loop} {G : List Frame} {t : Site} (A : List Frame) (g : Frame)
      (plain : ∀ a ∈ A, a.callback = false) (native : g.callback = true)
      (boundary : y.boundary = G.length + 1) (h : Underway m l outer .iterate (y :: K) G g.site) :
      Underway m l outer .fetch (y :: K) (A ++ g :: G) t
  | started {K : List Loop} {G : List Frame} {t t' : Site} (y : Loop) (called : y.nested = false)
      (h : Underway m l outer .fetch K G t') : Underway m l outer .iterate (y :: K) G t
  | nested {K : List Loop} {G : List Frame} {t : Site} (y : Loop) (inner : y.nested = true)
      (h : Underway m l outer .iterate K G t) : Underway m l outer .iterate (y :: K) G t

namespace Underway

variable {c : Control} {l y z : Loop} {outer K : List Loop} {t u : Site}

theorem frames_suffix (h : Underway m l outer c K G t) : m.frames <:+ G := by
  induction h with
  | here => exact List.suffix_rfl
  | callback A g _ _ _ _ ih =>
    exact (ih.trans (List.suffix_cons g _)).trans (List.suffix_append A _)
  | started _ _ _ ih => exact ih
  | nested _ _ _ ih => exact ih

/-- Where instructions are executed, there is a frame of the callback. -/
theorem length_lt (h : Underway m l outer .fetch K G t) : m.frames.length < G.length := by
  cases h with
  | callback A g _ _ _ h =>
    have hle := h.frames_suffix.length_le
    rw [List.length_append, List.length_cons]
    omega

theorem loops_suffix (h : Underway m l outer c K G t) : l :: outer <:+ K := by
  induction h with
  | here => exact List.suffix_rfl
  | callback _ _ _ _ _ _ ih => exact ih
  | started y _ _ ih => exact ih.trans (List.suffix_cons y _)
  | nested y _ _ ih => exact ih.trans (List.suffix_cons y _)

/-- The loop that waits is on top only where its callback is over or has not begun. -/
theorem here_or_inside (h : Underway m l outer .iterate K G t) :
    (K = l :: outer ∧ G = m.frames ∧ t.Within m.site) ∨ outer.length + 1 < K.length := by
  cases h with
  | here within => exact Or.inl ⟨rfl, rfl, within⟩
  | started y _ h => exact Or.inr (Nat.lt_succ_of_le h.loops_suffix.length_le)
  | nested y _ h => exact Or.inr (Nat.lt_succ_of_le h.loops_suffix.length_le)

/-- Instructions may do with their scopes and values what they like. -/
theorem anywhere (h : Underway m l outer .fetch K G t) : Underway m l outer .fetch K G u := by
  cases h with
  | callback A g plain native boundary h => exact .callback A g plain native boundary h

theorem within (h : Underway m l outer .iterate K G t) (hw : u.Within t) :
    Underway m l outer .iterate K G u := by
  generalize hc : Control.iterate = c at h
  induction h with
  | here within => exact .here (hw.trans within)
  | callback => cases hc
  | started y called h => exact .started y called h
  | nested y inner _ ih => exact .nested y inner (ih hw rfl)

/-- What a loop inside has gathered and where its callbacks begin is open until it calls. -/
theorem with_top (h : Underway m l outer .iterate (y :: K) G t) (inside : outer.length < K.length)
    (same : z.nested = y.nested) : Underway m l outer .iterate (z :: K) G t := by
  cases h with
  | here => exact absurd inside (Nat.lt_irrefl _)
  | started _ called h => exact .started z (same.trans called) h
  | nested _ inner h => exact .nested z (same.trans inner) h

/-- A loop inside was started by an instruction or by the loop around it. -/
theorem caller (h : Underway m l outer .iterate (y :: K) G t) (inside : outer.length < K.length) :
    (y.nested = false ∧ Underway m l outer .fetch K G u) ∨
      (y.nested = true ∧ Underway m l outer .iterate K G t) := by
  cases h with
  | here => exact absurd inside (Nat.lt_irrefl _)
  | started _ called h => exact Or.inl ⟨called, h.anywhere⟩
  | nested _ inner h => exact Or.inr ⟨inner, h⟩

theorem call (h : Underway m l outer .fetch K G t) {f : Frame} (called : f.callback = false) :
    Underway m l outer .fetch K (f :: G) u := by
  cases h with
  | callback A g plain native boundary h =>
    exact .callback (f :: A) g (List.forall_mem_cons.mpr ⟨called, plain⟩) native boundary h

/-- The innermost frame was called by an instruction or by the innermost loop. -/
theorem pop {g : Frame} (h : Underway m l outer .fetch K (g :: G) t) :
    (g.callback = false ∧ Underway m l outer .fetch K G u) ∨
      (g.callback = true ∧ Underway m l outer .iterate K G g.site) := by
  -- Where the callback has called nothing, its own frame is the innermost one.
  generalize hG : g :: G = F at h
  cases h with
  | callback A f plain native boundary h =>
    cases A with
    | nil =>
      cases hG
      exact Or.inr ⟨native, h⟩
    | cons a A =>
      cases hG
      obtain ⟨ha, hA⟩ := List.forall_mem_cons.mp plain
      exact Or.inl ⟨ha, .callback A f hA native boundary h⟩

/-- Frames inside the innermost loop can go. -/
theorem drop (h : Underway m l outer .fetch K G t) {k : Nat} (hk : k ≤ G.length - boundary K) :
    Underway m l outer .fetch K (G.drop k) u := by
  cases h with
  | @callback y K G _ A g plain native hb h =>
    have hA : k ≤ A.length := by
      change k ≤ _ - y.boundary at hk
      rw [hb, List.length_append, List.length_cons] at hk
      omega
    rw [List.drop_append_of_le_length hA]
    exact .callback _ g (fun a ha => plain a (List.mem_of_mem_drop ha)) native hb h

end Underway

/-- A loop gets the answer of its callback and goes on, or an exception of the callback becomes one of
the call that has started the loop. -/
inductive HandsBack (s : Setup) (l : Loop) (outer : List Loop) (q : Machine) : Status → Prop
  | answer (v : Value) : HandsBack s l outer q
      (.running { q with loops := l.absorb q.world.store v :: outer, control := .iterate })
  | exception {f : Failure} (raised : f.isException = true) : HandsBack s l outer q
      (fail s (!l.nested) f q outer)

/-- What a step inside a callback comes to: still inside; or back at the loop, among the frames of the
call and in its scope, with the values and handlers that were left alone; or at the end of the run. -/
inductive Carries (s : Setup) (m : Machine) (l : Loop) (outer : List Loop) (V : List Value)
    (R : List Handler) : Status → Prop
  | inside {q : Machine} (underway : Underway m l outer q.control q.loops q.frames q.site)
      (deep : q.control = .iterate → outer.length + 1 < q.loops.length)
      (above : q.Above m.frames V R) : Carries s m l outer V R (.running q)
  | back {q : Machine} {st : Status} (hands : q.HandsBack s l outer st) (ip : q.ip = l.ip)
      (pc : q.pc = l.pc) (frames : q.frames = m.frames) (site : q.site.Within m.site)
      (values : V <:+ q.stack) (handlers : q.handlers = R) : Carries s m l outer V R st
  | ended {f : Failure} (final : f.isFinal = true) (q : Machine) :
      Carries s m l outer V R (.ended (endingOf f) q)

section Carries

variable {l : Loop} {outer K : List Loop}

theorem carries_of_final {f : Failure} (hf : f.isFinal = true) (inside : Bool) (n : Machine)
    (L : List Loop) : Carries s m l outer V R (fail s inside f n L) := by
  obtain ⟨ip, pc, he⟩ := fail_eq_ended (s := s) hf inside n L
  rw [he]
  exact .ended hf _

/-- An exception inside is caught inside, or it leaves one loop after the other down to the one that
waits. -/
theorem carries_of_exception {c : Control} {t : Site} (h : Underway m l outer c K G t) {inside : Bool}
    {f : Failure} (hc : c = if inside then .fetch else .iterate) (hn : n.frames = G)
    (ht : inside = false → n.site.Within t) (above : n.Above m.frames V R) (ranked : n.Ranked)
    (hf : f.isException = true) : Carries s m l outer V R (fail s inside f n K) := by
  -- Each way of being under way is a place that the exception passes on its way out.
  induction h generalizing inside f n with
  | @here t within =>
    cases inside with
    | true => cases hc
    | false =>
      rw [fail_of_loop hf]
      exact .back (.exception hf) rfl rfl hn ((ht rfl).trans within) above.values
        (above.handlers_eq ranked hn)
  | @callback y K G t A g plain native hb h ih =>
    cases inside with
    | false => cases hc
    | true =>
      have hunderway : Underway m l outer .fetch (y :: K) n.frames t :=
        hn ▸ .callback A g plain native hb h
      have hlands := offer_lands s f y.boundary ranked
      have hframes := offer_frames s n f y.boundary
      cases ho : n.offer s f y.boundary with
      | inl o =>
        rw [ho] at hlands hframes
        obtain ⟨hcontrol, k, hk, ho'⟩ := hframes
        have hdrop : Underway m l outer .fetch (y :: K) o.frames o.site := ho' ▸ hunderway.drop hk
        have habove := above.lands ranked hlands hdrop.length_lt
        rw [fail_of_handled (L := y :: K) ho]
        rw [← hcontrol] at hdrop
        refine .inside (q := { o with loops := y :: K }) hdrop (fun hiter => ?_)
          (habove.of_eq rfl rfl habove.values)
        exact absurd (hcontrol.symm.trans hiter) (by simp)
      | inr e =>
        obtain ⟨e, o⟩ := e
        rw [ho] at hlands
        rw [fail_of_escaped ho]
        rw [hb] at ho
        obtain ⟨he, hback, hsite, habove⟩ := above.escape hf hn h.frames_suffix.length_le ho
        exact ih rfl hback (fun _ => hsite) habove hlands.2.1 he
  | @started K G t t' y called h ih =>
    cases inside with
    | true => cases hc
    | false =>
      rw [fail_of_loop hf, called]
      exact ih (n := { n with ip := y.ip, pc := y.pc }) rfl hn (fun hno => by cases hno)
        (above.of_eq rfl rfl above.values) ⟨ranked.sorted, ranked.framed⟩ hf
  | @nested K G t y inner h ih =>
    cases inside with
    | true => cases hc
    | false =>
      rw [fail_of_loop hf, inner]
      exact ih (n := { n with ip := y.ip, pc := y.pc }) rfl hn (fun _ => ht rfl)
        (above.of_eq rfl rfl above.values) ⟨ranked.sorted, ranked.framed⟩ hf

theorem carries_of_deliver (h : Underway m l outer .iterate n.loops n.frames n.site)
    (above : n.Above m.frames V R) (ranked : n.Ranked) (v : Value) :
    Carries s m l outer V R (n.deliver v) := by
  unfold deliver
  cases hl : n.loops with
  | nil =>
    rw [hl] at h
    cases h
  | cons y K =>
    rw [hl] at h
    dsimp only
    -- The value goes to the loop that waits, or to one that has been started since.
    rcases h.here_or_inside with ⟨hK, hG, hsite⟩ | hdeep
    · cases hK
      exact .back (q := { n with ip := l.ip, pc := l.pc }) (.answer v) rfl rfl hG hsite above.values
        (above.handlers_eq ranked hG)
    · have habsorb := (y.absorb_eq n.world.store v false).2.1
      have htop := h.with_top (Nat.lt_of_succ_lt_succ hdeep) habsorb
      let p : Machine :=
        { n with
          loops := y.absorb n.world.store v :: K
          control := .iterate
          ip := y.ip
          pc := y.pc }
      exact .inside (q := p) htop (fun _ => hdeep) (above.of_eq rfl rfl above.values)

/-- A loop inside makes a call, or the one that waits makes the call itself. -/
theorem carries_of_callBack (h : Underway m l outer .iterate q.loops q.frames q.site)
    (here : ∀ y ∈ q.loops.head?, y.boundary = q.frames.length + 1) (above : q.Above m.frames V R)
    (ranked : q.Ranked) (callee : Value) (args : List Value) :
    Carries s m l outer V R (q.callBack s callee args) := by
  have hfail {w : World} {f : Failure} (hf : f.isException = true ∨ f.isFinal = true) :
      Carries s m l outer V R (fail s false f { q with world := w } q.loops) := by
    rcases hf with hf | hf
    · exact carries_of_exception h rfl rfl (fun _ => Site.Within.refl _)
        (above.of_eq rfl rfl above.values) ⟨ranked.sorted, ranked.framed⟩ hf
    · exact carries_of_final hf false _ _
  unfold callBack
  split
  · exact hfail (w := q.world) (Or.inl rfl)
  · split
    · next c self _ =>
      split
      · exact hfail (w := q.world) (Or.inl rfl)
      · let f : Frame := ⟨c.name, q.ip, q.pc, q.scope, q.scopeDepth, q.stack.length, true⟩
        let p : Machine := { q.enterFrame c self args true with control := .fetch }
        have hunderway : Underway m l outer .fetch q.loops (f :: q.frames) p.site := by
          cases hl : q.loops with
          | nil =>
            rw [hl] at h
            cases h
          | cons y K =>
            have hboundary := here y (by rw [hl]; rfl)
            rw [hl] at h
            exact .callback [] f (by simp) rfl hboundary h
        have henter := above.enterFrame c self args true
        refine .inside (q := p) hunderway (fun hiter => ?_) (henter.of_eq rfl rfl henter.values)
        cases hiter
    · obtain ⟨r, w, hr⟩ | ⟨y, hr, hnested, -⟩ := callNative_cases s q true callee args
      · rw [hr]
        cases r with
        | ok v =>
          exact carries_of_deliver (n := { q with world := w }) h (above.of_eq rfl rfl above.values)
            ⟨ranked.sorted, ranked.framed⟩ v
        | error f => exact hfail (callNative_error hr)
      · rw [hr]
        exact .inside (q := q.startLoop y) (.nested y hnested h)
          (fun _ => Nat.lt_succ_of_le h.loops_suffix.length_le) (above.of_eq rfl rfl above.values)

theorem carries_of_iterate (h : Underway m l outer .iterate q.loops q.frames q.site)
    (deep : outer.length + 1 < q.loops.length) (above : q.Above m.frames V R) (ranked : q.Ranked) :
    Carries s m l outer V R (q.iterate s) := by
  cases hl : q.loops with
  | nil =>
    rw [hl] at h
    cases h
  | cons y K =>
    rw [hl] at h deep
    have hinside : outer.length < K.length := Nat.lt_of_succ_lt_succ deep
    cases hrest : y.rest with
    | nil =>
      let v : Value := (y.result q.world).1
      let n : Machine := { q with world := (y.result q.world).2, loops := K }
      have hn : n.Above m.frames V R := above.of_eq rfl rfl above.values
      have hend : q.endLoop y K =
          if y.nested then n.deliver v else .running { n.push v with control := .fetch } := rfl
      rw [iterate_of_nil hl hrest, hend]
      obtain ⟨called, h⟩ | ⟨inner, h⟩ := h.caller hinside
      · rw [called]
        refine .inside (q := { n.push v with control := .fetch }) h (fun hiter => ?_)
          (hn.of_eq rfl rfl (hn.values.trans (List.suffix_cons v _)))
        cases hiter
      · rw [inner]
        exact carries_of_deliver (n := n) h hn ⟨ranked.sorted, ranked.framed⟩ v
    | cons e rest =>
      let z : Loop := { (y.take e rest).1 with boundary := q.frames.length + 1 }
      have htop : Underway m l outer .iterate (z :: K) q.frames q.site :=
        h.with_top hinside (y.take_nested e rest)
      rw [iterate_of_cons hl hrest]
      refine carries_of_callBack (q := { q with loops := z :: K }) htop (fun w hw => ?_)
        (above.of_eq rfl rfl above.values) ⟨ranked.sorted, ranked.framed⟩ _ _
      cases hw
      rfl

end Carries

end Machine

end BytecodeMachine
