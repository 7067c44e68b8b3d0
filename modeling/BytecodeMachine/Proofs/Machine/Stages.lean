import BytecodeMachine.Proofs.Machine.Landing
import BytecodeMachine.Proofs.Machine.Threads

/-! Exceptions that go outwards in two stages: to the boundary of a loop, and from there on. They come
to where they come in one stage. What is unwound up to the boundary has to go anyhow, and the place of
an exception is taken down once. -/
namespace BytecodeMachine

variable {s : Setup}

namespace Machine

variable {m n : Machine}

theorem popFrames_popFrames (j k : Nat) (m : Machine) :
    popFrames j (popFrames k m) = popFrames (k + j) m := by
  induction k generalizing m with
  | zero => rw [Nat.zero_add, popFrames]
  | succ k ih => rw [popFrames, ih, Nat.add_right_comm, popFrames]

/-- What is left of the frames where an exception leaves a loop does not depend on what went before. -/
theorem escape_popFrames {k b : Nat} (m : Machine) (old new : List Handler)
    (high : k + max b 1 ≤ m.frames.length + 1) :
    let n := popFrames k { m with handlers := old }
    popFrames (n.frames.length + 1 - max b 1) { n with handlers := new } =
      popFrames (m.frames.length + 1 - max b 1) { m with handlers := new } := by
  intro n
  have hlen : n.frames.length = m.frames.length - k := by
    rw [popFrames_frames, List.length_drop]
  have hn : { n with handlers := new } = popFrames k { m with handlers := new } := by
    have hold := popFrames_with_handlers k m old
    have hnew := popFrames_with_handlers k m new
    exact (congrArg (fun q : Machine => { q with handlers := new }) hold).trans hnew.symm
  rw [hn, popFrames_popFrames, hlen]
  congr 1
  omega

theorem unwindTo_escaped {k : Nat} {h : Handler} (m : Machine) (old new : List Handler)
    (framed : h.callDepth + k ≤ m.frames.length) :
    { (popFrames k { m with handlers := old }).unwindTo h with handlers := new } =
      { m.unwindTo h with handlers := new } := by
  rw [unwindTo_popFrames k (m := { m with handlers := old }) framed, unwindTo_with_handlers]

/-- Handlers below frames that are dropped take an exception as if the frames were still there. -/
theorem throwTo_popFrames {k b exc : Nat} {below : List Handler} (m : Machine) (old : List Handler)
    (high : k + max b 1 ≤ m.frames.length + 1)
    (framed : ∀ h ∈ below, h.callDepth + k ≤ m.frames.length) :
    (popFrames k { m with handlers := old }).throwTo exc b below = m.throwTo exc b below := by
  induction below with
  | nil =>
    rw [throwTo, throwTo]
    exact congrArg Thrown.escaped (escape_popFrames m old [] high)
  | cons h rest ih =>
    obtain ⟨hh, hrest⟩ := List.forall_mem_cons.mp framed
    have hunwind := fun new => unwindTo_escaped m old new hh
    rw [throwTo, throwTo]
    by_cases hb : h.callDepth < b
    · rw [if_pos hb, if_pos hb]
      exact congrArg Thrown.escaped (escape_popFrames m old (h :: rest) high)
    · rw [if_neg hb, if_neg hb]
      by_cases hc : (decide (h.phase = .trying) && h.hasCatch) = true
      · rw [if_pos hc, if_pos hc]
        refine congrArg Thrown.handled ?_
        have hcatch := congrArg (fun q : Machine =>
          { q with stack := .exception exc :: q.stack, ip := h.catchAddr })
          (hunwind ({ h with phase := .catching } :: rest))
        exact hcatch
      · rw [if_neg hc, if_neg hc]
        by_cases hf : (!h.isFinalizing && h.hasFinally) = true
        · rw [if_pos hf, if_pos hf]
          refine congrArg Thrown.handled ?_
          have henter := congrArg (fun q : Machine => { q with ip := h.finallyAddr })
            (hunwind ({ h with phase := .finalizing (.exception exc) } :: rest))
          exact henter
        · rw [if_neg hf, if_neg hf]
          exact ih hrest

theorem throwTo_stages {b inner : Nat} {handlers : List Handler} (m : Machine) (exc : Nat)
    (low : max b 1 ≤ inner) (high : inner ≤ m.frames.length + 1)
    (sorted : handlers.Pairwise fun h below => below.callDepth ≤ h.callDepth) :
    match m.throwTo exc inner handlers with
    | .handled n => m.throwTo exc b handlers = .handled n
    | .escaped n => m.throwTo exc b handlers = n.throwTo exc b n.handlers := by
  -- Below the inner boundary nothing has been looked at yet, so the search goes on from there.
  have hstage {rest : List Handler} (hrest : ∀ h ∈ rest, h.callDepth < inner) :
      let n := popFrames (m.frames.length + 1 - max inner 1) { m with handlers := rest }
      m.throwTo exc b rest = n.throwTo exc b n.handlers := by
    intro n
    have hhandlers : n.handlers = rest := popFrames_handlers _ _
    rw [hhandlers]
    refine (throwTo_popFrames m rest (by omega) fun h hh => ?_).symm
    have hlt := hrest h hh
    omega
  induction handlers with
  | nil => exact hstage (by simp)
  | cons h rest ih =>
    rw [throwTo]
    by_cases hb : h.callDepth < inner
    · rw [if_pos hb]
      exact hstage (outside_of_head sorted (by simpa using hb))
    · have hb' : ¬h.callDepth < b := by omega
      rw [if_neg hb, throwTo, if_neg hb']
      by_cases hc : (decide (h.phase = .trying) && h.hasCatch) = true
      · rw [if_pos hc, if_pos hc]
      · rw [if_neg hc, if_neg hc]
        by_cases hf : (!h.isFinalizing && h.hasFinally) = true
        · rw [if_pos hf, if_pos hf]
        · rw [if_neg hf, if_neg hf]
          exact ih (List.pairwise_cons.mp sorted).2

/-- An exception that has been raised keeps its place. -/
theorem stamp_again {id : Nat} (hw : n.world = (stamp s m id).world) : stamp s n id = n := by
  by_cases hin : id < m.world.store.exceptions.size
  · have hplaced : (n.world.store.exception id).positioned = true := by
      rw [hw]
      unfold stamp
      dsimp only
      split
      · assumption
      · simp [Store.exception, hin, Array.getElem_modify, stamped]
    unfold stamp
    rw [if_pos hplaced]
  · have hstamp (q : Machine) (hq : ¬id < q.world.store.exceptions.size) : stamp s q id = q := by
      have hsame : q.world.store.exceptions.modify id (stamped s q) = q.world.store.exceptions := by
        simp [Array.modify, Array.modifyM, hq]
      unfold stamp
      dsimp only
      rw [hsame, ite_self]
    rw [hstamp m hin] at hw
    exact hstamp n (hw ▸ hin)

/-- What is left of a failure inside a loop goes on outside as the failure would have. -/
theorem offer_stages {f : Failure} {b inner : Nat} (ranked : m.Ranked) (low : max b 1 ≤ inner)
    (high : inner ≤ m.frames.length + 1) :
    match m.offer s f inner with
    | .inl n => m.offer s f b = .inl n
    | .inr (g, n) => m.offer s f b = n.offer s g b := by
  unfold offer
  cases he : m.exceptionOf f with
  | none =>
    dsimp only
    rw [he]
  | some e =>
    obtain ⟨id, q⟩ := e
    have hquiet := (exceptionOf_quiet he).trans (stamp_quiet (s := s) q id)
    have hlen : (stamp s q id).frames.length = m.frames.length := congrArg List.length hquiet.frames
    have hsorted := ranked.sorted
    rw [← (exceptionOf_quiet he).handlers] at hsorted
    have hstages := throwTo_stages (stamp s q id) id low (hlen ▸ high) hsorted
    dsimp only [throwException]
    cases ht : (stamp s q id).throwTo id inner q.handlers with
    | handled o =>
      rw [ht] at hstages
      dsimp only at hstages ⊢
      rw [hstages]
    | escaped o =>
      rw [ht] at hstages
      dsimp only at hstages ⊢
      -- What escapes has its place already, so stamping it once more changes nothing.
      have hworld : o.world = (stamp s q id).world := by
        have hlands := throwTo_lands (stamp s q id) id inner q.handlers
        rw [ht] at hlands
        obtain ⟨_, rest, _, _, rfl⟩ := hlands
        exact popFrames_world _ _
      have hexc : o.exceptionOf (.rethrow id) = some (id, o) := rfl
      rw [hstages, hexc]
      dsimp only
      rw [stamp_again hworld]

/-- A failure goes outwards by what it is offered to first. -/
theorem fail_eq_of_offer {f g : Failure} {L : List Loop}
    (h : m.offer s f (boundary L) = n.offer s g (boundary L)) :
    fail s true f m L = fail s true g n L := by
  cases L with
  | nil =>
    have hoffer : m.offer s f 0 = n.offer s g 0 := h
    unfold fail
    rw [hoffer]
  | cons l L =>
    have hoffer : m.offer s f l.boundary = n.offer s g l.boundary := h
    unfold fail
    simp only [if_true]
    rw [hoffer]

theorem offer_with_loops (f : Failure) (b : Nat) (m : Machine) (K : List Loop) :
    { m with loops := K }.offer s f b =
      (m.offer s f b).map (fun n => { n with loops := K }) fun e =>
        (e.1, { e.2 with loops := K }) := by
  have hdress := offer_dress (s := s) (FramesAlike.refl m.frames) K f b
  have hframes := offer_frames s m f b
  have hself {n : Machine} {k : Nat} (hn : n.frames = m.frames.drop k) :
      n.redress m.frames K = { n with loops := K } := by
    rw [redress_of_drop hn (FramesAlike.refl m.frames), ← hn]
    rfl
  refine hdress.trans ?_
  cases ho : m.offer s f b with
  | inl n =>
    rw [ho] at hframes
    obtain ⟨-, k, -, hn⟩ := hframes
    exact congrArg Sum.inl (hself hn)
  | inr e =>
    rw [ho] at hframes
    have hn : ∃ k, e.2.frames = m.frames.drop k :=
      hframes.elim (fun hn => ⟨0, hn⟩) fun hn => ⟨_, hn⟩
    obtain ⟨k, hn⟩ := hn
    exact congrArg (fun q => Sum.inr (e.1, q)) (hself hn)

/-- A failure meets the loops that are given along with it, whatever the machine holds. -/
theorem fail_with_loops (inside : Bool) (f : Failure) (m : Machine) (K L : List Loop) :
    fail s inside f { m with loops := K } L = fail s inside f m L := by
  induction L generalizing inside f m with
  | nil =>
    unfold fail
    rw [offer_with_loops]
    cases m.offer s f 0 <;> rfl
  | cons l L ih =>
    unfold fail
    cases inside with
    | false => exact ih (!l.nested) (f.named l.name) { m with ip := l.ip, pc := l.pc }
    | true =>
      simp only [if_true]
      rw [offer_with_loops]
      cases m.offer s f l.boundary with
      | inl n => rfl
      | inr e => exact ih (!l.nested) (e.1.named l.name) { e.2 with ip := l.ip, pc := l.pc }

end Machine

end BytecodeMachine
