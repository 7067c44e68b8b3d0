import BytecodeMachine.Proofs.Machine.Keeping
import BytecodeMachine.Proofs.Machine.Threads

/-! What a handler restores. Every step keeps what a handler remembers, until the handler is gone or a
transfer comes into one of its blocks; then the scope, the frames and the values are those there were
when it was pushed. -/
namespace BytecodeMachine

variable {s : Setup}

namespace Machine

variable {m₀ m n : Machine} {h : Handler} {rest : List Handler} {p : Phase}

theorem deliver_same {v : Value} (hd : m.deliver v = .running n) :
    m.Same n ∧ n.handlers = m.handlers := by
  unfold deliver at hd
  split at hd
  · cases hd
  · cases hd
    exact ⟨⟨rfl, rfl, rfl, rfl, rfl⟩, rfl⟩

/-- What a step needs of the machine it starts from. -/
structure Ready (m₀ : Machine) (h : Handler) (rest : List Handler) (p : Phase) (m : Machine) :
    Prop where
  kept : Kept m₀ h m
  held : Held h rest p m.handlers
  ranked : m.Ranked

namespace Ready

theorem goes (hr : Ready m₀ h rest p m) : Goes m₀ h rest p m :=
  fun _ => Or.inl ⟨hr.held, fun _ => hr.kept⟩

theorem same (hr : Ready m₀ h rest p m) (hs : m.Same n) (hh : n.handlers = m.handlers) :
    Ready m₀ h rest p n :=
  ⟨hr.kept.same hs, hh ▸ hr.held, hr.ranked.same hs hh⟩

theorem quiet (hr : Ready m₀ h rest p m) (hq : m.Quiet n) (hk : Kept m₀ h n) :
    Ready m₀ h rest p n := by
  refine ⟨hk, hq.handlers ▸ hr.held, ?_, ?_⟩
  · rw [hq.handlers]
    exact hr.ranked.sorted
  · rw [hq.handlers, hq.frames]
    exact hr.ranked.framed

theorem calm (hr : Ready m₀ h rest p m) (rem : h.Remembers m₀) {takes puts : Nat}
    (hc : m.Calm takes puts n) (room : h.stackHeight + takes ≤ m.stack.length) :
    Ready m₀ h rest p n := hr.quiet hc.toQuiet (hr.kept.calm rem hc room)

theorem drop (hr : Ready m₀ h rest p m) {above below : List Handler}
    (split : m.handlers = above ++ below) : Ready m₀ h rest p { m with handlers := below } := by
  have hheld := hr.held
  have hsorted := hr.ranked.sorted
  have hkept : Kept m₀ h { m with handlers := below } := hr.kept.same ⟨rfl, rfl, rfl, rfl, rfl⟩
  rw [split] at hheld hsorted
  refine ⟨hkept, hheld.split, (List.pairwise_append.mp hsorted).2.1, fun d hd => ?_⟩
  exact hr.ranked.framed d (by rw [split]; exact List.mem_append_right above hd)

theorem fail (hr : Ready m₀ h rest p m) (rem : h.Remembers m₀) {inside : Bool} {f : Failure}
    {L : List Loop} (hf : Machine.fail s inside f m L = .running n) : Goes m₀ h rest p n :=
  hr.kept.lands rem hr.ranked hr.held (fail_lands hr.ranked hf)

theorem deliver (hr : Ready m₀ h rest p m) {v : Value} (hd : m.deliver v = .running n) :
    Goes m₀ h rest p n :=
  (hr.same (deliver_same hd).1 (deliver_same hd).2).goes

theorem ordinary (hr : Ready m₀ h rest p m) (rem : h.Remembers m₀) {takes puts : Nat}
    {e : List Frame → List Loop → Effect} (he : Effect.Ordinary s m takes puts e)
    (room : h.stackHeight + takes ≤ m.stack.length)
    (hn : settle s (e m.frames m.loops) = .running n) : Goes m₀ h rest p n := by
  have hdress {q : Machine} {j puts : Nat} (hc : m.Calm j puts q) :
      q.dress m.frames m.loops = q := by
    rw [← hc.frames, ← hc.loops]
    rfl
  cases he with
  | next calm same =>
    rw [same _ _ rfl, hdress calm] at hn
    cases hn
    exact (hr.calm rem calm room).goes
  | failed calm part usual same =>
    rw [same _ _ rfl, hdress calm] at hn
    exact (hr.calm rem calm (by omega)).fail rem hn
  | @enters q c self args calm _ same =>
    rw [same _ _ rfl, hdress calm] at hn
    cases hn
    have hq := hr.calm rem calm room
    exact fun _ => Or.inl ⟨hq.held, fun _ => hq.kept.enterFrame rem c self args false⟩
  | @loops q l calm place boundary outer same =>
    rw [same _ _ rfl, hdress calm] at hn
    cases hn
    exact ((hr.calm rem calm room).same (n := q.startLoop l) ⟨rfl, rfl, rfl, rfl, rfl⟩ rfl).goes

theorem lands (hr : Ready m₀ h rest p m) (rem : h.Remembers m₀) (hl : m.Lands m.handlers n) :
    Goes m₀ h rest p n :=
  hr.kept.lands rem hr.ranked hr.held ⟨n, hl, Same.refl n, rfl, rfl⟩

/-- Handlers that do not belong to the current frame belong to those below it. -/
theorem inner (hr : Ready m₀ h rest p m)
    (passed : ∀ d ∈ m.handlers.head?, d.callDepth ≠ m.frames.length)
    (stays : rest.length < m.handlers.length) : h.callDepth < m.frames.length := by
  obtain ⟨upper, hupper, hunder⟩ := hr.held stays
  cases upper with
  | nil =>
    have hne : h.callDepth ≠ m.frames.length :=
      passed { h with phase := p } (by rw [hupper]; rfl)
    have hle : h.callDepth ≤ m.frames.length :=
      hr.ranked.framed { h with phase := p } (by rw [hupper]; simp)
    omega
  | cons d upper =>
    have hne := passed d (by rw [hupper]; rfl)
    have hle := hr.ranked.framed d (by rw [hupper]; simp)
    have hd := (hunder d (List.mem_cons_self ..)).callDepth
    omega

/-- The frame that a return drops is not the one of the handler, which the return has passed. -/
theorem giveBack (hr : Ready m₀ h rest p m) (rem : h.Remembers m₀) {v : Value}
    (hn : settle s (m.giveBack v) = .running n) : Goes m₀ h rest p n := by
  have hlands := returnThrough_lands m v m.handlers
  unfold Machine.giveBack at hn
  cases ht : m.returnThrough v m.handlers with
  | inl q =>
    rw [ht] at hn hlands
    cases hn
    exact hr.lands rem hlands
  | inr q =>
    rw [ht] at hn hlands
    obtain ⟨above, below, split, hq, hpassed⟩ := hlands
    have hready : Ready m₀ h rest p q := hq ▸ hr.drop split
    have hhead : ∀ d ∈ q.handlers.head?, d.callDepth ≠ q.frames.length := hq ▸ hpassed
    dsimp only at hn
    split at hn
    · exact hready.fail rem hn
    · next f fs hf =>
      have hpop (stays : rest.length < q.handlers.length) : Kept m₀ h q.popFrame :=
        hready.kept.popFrame rem (hready.inner hhead stays)
      intro stays
      split at hn
      · obtain ⟨hsame, hhandlers⟩ := deliver_same hn
        rw [popFrame_handlers] at hhandlers
        rw [hhandlers] at stays ⊢
        exact Or.inl ⟨hready.held, fun _ => (hpop stays).same hsame⟩
      · cases hn
        have hhandlers : q.popFrame.handlers = q.handlers := popFrame_handlers q
        have hsame : (q.popFrame.push v).Same ({ q.popFrame with ip := f.returnIp }.push v) :=
          ⟨rfl, rfl, rfl, rfl, rfl⟩
        change rest.length < q.popFrame.handlers.length at stays
        rw [hhandlers] at stays
        refine Or.inl ⟨?_, fun _ => ((hpop stays).push v).same hsame⟩
        change Held h rest p q.popFrame.handlers
        rw [hhandlers]
        exact hready.held

/-- A jump out of scopes leaves those of the handler to be left later. -/
theorem leaveTo (hr : Ready m₀ h rest p m) (rem : h.Remembers m₀) {target scopes : Int}
    (hn : settle s (Machine.leaveTo s m target scopes) = .running n) : Goes m₀ h rest p n := by
  have hlands := leaveThrough_lands m target (m.leaveDepth scopes) m.handlers
  unfold Machine.leaveTo at hn
  dsimp only at hn
  by_cases hpast : m.leaveDepth scopes < (m.scopeFloor : Int)
  · rw [if_pos hpast] at hn
    exact hr.fail rem hn
  · rw [if_neg hpast] at hn
    cases ht : m.leaveThrough target (m.leaveDepth scopes) m.handlers with
    | inl q =>
      rw [ht] at hn hlands
      cases hn
      exact hr.lands rem hlands
    | inr q =>
      rw [ht] at hn hlands
      obtain ⟨above, below, split, hq⟩ := hlands
      have hready : Ready m₀ h rest p q := hq ▸ hr.drop split
      have hdepth : q.scopeDepth = m.scopeDepth := by rw [hq]
      let k := ((q.scopeDepth : Int) - m.leaveDepth scopes).toNat
      have hk : k ≤ q.scopeDepth := by omega
      have hleft : (leaveScopes k q).scopeDepth = q.scopeDepth - k := leaveScopes_scopeDepth k q
      cases hn
      refine fun _ => Or.inl ⟨?_, fun inside => ?_⟩
      · change Held h rest p (leaveScopes k q).handlers
        rw [leaveScopes_handlers]
        exact hready.held
      · have hkept : Kept m₀ h (leaveScopes k q) := by
          refine hready.kept.leaveScopes rem k fun hlen => ?_
          have hin : h.scopeDepth ≤ (leaveScopes k q).scopeDepth := by
            refine inside ?_
            change (leaveScopes k q).frames.length = h.callDepth
            rw [leaveScopes_frames]
            exact hlen
          omega
        exact hkept.same ⟨rfl, rfl, rfl, rfl, rfl⟩

/-- The handler whose finally block ends is gone before what was put off goes on. -/
theorem endFinally (hr : Ready m₀ h rest p m) (rem : h.Remembers m₀)
    (hn : settle s (Machine.endFinally s m) = .running n) : Goes m₀ h rest p n := by
  unfold Machine.endFinally at hn
  split at hn
  · exact hr.fail rem hn
  · next d below hd =>
    have hdrop : Ready m₀ h rest p { m with handlers := below } :=
      hr.drop (show m.handlers = [d] ++ below from hd)
    dsimp only at hn
    split at hn
    · exact hdrop.fail rem hn
    · exact hdrop.giveBack rem hn
    · exact hdrop.leaveTo rem hn
    · cases hn
      exact hdrop.goes

theorem ret (hr : Ready m₀ h rest p m) (rem : h.Remembers m₀)
    (room : h.stackHeight + 1 ≤ m.stack.length)
    (hn : settle s (m.pop s fun v m => m.giveBack v) = .running n) : Goes m₀ h rest p n := by
  have hdrop := m.calm_drop 1
  cases hst : m.stack with
  | nil =>
    rw [pop_of_nil hst] at hn
    exact hr.fail rem hn
  | cons v stack =>
    rw [pop_of_cons hst] at hn
    rw [hst] at hdrop
    exact (hr.calm rem hdrop room).giveBack rem hn

theorem pushHandler (hr : Ready m₀ h rest p m) (rem : h.Remembers m₀)
    (stays : rest.length < m.handlers.length) (catchAddr finallyAddr : Int) :
    Ready m₀ h rest p (m.pushHandler s catchAddr finallyAddr) := by
  obtain ⟨upper, hframes, hback⟩ := hr.kept.frames
  obtain ⟨top, htop⟩ := hr.kept.stack
  have hkept : Kept m₀ h (m.pushHandler s catchAddr finallyAddr) :=
    hr.kept.same ⟨rfl, rfl, rfl, rfl, rfl⟩
  refine ⟨hkept, hr.held.push ⟨hr.kept.callDepth_le rem, ?_, fun hlen => ?_⟩ stays, ?_, ?_⟩
  · change h.stackHeight ≤ m.stack.length
    rw [htop, List.length_append, rem.stackHeight]
    omega
  · have hnone : upper = [] := by
      change m.frames.length = h.callDepth at hlen
      rw [hframes, List.length_append, rem.callDepth] at hlen
      exact List.length_eq_zero_iff.mp (by omega)
    rw [hnone] at hback
    exact hback.1
  · exact List.pairwise_cons.mpr ⟨hr.ranked.framed, hr.ranked.sorted⟩
  · exact List.forall_mem_cons.mpr ⟨Nat.le_refl _, hr.ranked.framed⟩

theorem perform (hr : Ready m₀ h rest p m) (rem : h.Remembers m₀)
    (stays : rest.length < m.handlers.length) (o : Operand) (op : Opcode)
    (room : h.stackHeight + m.takes s o op ≤ m.stack.length)
    (hn : settle s (m.perform s o op) = .running n) : Goes m₀ h rest p n := by
  by_cases hop : op.transfers = false
  · exact hr.ordinary rem (perform_ordinary o hop) room hn
  · cases op
    case pushScope =>
      cases hn
      exact fun _ => Or.inl ⟨hr.held, fun _ => hr.kept.pushScope⟩
    case popScope =>
      change settle s (m.popScope s) = .running n at hn
      unfold Machine.popScope at hn
      split at hn
      · exact hr.fail rem hn
      · next hfloor =>
        cases hn
        refine fun _ => Or.inl ⟨hr.held, fun inside => hr.kept.leaveScopes rem 1 fun hlen => ?_⟩
        have hin : h.scopeDepth ≤ m.scopeDepth - 1 := inside hlen
        omega
    case leave => exact hr.leaveTo rem hn
    case ret => exact hr.ret rem room hn
    case tryPush =>
      cases hn
      exact (hr.pushHandler rem stays _ _).goes
    case tryPop =>
      change settle s (m.popHandler s) = .running n at hn
      unfold Machine.popHandler at hn
      split at hn
      · exact hr.fail rem hn
      · next d below hd =>
        cases hn
        exact (hr.drop (m := m) (show m.handlers = [d] ++ below from hd)).goes
    case endFinally => exact hr.endFinally rem hn
    all_goals exact absurd rfl hop

/-- Calling back: what a callback finds are the old values and those put on them since. -/
theorem callBack (hr : Ready m₀ h rest p m) (rem : h.Remembers m₀) {callee : Value}
    {args : List Value} (hn : m.callBack s callee args = .running n) : Goes m₀ h rest p n := by
  unfold Machine.callBack at hn
  split at hn
  · exact hr.fail rem hn
  · split at hn
    · next c self _ =>
      split at hn
      · exact hr.fail rem hn
      · cases hn
        exact fun _ => Or.inl ⟨hr.held, fun _ =>
          (hr.kept.enterFrame rem c self args true).same ⟨rfl, rfl, rfl, rfl, rfl⟩⟩
    · have hquiet := m.callNative_quiet (s := s) true callee args
      obtain ⟨r, w, hr'⟩ | ⟨l, hr', -⟩ := callNative_cases s m true callee args
      · rw [hr'] at hn hquiet
        have hready := hr.quiet hquiet (hr.kept.quiet hquiet hr.kept.stack)
        cases r with
        | ok v => exact hready.deliver hn
        | error f => exact hready.fail rem hn
      · rw [hr'] at hn
        cases hn
        exact (hr.same (n := m.startLoop l) ⟨rfl, rfl, rfl, rfl, rfl⟩ rfl).goes

theorem iterate (hr : Ready m₀ h rest p m) (rem : h.Remembers m₀)
    (hn : m.iterate s = .running n) : Goes m₀ h rest p n := by
  unfold Machine.iterate at hn
  split at hn
  · cases hn
    exact (hr.same (n := { m with control := .fetch }) ⟨rfl, rfl, rfl, rfl, rfl⟩ rfl).goes
  · next l L _ =>
    split at hn
    · unfold endLoop at hn
      dsimp only at hn
      have hquiet : m.Quiet { m with world := (l.result m.world).2, loops := L } :=
        Quiet.of_eq rfl rfl rfl rfl (l.result_works m.world : m.world.Works s.program true _).scopes
      have hready := hr.quiet hquiet (hr.kept.quiet hquiet hr.kept.stack)
      split at hn
      · exact hready.deliver hn
      · cases hn
        have hpush := hready.kept.push (l.result m.world).1
        exact fun _ => Or.inl ⟨hready.held, fun _ => hpush.same ⟨rfl, rfl, rfl, rfl, rfl⟩⟩
    · next e es _ =>
      let l' : Loop := { (l.take e es).1 with boundary := m.frames.length + 1 }
      have hready : Ready m₀ h rest p { m with loops := l' :: L } :=
        hr.same ⟨rfl, rfl, rfl, rfl, rfl⟩ rfl
      exact hready.callBack rem hn

end Ready

/-- How many values the next step takes off the stack. -/
def nextTakes (s : Setup) (m : Machine) : Nat :=
  match m.control with
  | .iterate => 0
  | .fetch =>
    match s.program.instruction? m.ip with
    | none => 0
    | some ins =>
      match Opcode.ofCode? ins.op with
      | none => 0
      | some op => (m.begun s ins).takes s ins.operand op

/-- Ordinary flow can come to the finally block of the handler itself. -/
theorem Ready.mark (hr : Ready m₀ h rest p m) : ∃ p', (p' = p ∨ p' = .finalizing .nothing) ∧
    Ready m₀ h rest p' m.markFinalizing := by
  have hkept := hr.kept.same m.markFinalizing_same
  have hranked := hr.ranked.mark
  suffices hheld : ∃ p', (p' = p ∨ p' = .finalizing .nothing) ∧
      Held h rest p' m.markFinalizing.handlers by
    obtain ⟨p', hp', hheld⟩ := hheld
    exact ⟨p', hp', hkept, hheld, hranked⟩
  unfold markFinalizing
  split
  · exact ⟨p, Or.inl rfl, hr.held⟩
  · next d below hd =>
    split
    · by_cases stays : rest.length ≤ below.length
      · have hheld := hr.held
        rw [hd] at hheld
        obtain ⟨-, ⟨rfl, rfl⟩ | hheld⟩ := @Held.under h rest p [] below d hheld stays
        · exact ⟨.finalizing .nothing, Or.inr rfl, fun _ => ⟨[], rfl, by simp⟩⟩
        · exact ⟨p, Or.inl rfl, hheld _⟩
      · refine ⟨p, Or.inl rfl, fun hmany => ?_⟩
        exact absurd (Nat.le_of_lt_succ hmany) stays
    · exact ⟨p, Or.inl rfl, hr.held⟩

theorem markFinalizing_length (m : Machine) :
    m.markFinalizing.handlers.length = m.handlers.length := by
  unfold markFinalizing
  split
  · rfl
  · next hd =>
    split
    · rw [hd]
      rfl
    · rfl

/-- A run that goes on after an instruction has executed it. -/
theorem settle_of_running {ins : Instruction} (hc : m.control = .fetch)
    (hi : s.program.instruction? m.ip = some ins) (hn : m.advance s = .running n) :
    settle s ((m.begun s ins).step s ins) = .running n := by
  unfold Machine.advance at hn
  rw [hc] at hn
  change m.fetch s = .running n at hn
  cases hgo : m.tick.stopBefore? with
  | none => exact (fetch_eq_settle hi hgo).symm.trans hn
  | some reason =>
    unfold fetch at hn
    rw [hi] at hn
    dsimp only at hn
    obtain ⟨ip, pc, he⟩ := fail_eq_ended (s := s) (f := .stopped reason) rfl true m.tick
      m.tick.loops
    rw [hgo] at hn
    exact absurd (he.symm.trans hn) (by simp)

/-- What a handler remembers is kept by every step, until the handler is gone or a transfer comes into
one of its blocks. -/
theorem Ready.advance (hr : Ready m₀ h rest p m) (rem : h.Remembers m₀)
    (stays : rest.length < m.handlers.length)
    (room : h.stackHeight + m.nextTakes s ≤ m.stack.length) (hn : m.advance s = .running n) :
    ∃ p', (p' = p ∨ p' = .finalizing .nothing) ∧ Goes m₀ h rest p' n := by
  have hadvance := hn
  unfold Machine.advance at hn
  cases hc : m.control with
  | iterate =>
    rw [hc] at hn
    exact ⟨p, Or.inl rfl, hr.iterate rem hn⟩
  | fetch =>
    rw [hc] at hn
    change m.fetch s = .running n at hn
    cases hi : s.program.instruction? m.ip with
    | none =>
      unfold fetch at hn
      rw [hi] at hn
      dsimp only at hn
      refine ⟨p, Or.inl rfl, ?_⟩
      split at hn
      · exact hr.deliver hn
      · have hplace : Ready m₀ h rest p { m with pc := m.ip } :=
          hr.same ⟨rfl, rfl, rfl, rfl, rfl⟩ rfl
        exact hplace.fail rem hn
    | some ins =>
      have hn := settle_of_running hc hi hadvance
      have htick : Ready m₀ h rest p m.tick := hr.same ⟨rfl, rfl, rfl, rfl, rfl⟩ rfl
      -- The phase can change here, before the instruction: its address may be that of a finally block.
      obtain ⟨p', hp', hmark⟩ := htick.mark
      have hsame : m.tick.markFinalizing.Same (m.begun s ins) := by
        unfold begun traced
        split <;> exact ⟨rfl, rfl, rfl, rfl, rfl⟩
      have hhandlers := m.begun_handlers (s := s) ins
      have hbegun := hmark.same hsame hhandlers
      have hlen : rest.length < (m.begun s ins).handlers.length := by
        rw [hhandlers, markFinalizing_length]
        exact stays
      refine ⟨p', hp', ?_⟩
      unfold nextTakes at room
      rw [hc, hi] at room
      unfold step at hn
      cases hop : Opcode.ofCode? ins.op with
      | none =>
        rw [hop] at hn
        exact hbegun.fail rem hn
      | some op =>
        rw [hop] at hn
        dsimp only at room
        rw [hop] at room
        refine hbegun.perform rem hlen ins.operand op ?_ hn
        rw [(m.begun_same ins).stack]
        exact room

/-- A handler that has just been pushed remembers the machine as it is. -/
theorem pushed_ready (hop : m.opcode? s = some .tryPush) (hn : m.advance s = .running m₀)
    (top : m₀.handlers = h :: rest) (ranked : m₀.Ranked) :
    h.Remembers m₀ ∧ Ready m₀ h rest .trying m₀ := by
  obtain ⟨hc, ins, hi, hcode⟩ := executes_of_opcode? hop
  have hins := settle_of_running hc hi hn
  unfold step at hins
  rw [hcode] at hins
  cases hins
  cases top
  have hself : Scopes.LeadsBack (m.begun s ins).scopes (m.begun s ins).scope
      (m.begun s ins).scopeDepth (m.begun s ins).stack.length [] (m.begun s ins).scope
      (m.begun s ins).scopeDepth := by
    refine ⟨Nat.le_refl _, ?_⟩
    rw [Nat.sub_self]
    rfl
  exact ⟨⟨rfl, rfl, rfl⟩, ⟨⟨[], rfl, hself⟩, [], rfl⟩, fun _ => ⟨[], rfl, by simp⟩, ranked⟩

theorem Goes.ready {p : Phase} (hg : Goes m₀ h rest p n) (stays : rest.length < n.handlers.length)
    (inside : Inside h n) (ranked : n.Ranked) : ∃ p, Ready m₀ h rest p n := by
  obtain ⟨held, kept⟩ | hr := hg stays
  · exact ⟨p, kept inside, held, ranked⟩
  · obtain ⟨p', held⟩ := hr.held
    exact ⟨p', hr.kept, held, ranked⟩

/-- A step comes into a block of a handler: the handler, which is on top now, has a phase that it did
not have before, and not because ordinary flow has come to its finally block. -/
def JumpsTo (h : Handler) (rest : List Handler) (m n : Machine) : Prop :=
  ∃ p, p ≠ .finalizing .nothing ∧ n.handlers = { h with phase := p } :: rest ∧
    ∀ above, m.handlers ≠ above ++ { h with phase := p } :: rest

/-- The next step takes no value off the stack that a handler has found there, and in the frame of the
handler its scope has not been left. -/
structure Stands (s : Setup) (h : Handler) (rest : List Handler) (m : Machine) : Prop where
  stays : rest.length < m.handlers.length
  room : h.stackHeight + m.nextTakes s ≤ m.stack.length
  inside : m.frames.length = h.callDepth → h.scopeDepth ≤ m.scopeDepth

/-- The step into a block of the handler brings back what it remembers. -/
theorem Ready.restored (hr : Ready m₀ h rest p m) (rem : h.Remembers m₀) (hs : m.Stands s h rest)
    (hn : m.advance s = .running n) (hj : m.JumpsTo h rest n) : Restored m₀ h rest n := by
  obtain ⟨p', hp', hgoes⟩ := hr.advance rem hs.stays hs.room hn
  obtain ⟨p₁, hp₁, hnew, hold⟩ := hj
  have hlen : n.handlers.length = rest.length + 1 := congrArg List.length hnew
  -- Had no transfer come into the handler, it would have had its phase before.
  obtain ⟨held, -⟩ | hrestored := hgoes (by omega)
  · exfalso
    obtain ⟨above, heq, -⟩ := held (by omega)
    obtain ⟨before, hbefore, -⟩ := hr.held hs.stays
    have hnone : above = [] := by
      have hlong := congrArg List.length heq
      rw [List.length_append, List.length_cons] at hlong
      exact List.length_eq_zero_iff.mp (by omega)
    have hphase : p₁ = p' := by
      rw [hnew, hnone] at heq
      exact congrArg Handler.phase (List.cons.inj heq).1
    rcases hp' with hp' | hp'
    · rw [hphase, hp'] at hold
      exact hold before hbefore
    · exact hp₁ (hphase.trans hp')
  · exact hrestored

end Machine

/-- A handler is pushed. For some steps it stays, no value that it has found is taken off the stack,
and in its frame its scope is not left. Then a transfer comes into one of its blocks: the scope, the
frames and the values are those there were when it was pushed, and a catch block finds the exception on
top of them, whatever scopes, calls, handlers and callbacks there were in between. -/
theorem Setup.handler_restores {w : World} {o : RunOptions} {n k : Nat} {m m₀ m' m₁ : Machine}
    {h : Handler} {rest : List Handler} (before : s.stateAfter w o n = .running m)
    (push : m.opcode? s = some .tryPush) (pushed : s.stateAfter w o (n + 1) = .running m₀)
    (top : m₀.handlers = h :: rest)
    (between : ∀ j ≤ k, ∀ q, s.stateAfter w o (n + 1 + j) = .running q → q.Stands s h rest)
    (last : s.stateAfter w o (n + 1 + k) = .running m')
    (after : s.stateAfter w o (n + 1 + k + 1) = .running m₁) (jump : m'.JumpsTo h rest m₁) :
    m₁.scope = m₀.scope ∧ m₁.scopeDepth = h.scopeDepth ∧ m₁.frames = m₀.frames ∧
      ((∃ exc, m₁.handlers = { h with phase := .catching } :: rest ∧
          m₁.stack = .exception exc :: m₀.stack ∧ m₁.ip = h.catchAddr) ∨
        ∃ pending, pending ≠ .nothing ∧
          m₁.handlers = { h with phase := .finalizing pending } :: rest ∧
          m₁.stack = m₀.stack ∧ m₁.ip = h.finallyAddr) := by
  have hranked {i : Nat} {q : Machine} (hq : s.stateAfter w o i = .running q) : q.Ranked := by
    have hwell := s.wellFormed_stateAfter w o i
    rw [hq] at hwell
    exact hwell.ranked
  have hpush : m.advance s = .running m₀ := by
    rw [stateAfter_succ, before] at pushed
    exact pushed
  obtain ⟨rem, hstart⟩ := Machine.pushed_ready push hpush top (hranked pushed)
  -- The invariant holds from the push on; only the phase of the handler may change.
  have hrun (j : Nat) (hj : j ≤ k) : ∀ q, s.stateAfter w o (n + 1 + j) = .running q →
      ∃ p, Machine.Ready m₀ h rest p q := by
    induction j with
    | zero =>
      intro q hq
      cases pushed.symm.trans hq
      exact ⟨.trying, hstart⟩
    | succ j ih =>
      intro q' hq'
      have hst := between (j + 1) hj q' hq'
      have hr' := hranked hq'
      rw [← Nat.add_assoc, stateAfter_succ] at hq'
      cases hq : s.stateAfter w o (n + 1 + j) with
      | ended e q =>
        rw [hq] at hq'
        cases hq'
      | running q =>
        rw [hq] at hq'
        obtain ⟨p, hready⟩ := ih (by omega) q hq
        have hs := between j (by omega) q hq
        obtain ⟨p', -, hgoes⟩ := hready.advance rem hs.stays hs.room hq'
        exact hgoes.ready hst.stays hst.inside hr'
  obtain ⟨p, hready⟩ := hrun k (Nat.le_refl k) m' last
  have hlast : m'.advance s = .running m₁ := by
    rw [stateAfter_succ, last] at after
    exact after
  have hrestored := hready.restored rem (between k (Nat.le_refl k) m' last) hlast jump
  exact ⟨hrestored.scope, hrestored.scopeDepth, hrestored.frames, hrestored.block⟩

/-- A function throws in a scope of its own, inside a protected region of its caller, which has a value
on the stack. -/
def Program.throwing : Program where
  code? := some #[
    { op := Opcode.pushTrue.code },
    { op := Opcode.tryPush.code, operand := { int := 4, int2 := -1 } },
    { op := Opcode.call.code, operand := { name := [102] } },
    { op := Opcode.tryPop.code },
    { op := Opcode.halt.code },
    { op := Opcode.pushScope.code },
    { op := Opcode.pushNull.code },
    { op := Opcode.throw.code }]
  functions := Table.ofList [([102], { name := [102], address := 5 })]

def Setup.throwing : Setup where
  program := Program.throwing
  regionEnds := Region.ends Program.throwing.code

/-- The values of the function are gone, and so are its scope and its frame. -/
theorem Setup.throwing_restores : ∃ m₀ m₁ exc, throwing.stateAfter {} {} 2 = .running m₀ ∧
    throwing.stateAfter {} {} 6 = .running m₁ ∧ m₁.scope = m₀.scope ∧ m₁.frames = m₀.frames ∧
    m₁.stack = [.exception exc, .bool true] ∧ m₁.ip = 4 := by
  let state (n : Nat) : Machine := (throwing.stateAfter {} {} n).machine
  let h : Handler := ⟨4, -1, 1, 4, 0, 0, 1, .trying⟩
  have hbetween : ∀ j ≤ 3, ∀ q, throwing.stateAfter {} {} (1 + 1 + j) = .running q →
      q.Stands throwing h [] := by
    intro j hj q hq
    have hstate : q = state (1 + 1 + j) := by
      change q = (throwing.stateAfter {} {} (1 + 1 + j)).machine
      rw [hq]
      rfl
    subst hstate
    have hj : j = 0 ∨ j = 1 ∨ j = 2 ∨ j = 3 := by omega
    rcases hj with rfl | rfl | rfl | rfl <;> exact ⟨by decide, by decide, by decide⟩
  have hjump : (state 5).JumpsTo h [] (state 6) := by
    refine ⟨.catching, by decide, rfl, fun above heq => ?_⟩
    have hsame : [h] = above ++ [{ h with phase := .catching }] := heq
    cases above with
    | nil => exact absurd hsame (by decide)
    | cons a above => simp at hsame
  obtain ⟨hscope, -, hframes, hblock⟩ := @handler_restores throwing {} {} 1 3 (state 1) (state 2)
    (state 5) (state 6) h [] rfl rfl rfl rfl hbetween rfl rfl hjump
  have hcaught : (state 6).handlers = [{ h with phase := .catching }] := rfl
  obtain ⟨exc, -, hstack, hip⟩ | ⟨pending, -, hfinally, -⟩ := hblock
  · exact ⟨state 2, state 6, exc, rfl, rfl, hscope, hframes, hstack, hip⟩
  · rw [hcaught] at hfinally
    cases hfinally

end BytecodeMachine
