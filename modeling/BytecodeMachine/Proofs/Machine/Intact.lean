import BytecodeMachine.Proofs.Machine.Underway

/-! What a callback leaves of the native call that it interrupts: everything. Step by step the run stays
inside the callback, and where it is back at the loop, or where an exception has come as far, the place,
the scope and the frames are those of the call, no handler of the callback is left, and the handlers and
values of the caller are there, but for those that the callback itself has taken away. -/
namespace BytecodeMachine

variable {s : Setup}

namespace Machine

variable {m n q : Machine} {l : Loop} {outer : List Loop} {V : List Value} {R : List Handler}

theorem giveBack_returned {v v' : Value} (h : q.giveBack v = .returned v' n) :
    ∀ g ∈ q.frames.head?, n.site.Within g.site := by
  have hpasses := returnThrough_passes q v q.handlers
  unfold giveBack at h
  cases ht : q.returnThrough v q.handlers with
  | inl p =>
    rw [ht] at h
    cases h
  | inr p =>
    rw [ht] at h hpasses
    obtain ⟨-, rest, -, rfl, -⟩ := hpasses
    dsimp only at h
    split at h
    · cases h
    · next f G hf =>
      intro g hg
      have hfg : f = g := by
        rw [show q.frames = f :: G from hf] at hg
        exact Option.some.inj hg
      split at h
      · cases h
        exact hfg ▸ popFrame_site hf
      · cases h

theorem leaveTo_ne_returned (target scopes : Int) (v : Value) :
    leaveTo s q target scopes ≠ .returned v n := by
  intro h
  unfold leaveTo at h
  dsimp only at h
  split at h
  · cases h
  · split at h <;> cases h

/-- A callback that returns leaves what its frame remembers. -/
theorem step_returned {ins : Instruction} {v : Value} (h : q.step s ins = .returned v n) :
    ∀ g ∈ q.frames.head?, n.site.Within g.site := by
  unfold step at h
  cases hop : Opcode.ofCode? ins.op with
  | none =>
    rw [hop] at h
    cases h
  | some op =>
    rw [hop] at h
    change q.perform s ins.operand op = .returned v n at h
    by_cases ho : op.transfers = false
    · exact absurd h (ordinary_ne_returned ins.operand ho v n)
    · cases op
      case pushScope => cases h
      case popScope =>
        change q.popScope s = _ at h
        unfold popScope at h
        split at h <;> cases h
      case leave => exact absurd h (leaveTo_ne_returned _ _ v)
      case ret =>
        change (q.pop s fun v q => q.giveBack v) = _ at h
        unfold pop at h
        split at h
        · cases h
        · next stack _ => exact giveBack_returned (q := { q with stack := stack }) h
      case tryPush => cases h
      case tryPop =>
        change q.popHandler s = _ at h
        unfold popHandler at h
        split at h <;> cases h
      case endFinally =>
        change endFinally s q = _ at h
        unfold endFinally at h
        split at h
        · cases h
        · next rest _ =>
          dsimp only at h
          split at h
          · cases h
          · exact giveBack_returned (q := { q with handlers := rest }) h
          · exact absurd h (leaveTo_ne_returned _ _ v)
          · cases h
      all_goals exact absurd rfl ho

/-- An instruction of the callback. -/
theorem carries_of_settle {e : List Frame → List Loop → Effect} (he : Effect.Natural s q e)
    (h : Underway m l outer .fetch q.loops q.frames q.site) (hc : q.control = .fetch)
    (ranked : q.Ranked) (above : (e q.frames q.loops).machine.Above m.frames V R)
    (returned : ∀ v n, e q.frames q.loops = .returned v n →
      ∀ g ∈ q.frames.head?, n.site.Within g.site)
    (after : ∀ p, settle s (e q.frames q.loops) = .running p → p.Ranked)
    (written : ∀ t n, e q.frames q.loops ≠ .failed (.output t) n) :
    Carries s m l outer V R (settle s (e q.frames q.loops)) := by
  have hself := FramesAlike.refl q.frames
  have hgoes {p : Machine} (hp : p.control = .fetch)
      (h : Underway m l outer .fetch p.loops p.frames p.site) (above : p.Above m.frames V R) :
      Carries s m l outer V R (.running p) :=
    .inside (hp.symm ▸ h) (fun hiter => absurd (hp.symm.trans hiter) (by simp)) above
  cases he with
  | @next p keeps same =>
    rw [same _ _ hself] at above ⊢
    exact hgoes (keeps.control.trans hc) h.anywhere above
  | @failed f p keeps left usual same =>
    rw [same _ _ hself] at above
    rcases usual with hf | hf | ⟨t, rfl⟩
    · have hranked : (p.dress q.frames q.loops).Ranked :=
        ⟨ranked.sorted.sublist left.sublist, fun d hd => ranked.framed d (left.subset hd)⟩
      rw [same _ _ hself]
      exact carries_of_exception h rfl rfl (fun hno => by cases hno) above hranked hf
    · rw [same _ _ hself]
      exact carries_of_final hf true _ _
    · exact absurd (same _ _ hself) (written t _)
  | @enters p c self args keeps room same =>
    rw [same _ _ hself] at above ⊢
    exact hgoes (p := (p.dress q.frames q.loops).enterFrame c self args false)
      (keeps.control.trans hc) (h.call rfl) above
  | @loops p y keeps place boundary called same =>
    rw [same _ _ hself] at above ⊢
    exact .inside (q := (p.dress q.frames q.loops).startLoop y) (.started y called h)
      (fun _ => Nat.lt_succ_of_le h.loops_suffix.length_le) above
  | @returns p g v top loops control same =>
    have heffect : e q.frames q.loops =
        if g.callback then .returned v (p.dress p.frames q.loops)
        else .next (({ p with ip := g.returnIp }.push v).dress p.frames q.loops) := by
      rw [top]
      exact same g _ _ rfl (FramesAlike.refl p.frames)
    rw [top] at h
    obtain ⟨hg, h⟩ | ⟨hg, h⟩ := h.pop (u := p.site)
    · rw [heffect, hg] at above ⊢
      exact hgoes (p := ({ p with ip := g.returnIp }.push v).dress p.frames q.loops)
        (control.trans hc) h.anywhere above
    · rw [hg] at heffect
      have hsite := returned v _ heffect g (by rw [top]; rfl)
      rw [heffect] at above after ⊢
      have hlift : Underway m l outer .iterate q.loops p.frames (p.dress p.frames q.loops).site :=
        h.within hsite
      refine carries_of_deliver (n := p.dress p.frames q.loops) hlift above ?_ v
      -- The loop that the value goes to is there, so the step goes on, with the same handlers.
      cases hl : q.loops with
      | nil =>
        rw [hl] at h
        cases h
      | cons y K =>
        have hdeliver : (p.dress p.frames q.loops).deliver v =
            .running { p.dress p.frames q.loops with
              loops := y.absorb p.world.store v :: K, control := .iterate, ip := y.ip, pc := y.pc } := by
          unfold deliver
          rw [show (p.dress p.frames q.loops).loops = y :: K from hl]
          rfl
        have hranked := after _ hdeliver
        exact ⟨hranked.sorted, hranked.framed⟩

theorem Above.begun {F : List Frame} (h : q.Above F V R) (inner : F.length < q.frames.length)
    (ins : Instruction) : (q.begun s ins).Above F V R := by
  have htick : q.tick.Above F V R := h.of_eq rfl rfl h.values
  have hmark := htick.mark inner
  refine hmark.same ?_ (q.begun_handlers ins)
  unfold Machine.begun traced
  split <;> exact ⟨rfl, rfl, rfl, rfl, rfl⟩

/-- The next step closes a protected region, whoever it belongs to. -/
def ClosesRegion (s : Setup) (q : Machine) : Prop :=
  q.opcode? s = some .tryPop ∨ q.opcode? s = some .endFinally

theorem begun_handlers_length (q : Machine) (ins : Instruction) :
    (q.begun s ins).handlers.length = q.handlers.length := by
  rw [begun_handlers, markFinalizing_length]
  rfl

/-- What an instruction does above. The handlers at the bottom stay unless it closes a region with no
handler above. -/
theorem Above.step {F : List Frame} {ins : Instruction} (h : q.Above F V R)
    (control : q.control = .fetch) (has : s.program.instruction? q.ip = some ins)
    (inner : F.length < q.frames.length) (ranked : q.Ranked)
    (room : V = [] ∨ V.length + q.nextTakes s ≤ q.stack.length) :
    ∃ R', R' <:+ R ∧ ((q.ClosesRegion s → R.length < q.handlers.length) → R' = R) ∧
      ((q.begun s ins).step s ins).machine.Above F V R' := by
  have hbegun := h.begun (s := s) inner ins
  have hlen : F.length < (q.begun s ins).frames.length :=
    (q.begun_keeps (s := s) ins).frames.symm ▸ inner
  have hstack : (q.begun s ins).stack = q.stack := (q.begun_same ins).stack
  have hopcode : q.opcode? s = Opcode.ofCode? ins.op := by
    unfold opcode?
    rw [control, has]
    rfl
  unfold nextTakes at room
  rw [control, has] at room
  unfold Machine.step
  cases hop : Opcode.ofCode? ins.op with
  | none => exact ⟨R, List.suffix_rfl, fun _ => rfl, hbegun⟩
  | some op =>
    rw [hop] at hopcode
    dsimp only at room
    rw [hop] at room
    obtain ⟨R', hle, hwhole, hdone⟩ :=
      hbegun.perform (s := s) hlen (ranked.begun (s := s) ins) ins.operand op (hstack.symm ▸ room)
    refine ⟨R', hle, fun hown => hwhole fun hcloses => ?_, hdone⟩
    rw [begun_handlers_length]
    refine hown ?_
    unfold ClosesRegion
    rw [hopcode]
    exact hcloses.imp (congrArg some) (congrArg some)

/-- A step inside a callback. -/
theorem carries_of_advance {bases : List Nat}
    (h : Underway m l outer q.control q.loops q.frames q.site)
    (deep : q.control = .iterate → outer.length + 1 < q.loops.length) (well : q.WellFormed s bases)
    (above : q.Above m.frames V R) (room : V = [] ∨ V.length + q.nextTakes s ≤ q.stack.length)
    (written : ∀ t n, ¬q.Fails s (.output t) n) :
    ∃ R', R' <:+ R ∧ ((q.ClosesRegion s → R.length < q.handlers.length) → R' = R) ∧
      Carries s m l outer V R' (q.advance s) := by
  have hranked := well.ranked
  cases hc : q.control with
  | iterate =>
    rw [hc] at h
    have hiter := carries_of_iterate (s := s) h (deep hc) above hranked
    refine ⟨R, List.suffix_rfl, fun _ => rfl, ?_⟩
    unfold advance
    rw [hc]
    exact hiter
  | fetch =>
    rw [hc] at h
    cases hi : s.program.instruction? q.ip with
    | none =>
      -- Inside the callback there is a frame, so running off the end is a fault.
      have hpast : (q.ip = (s.program.code.size : Int) && q.frames.isEmpty) = false := by
        have hframes : q.frames.isEmpty = false := by
          rw [List.isEmpty_eq_false_iff, ← List.length_pos_iff]
          exact Nat.zero_lt_of_lt h.length_lt
        rw [hframes, Bool.and_false]
      obtain ⟨inside, hadvance, -⟩ := (Fails.outside hc hi hpast).advance_eq
      rw [hadvance]
      exact ⟨R, List.suffix_rfl, fun _ => rfl, carries_of_final rfl inside _ _⟩
    | some ins =>
      cases hgo : q.tick.stopBefore? with
      | some reason =>
        obtain ⟨inside, hadvance, -⟩ := (Fails.stopped hc hi hgo).advance_eq
        rw [hadvance]
        exact ⟨R, List.suffix_rfl, fun _ => rfl, carries_of_final rfl inside _ _⟩
      | none =>
        have hadvance : q.advance s = settle s ((q.begun s ins).step s ins) := by
          unfold advance
          rw [hc]
          exact fetch_eq_settle hi hgo
        have hkeeps := q.begun_keeps (s := s) ins
        have hbranked := hranked.begun (s := s) ins
        have hunder : Underway m l outer .fetch (q.begun s ins).loops (q.begun s ins).frames
            (q.begun s ins).site := by
          rw [hkeeps.loops, hkeeps.frames]
          exact h.anywhere
        obtain ⟨R', hle, hwhole, hdone⟩ := above.step hc hi h.length_lt hranked room
        refine ⟨R', hle, hwhole, ?_⟩
        have hafter (p : Machine) (hp : q.advance s = .running p) : p.Ranked := by
          have hwell := well.advance
          rw [hp] at hwell
          exact hwell.ranked
        rw [hadvance] at hafter ⊢
        exact carries_of_settle (step_natural (q.begun s ins) ins) hunder (hkeeps.control.trans hc)
          hbranked hdone (fun v n hr => step_returned hr) hafter
          fun t n hfail => written t n (.instruction hc hi hgo hfail)

/-- The place, the scope and the frames are as before, and no handler is new. -/
structure Back (m q : Machine) : Prop where
  ip : q.ip = m.ip
  pc : q.pc = m.pc
  scope : q.scope = m.scope
  scopeDepth : q.scopeDepth = m.scopeDepth
  frames : q.frames = m.frames
  handlers : q.handlers <:+ m.handlers

/-- In the first steps of a run, regions are closed only where there are more handlers than before. -/
def ClosesOwnRegions (s : Setup) (m : Machine) (run : Nat → Status) (k : Nat) : Prop :=
  ∀ j < k, ∀ p, run j = .running p → p.ClosesRegion s → m.handlers.length < p.handlers.length

/-- In the first steps of a run, no instruction takes values that were on the stack before. -/
def TakesOwnValues (s : Setup) (m : Machine) (run : Nat → Status) (k : Nat) : Prop :=
  ∀ j < k, ∀ p, run j = .running p → m.stack.length + p.nextTakes s ≤ p.stack.length

end Machine

/-- A loop waits for its callback, which has loops or frames on top. -/
def Status.InCallback (m : Machine) (l : Loop) (outer : List Loop) : Status → Prop
  | .running q => m.frames <:+ q.frames ∧ l :: outer <:+ q.loops ∧
      (m.frames.length < q.frames.length ∨ outer.length + 1 < q.loops.length)
  | .ended _ _ => False

namespace Machine

variable {m q : Machine} {l : Loop} {outer : List Loop}

/-- How a callback is over: a final failure has ended the run, or the loop has its answer or exception
and the machine is what it was. -/
inductive CallbackOver (s : Setup) (m : Machine) (l : Loop) (outer : List Loop) (run : Nat → Status)
    (k : Nat) : Prop
  | ended {f : Failure} (final : f.isFinal = true) {q : Machine} (last : run k = .ended (endingOf f) q)
  | back {q : Machine} (hands : q.HandsBack s l outer (run k)) (back : m.Back q)
      (handlers : m.ClosesOwnRegions s run k → q.handlers = m.handlers)
      (values : m.TakesOwnValues s run k → q.stack = m.stack)

/-- What is left of the handlers and values of a caller after some steps of its callback. -/
structure Spares (s : Setup) (m : Machine) (run : Nat → Status) (k : Nat) (V : List Value)
    (R : List Handler) : Prop where
  old : R <:+ m.handlers
  handlers : m.ClosesOwnRegions s run k → R = m.handlers
  values : m.TakesOwnValues s run k → V = m.stack

theorem Carries.inside_or_over (run : Nat → Status) {k : Nat} {V : List Value} {R : List Handler}
    (h : Carries s m l outer V R (run k)) (spares : m.Spares s run k V R) (ip : l.ip = m.ip)
    (pc : l.pc = m.pc) :
    ((run k).InCallback m l outer ∧ ∃ q, run k = .running q ∧
      Underway m l outer q.control q.loops q.frames q.site ∧
        (q.control = .iterate → outer.length + 1 < q.loops.length) ∧ q.Above m.frames V R) ∨
      CallbackOver s m l outer run k := by
  generalize hst : run k = st at h
  cases h with
  | @inside q underway deep above =>
    refine Or.inl ⟨⟨underway.frames_suffix, underway.loops_suffix, ?_⟩, q, rfl, underway, deep, above⟩
    cases hc : q.control with
    | iterate => exact Or.inr (deep hc)
    | fetch =>
      rw [hc] at underway
      exact Or.inl underway.length_lt
  | @back q _ hands hip hpc frames site values handlers =>
    subst hst
    refine Or.inr (.back hands ⟨hip.trans ip, hpc.trans pc, site.scope, site.scopeDepth, frames, ?_⟩
      (fun hclosed => handlers.trans (spares.handlers hclosed)) fun htaken => ?_)
    · rw [handlers]
      exact spares.old
    · rw [spares.values htaken] at values
      exact (values.eq_of_length (Nat.le_antisymm values.length_le site.height)).symm
  | ended final q => exact Or.inr (.ended final hst)

/-- Step by step, as long as no write is refused. -/
theorem callback_run {D : Status} (start : Carries s m l outer m.stack m.handlers D)
    (ip : l.ip = m.ip) (pc : l.pc = m.pc) (well : ∃ bases, D.machine.WellFormed s bases) (n : Nat)
    (written : ∀ k < n, ∀ q, runFor s k D = .running q → ∀ t q', ¬q.Fails s (.output t) q') :
    (∀ k ≤ n, (runFor s k D).InCallback m l outer) ∨
      ∃ k ≤ n, (∀ j < k, (runFor s j D).InCallback m l outer) ∧
        CallbackOver s m l outer (fun k => runFor s k D) k := by
  let run (k : Nat) : Status := runFor s k D
  let Stage (k : Nat) (q : Machine) : Prop := ∃ V R, m.Spares s run k V R ∧ run k = .running q ∧
    Underway m l outer q.control q.loops q.frames q.site ∧
      (q.control = .iterate → outer.length + 1 < q.loops.length) ∧ q.Above m.frames V R
  suffices hstage : ((∀ k ≤ n, (run k).InCallback m l outer) ∧ ∃ q, Stage n q) ∨
      ∃ k ≤ n, (∀ j < k, (run j).InCallback m l outer) ∧ CallbackOver s m l outer run k from
    hstage.imp_left And.left
  induction n with
  | zero =>
    have hspares : m.Spares s run 0 m.stack m.handlers := ⟨List.suffix_rfl, fun _ => rfl, fun _ => rfl⟩
    have hrun : run 0 = D := by
      change runFor s 0 D = D
      cases D <;> rfl
    rcases Carries.inside_or_over run (hrun.symm ▸ start) hspares ip pc with
      ⟨hin, q, hq, hrest⟩ | hover
    · refine Or.inl ⟨fun k hk => ?_, q, _, _, hspares, hq, hrest⟩
      rw [Nat.le_zero.mp hk]
      exact hin
    · exact Or.inr ⟨0, Nat.le_refl 0, by simp, hover⟩
  | succ n ih =>
    rcases ih fun k hk => written k (by omega) with
      ⟨hin, q, V, R, hspares, hq, hunder, hdeep, habove⟩ | ⟨k, hk, hover⟩
    · obtain ⟨bases, hwell⟩ := wellFormed_runFor well n
      have hq' : runFor s n D = .running q := hq
      rw [hq'] at hwell
      -- Where the step takes values of the caller, they are no longer looked after.
      obtain ⟨V', hroom, hvalues, habove⟩ : ∃ V', (V' = [] ∨
          V'.length + q.nextTakes s ≤ q.stack.length) ∧
            (m.TakesOwnValues s run (n + 1) → V' = m.stack) ∧ q.Above m.frames V' R := by
        by_cases hroom : V.length + q.nextTakes s ≤ q.stack.length
        · exact ⟨V, Or.inr hroom, fun htaken => hspares.values fun j hj => htaken j (by omega), habove⟩
        · refine ⟨[], Or.inl rfl, fun htaken => ?_, habove.no_values⟩
          have hall := hspares.values fun j hj => htaken j (by omega)
          rw [hall] at hroom
          exact absurd (htaken n (Nat.lt_succ_self n) q hq) hroom
      obtain ⟨R', hle, hwhole, hcarries⟩ := carries_of_advance hunder hdeep hwell habove hroom
        (written n (Nat.lt_succ_self n) q hq)
      have hnext : run (n + 1) = q.advance s := by
        change runFor s (n + 1) D = _
        rw [runFor_succ, hq']
        rfl
      have hspares' : m.Spares s run (n + 1) V' R' := by
        refine ⟨hle.trans hspares.old, fun hclosed => ?_, hvalues⟩
        have hall := hspares.handlers fun j hj => hclosed j (by omega)
        rw [hall] at hwhole
        exact hwhole (hclosed n (Nat.lt_succ_self n) q hq)
      rcases Carries.inside_or_over run (hnext.symm ▸ hcarries) hspares' ip pc with
        ⟨hin', q', hq', hrest⟩ | hover
      · refine Or.inl ⟨fun k hk => ?_, q', _, _, hspares', hq', hrest⟩
        rcases Nat.lt_or_eq_of_le hk with hlt | rfl
        · exact hin k (Nat.le_of_lt_succ hlt)
        · exact hin'
      · exact Or.inr ⟨n + 1, Nat.le_refl _, fun j hj => hin j (Nat.le_of_lt_succ hj), hover⟩
    · exact Or.inr ⟨k, Nat.le_succ_of_le hk, hover⟩

theorem wellFormed_callingBack {bases : List Nat} (h : m.WellFormed s bases) (l : Loop)
    (outer : List Loop) (callee : Value) (args : List Value) :
    ∃ bases, (m.callingBack s l outer callee args).machine.WellFormed s bases := by
  have hquiet : m.Quiet { m with loops := l :: outer, control := .iterate } :=
    .of_eq rfl rfl rfl rfl rfl
  obtain ⟨log, -, hadvances⟩ := callBack_advances (s := s)
    { m with loops := l :: outer, control := .iterate } callee args
  exact ⟨_, (h.quiet hquiet).advances hadvances⟩

/-- The call itself finds everything in place. -/
theorem carries_of_callingBack (ranked : m.Ranked) (boundary : l.boundary = m.frames.length + 1)
    (callee : Value) (args : List Value) :
    Carries s m l outer m.stack m.handlers (m.callingBack s l outer callee args) := by
  have habove : { m with loops := l :: outer, control := .iterate }.Above m.frames m.stack
      m.handlers :=
    ⟨⟨⟨[], rfl, by simp⟩, List.suffix_rfl⟩, ⟨[], rfl, by simp⟩, ranked.framed⟩
  have hhere : Underway m l outer .iterate (l :: outer) m.frames m.site := .here (Site.Within.refl _)
  refine carries_of_callBack (q := { m with loops := l :: outer, control := .iterate }) hhere
    (fun y hy => ?_) habove ⟨ranked.sorted, ranked.framed⟩ callee args
  cases hy
  exact boundary

end Machine

/-- Whatever a native loop calls back, in any state of any run and with any arguments: as long as no
write is refused, the run stays inside the callback, or a final failure ends it, or the loop has the
answer or the exception and finds the machine as it was. No handler of the callback is left; those of
the caller are all there if the callback closes only regions of its own, and the stack is the same if
the callback takes only values of its own. -/
theorem Setup.callback_leaves_caller_intact {w : World} {o : RunOptions} {m : Machine}
    (resting : s.Resting w o m) (callee : Value) (args : List Value) {l : Loop}
    (outer : List Loop) (boundary : l.boundary = m.frames.length + 1) (ip : l.ip = m.ip)
    (pc : l.pc = m.pc) (n : Nat)
    (written : ∀ k < n, ∀ q, Machine.runFor s k (m.callingBack s l outer callee args) = .running q →
      ∀ t q', ¬q.Fails s (.output t) q') :
    let run k := Machine.runFor s k (m.callingBack s l outer callee args)
    (∀ k ≤ n, (run k).InCallback m l outer) ∨
      ∃ k ≤ n, (∀ j < k, (run j).InCallback m l outer) ∧
        Machine.CallbackOver s m l outer run k := by
  obtain ⟨-, ⟨bases, hwell⟩, -⟩ := resting.facts
  have hstart : Machine.Carries s m l outer m.stack m.handlers
      (m.callingBack s l outer callee args) :=
    Machine.carries_of_callingBack hwell.ranked boundary callee args
  exact Machine.callback_run hstart ip pc (Machine.wellFormed_callingBack hwell l outer callee args) n
    written

/-- The next step executes an instruction that does not fail. -/
def Machine.succeeds (s : Setup) (q : Machine) : Bool :=
  match q.control, s.program.instruction? q.ip with
  | .fetch, some ins =>
    match (q.begun s ins).step s ins with
    | .failed _ _ => false
    | _ => true
  | _, _ => false

theorem Machine.not_fails_of_succeeds {q : Machine} (h : q.succeeds s = true) (t : Text)
    (q' : Machine) : ¬q.Fails s (.output t) q' := by
  intro hfails
  unfold succeeds at h
  cases hfails with
  | instruction control has _ failed =>
    rw [control, has] at h
    dsimp only at h
    rw [failed] at h
    cases h
  | callback control =>
    rw [control] at h
    cases h

/-- A function that returns from a scope it has not left, with a value left on the stack, inside a
protected region of its caller: nothing of it is left. -/
theorem Setup.mapping_leaves_caller_intact : ∃ m callee l q, (mapping .pushScope).Resting {} {} m ∧
    m.stack.head? = some callee ∧ m.handlers.length = 1 ∧ ∃ k ≤ 4,
      q.HandsBack (mapping .pushScope) l [] (Machine.runFor (mapping .pushScope) k
        (m.callingBack (mapping .pushScope) l [] callee [.int 1])) ∧
      m.Back q ∧ q.handlers = m.handlers ∧ q.stack = m.stack := by
  let m := ((mapping .pushScope).stateAfter {} {} 4).machine
  let callee : Value := .closure ⟨0, [102], 7, [[120]], 0⟩
  let l : Loop := ⟨"map", .mapped [], callee, [], 4, 3, 1, false⟩
  let run (k : Nat) : Status :=
    Machine.runFor (mapping .pushScope) k (m.callingBack (mapping .pushScope) l [] callee [.int 1])
  have resting : (mapping .pushScope).Resting {} {} m := .between (n := 4) rfl rfl
  have hstate {k : Nat} {q : Machine} (hq : run k = .running q) : q = (run k).machine := by
    rw [hq]
    rfl
  have htop : m.stack.head? = some callee ∧ m.handlers.length = 1 := by decide +kernel
  have hplace : l.boundary = m.frames.length + 1 ∧ l.ip = m.ip ∧ l.pc = m.pc := by decide +kernel
  have hlast : ∃ p, run 4 = .running p := by
    have hgoes : (match run 4 with
      | .running _ => true
      | .ended _ _ => false) = true := by decide +kernel
    cases h : run 4 with
    | running p => exact ⟨p, rfl⟩
    | ended e p =>
      rw [h] at hgoes
      cases hgoes
  obtain ⟨p, hlast⟩ := hlast
  have hwritten : ∀ k < 4, ∀ q, run k = .running q → ∀ t q',
      ¬q.Fails (mapping .pushScope) (.output t) q' := by
    have hall : ∀ k < 4, (run k).machine.succeeds (mapping .pushScope) = true := by decide +kernel
    intro k hk q hq
    rw [hstate hq]
    exact Machine.not_fails_of_succeeds (hall k hk)
  obtain hinside | ⟨k, hk, -, hover⟩ :=
    callback_leaves_caller_intact resting callee [.int 1] [] hplace.1 hplace.2.1 hplace.2.2 4
      hwritten
  · have hinside : ∀ k ≤ 4, (run k).InCallback m l [] := hinside
    have hfour : (run 4).InCallback m l [] := by
      apply hinside
      exact Nat.le_refl 4
    have hback : (run 4).machine.frames = [] ∧ (run 4).machine.loops.length = 1 := by decide +kernel
    rw [hlast, hstate hlast] at hfour
    obtain ⟨-, -, hdeep⟩ := hfour
    rw [hback.1, hback.2] at hdeep
    exact hdeep.elim (absurd · (Nat.not_lt_zero _)) (absurd · (Nat.lt_irrefl 1))
  · cases hover with
    | ended final last => exact absurd (hlast.symm.trans (Machine.runFor_mono last hk)) (by simp)
    | @back q hands back handlers values =>
      have hopen : ∀ j < 4, (run j).machine.opcode? (mapping .pushScope) ≠ some .tryPop ∧
          (run j).machine.opcode? (mapping .pushScope) ≠ some .endFinally := by decide +kernel
      have htakes : ∀ j < 4, m.stack.length + (run j).machine.nextTakes (mapping .pushScope) ≤
          (run j).machine.stack.length := by decide +kernel
      refine ⟨m, callee, l, q, resting, htop.1, htop.2, k, hk, hands, back, handlers ?_, values ?_⟩
      · intro j hj p hp hcloses
        rw [hstate hp] at hcloses
        have hnone := hopen j (by omega)
        exact (hcloses.elim hnone.1 hnone.2).elim
      · intro j hj p hp
        rw [hstate hp]
        exact htakes j (by omega)

end BytecodeMachine
