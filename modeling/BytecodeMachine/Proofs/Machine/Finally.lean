import BytecodeMachine.Proofs.Machine.WellFormed

/-! The lives of handlers. A run is annotated with everything that happens to each handler it pushes,
and with the instructions that make it happen. Whatever the program is, a handler enters its finally
block at most once, and no transfer drops it before. -/
namespace BytecodeMachine

variable {s : Setup}

/-- Whether an event switches a handler to its finally block. -/
def HandlerEvent.entersFinally : HandlerEvent → Bool
  | .arrived | .entered _ => true
  | _ => false

/-- The instructions that can carry out a transfer, at once or put off; anything can throw. -/
def Transfer.By (op : Option Opcode) : Transfer → Prop
  | .throwing => True
  | .returning => op = some .ret ∨ op = some .endFinally
  | .leaving => op = some .leave ∨ op = some .endFinally

/-- The instructions that can make an event happen. -/
def HandlerEvent.By (op : Option Opcode) : HandlerEvent → Prop
  | .pushed => op = some .tryPush
  | .arrived => True
  | .caught => True
  | .entered pending => ∃ t, pending.transfer? = some t ∧ t.By op
  | .spent t => t.By op
  | .popped => op = some .tryPop
  | .ended _ => op = some .endFinally

theorem HandlerEvent.by_of_transfer {op : Option Opcode} {e : HandlerEvent} {t : Transfer}
    (he : e.transfer? = some t) (ht : t.By op) : e.By op := by
  cases e with
  | caught => trivial
  | entered pending => exact ⟨t, he, ht⟩
  | spent t' =>
    cases he
    exact ht
  | pushed | arrived | popped | ended => cases he

namespace Machine

theorem Proceeds.by_instruction {m : Machine} {op : Option Opcode} {pending : Pending}
    {log : List HandlerEvent} {st : Status} (h : Proceeds s m pending log st)
    (hby : ∀ t, pending.transfer? = some t → t.By op) : ∀ e ∈ log, e.By op := by
  cases hk : pending.transfer? with
  | some t => exact fun e he => HandlerEvent.by_of_transfer (h.unwinds hk e he) (hby t hk)
  | none =>
    cases h with
    | nothing => simp
    | passes above kind => cases hk.symm.trans kind

theorem Raised.by_instruction {m : Machine} {op : Option Opcode} {f : Failure}
    {log : List HandlerEvent} {st : Status} (h : Raised s m f log st) : ∀ e ∈ log, e.By op := by
  cases h with
  | ended => simp
  | thrown _ goes =>
    refine goes.by_instruction fun t ht => ?_
    cases ht
    trivial

theorem Course.by_instruction {m : Machine} {o : Operand} {op : Option Opcode}
    {log : List HandlerEvent} {st : Status} (h : Course s m o op log st) : ∀ e ∈ log, e.By op := by
  cases h with
  | tryPush | tryPop => simp [HandlerEvent.By]
  | unopened | unreturned | still => simp
  | raises _ hr => exact hr.by_instruction
  | ret _ goes =>
    refine goes.by_instruction fun t ht => ?_
    cases ht
    exact Or.inl rfl
  | leave goes =>
    refine goes.by_instruction fun t ht => ?_
    cases ht
    exact Or.inl rfl
  | endFinally _ goes =>
    refine List.forall_mem_cons.mpr ⟨rfl, goes.by_instruction fun t _ => ?_⟩
    cases t with
    | throwing => trivial
    | returning | leaving => exact Or.inr rfl

theorem StepLog.by_instruction {m : Machine} {log : List HandlerEvent} {st : Status}
    (h : StepLog s m log st) : ∀ e ∈ log, e.By (m.opcode? s) := by
  cases h with
  | idle => simp
  | raises _ hr => exact hr.by_instruction
  | executes starts _ _ course =>
    rw [opcode?_of_starts starts]
    exact course.by_instruction
  | arrives starts _ _ course =>
    rw [opcode?_of_starts starts]
    exact List.forall_mem_cons.mpr ⟨trivial, course.by_instruction⟩

end Machine

/-- The finally block of the top handler runs next, and this is put off until its end. -/
def Status.Finalizing (st : Status) (pending : Pending) : Prop :=
  ∃ n h rest, st = .running n ∧ n.handlers = h :: rest ∧ h.phase = .finalizing pending ∧
    n.ip = h.finallyAddr ∧ n.control = .fetch

/-- If a log says that something is put off, that is the last and only such event, and the state after
it is about to run the finally block. -/
def HandlerEvent.PutsOff (log : List HandlerEvent) (st : Status) : Prop :=
  ∀ pending, .entered pending ∈ log → pending ≠ .nothing ∧ st.Finalizing pending ∧
    ∃ before, log = before ++ [.entered pending] ∧ ∀ other, .entered other ∉ before

theorem HandlerEvent.PutsOff.after {log : List HandlerEvent} {st : Status}
    (h : HandlerEvent.PutsOff log st) (before : List HandlerEvent) (others : ∀ pending, .entered pending ∉ before) :
    HandlerEvent.PutsOff (before ++ log) st := by
  intro p hp
  rcases List.mem_append.mp hp with hp | hp
  · exact absurd hp (others p)
  · obtain ⟨hsome, hst, before', rfl, hnone⟩ := h p hp
    refine ⟨hsome, hst, before ++ before', (List.append_assoc ..).symm, fun q hq => ?_⟩
    rcases List.mem_append.mp hq with hq | hq
    · exact others q hq
    · exact hnone q hq

namespace Machine

theorem Stops.putsOff {m : Machine} {pending : Pending} {t : Transfer} {rest : List Handler}
    {log : List HandlerEvent} {st : Status} (h : Stops s m pending rest log st)
    (kind : pending.transfer? = some t) : HandlerEvent.PutsOff log st := by
  intro p hp
  cases h with
  | @entered _ h rest n has fresh handlers ip control =>
    cases List.mem_singleton.mp hp
    refine ⟨fun hnone => ?_, ⟨n, _, rest, rfl, handlers, rfl, ip, control⟩, [], rfl, by simp⟩
    have hkind := Pending.transfer?_putOff m h pending
    rw [hnone, kind] at hkind
    cases hkind
  | caught => simp at hp
  | uncaught | halted | returned | answered | left | refused => cases hp

theorem Proceeds.putsOff {m : Machine} {pending : Pending} {log : List HandlerEvent} {st : Status}
    (h : Proceeds s m pending log st) : HandlerEvent.PutsOff log st := by
  cases h with
  | nothing => exact fun p hp => by cases hp
  | passes above kind _ _ stops => exact (stops.putsOff kind).after _ (by simp)

theorem Raised.putsOff {m : Machine} {f : Failure} {log : List HandlerEvent} {st : Status}
    (h : Raised s m f log st) : HandlerEvent.PutsOff log st := by
  cases h with
  | ended => exact fun p hp => by cases hp
  | thrown _ goes => exact goes.putsOff

theorem Course.putsOff {m : Machine} {o : Operand} {op : Option Opcode} {log : List HandlerEvent}
    {st : Status} (h : Course s m o op log st) : HandlerEvent.PutsOff log st := by
  cases h with
  | tryPush | tryPop => exact fun p hp => by simp at hp
  | unopened | unreturned | still => exact fun p hp => by cases hp
  | raises _ hr => exact hr.putsOff
  | ret _ goes | leave goes => exact goes.putsOff
  | endFinally _ goes => exact goes.putsOff.after [_] (by simp)

theorem StepLog.putsOff {m : Machine} {log : List HandlerEvent} {st : Status}
    (h : StepLog s m log st) : HandlerEvent.PutsOff log st := by
  cases h with
  | idle => exact fun p hp => by cases hp
  | raises _ hr => exact hr.putsOff
  | executes _ _ _ course => exact course.putsOff
  | arrives _ _ _ course => exact course.putsOff.after [.arrived] (by simp)

end Machine

/-- The end of a finally block goes on with what was put off. -/
theorem Machine.StepLog.replays {m : Machine} {log : List HandlerEvent} {st : Status}
    {ins : Instruction} {h : Handler} {rest : List Handler} (hl : Machine.StepLog s m log st)
    (starts : m.Starts s ins) (op : Opcode.ofCode? ins.op = some .endFinally)
    (top : (m.begun s ins).handlers = h :: rest) :
    ∃ log, Machine.Proceeds s { m.begun s ins with handlers := rest } h.pending log st := by
  have hcourse {ins' : Instruction} {log : List HandlerEvent} (starts' : m.Starts s ins')
      (course : Machine.Course s (m.begun s ins') ins'.operand (Opcode.ofCode? ins'.op) log st) :
      ∃ log, Machine.Proceeds s { m.begun s ins with handlers := rest } h.pending log st := by
    obtain rfl : ins' = ins := Option.some.inj (starts'.has.symm.trans starts.has)
    rw [op] at course
    cases course with
    | endFinally top' goes =>
      cases top.symm.trans top'
      exact ⟨_, goes⟩
    | unopened _ none => cases top.symm.trans none
    | still other => simpa [Opcode.transfers] using other .endFinally rfl
    | raises other => cases other
  cases hl with
  | idle aside | raises aside => exact absurd starts (aside ins)
  | executes starts' _ _ course => exact hcourse starts' course
  | arrives starts' _ _ course => exact hcourse starts' course

/-- One handler that was pushed: as it stands, or stood when it was dropped, and what happened to it
under which instruction, the latest first. -/
structure Life where
  handler : Handler
  events : List (Option Opcode × HandlerEvent)

/-- The handlers on the stack, from the top down, and those that have left it. -/
structure Chronicle where
  live : List Life := []
  gone : List Life := []

namespace Chronicle

def handlers (c : Chronicle) : List Handler := c.live.map (·.handler)

/-- Writes an event down in the life of the handler it happens to, which is the top one. -/
inductive Adds (op : Option Opcode) : Chronicle → HandlerEvent → Chronicle → Prop
  | pushed {c : Chronicle} {h : Handler} (trying : h.phase = .trying) :
      Adds op c .pushed ⟨⟨h, [(op, .pushed)]⟩ :: c.live, c.gone⟩
  | stays {l : Life} {live gone : List Life} {e : HandlerEvent} {h : Handler}
      (shift : Shift e [l.handler] [h]) :
      Adds op ⟨l :: live, gone⟩ e ⟨⟨h, (op, e) :: l.events⟩ :: live, gone⟩
  | leaves {l : Life} {live gone : List Life} {e : HandlerEvent} (shift : Shift e [l.handler] []) :
      Adds op ⟨l :: live, gone⟩ e ⟨live, ⟨l.handler, (op, e) :: l.events⟩ :: gone⟩

/-- Writes down the events of a step in their order. -/
inductive AddsAll (op : Option Opcode) : Chronicle → List HandlerEvent → Chronicle → Prop
  | nil (c : Chronicle) : AddsAll op c [] c
  | cons {c c' c'' : Chronicle} {e : HandlerEvent} {log : List HandlerEvent} (h : Adds op c e c')
      (rest : AddsAll op c' log c'') : AddsAll op c (e :: log) c''

theorem AddsAll.append {op : Option Opcode} {c c' c'' : Chronicle} {log log' : List HandlerEvent}
    (h : AddsAll op c log c') (h' : AddsAll op c' log' c'') : AddsAll op c (log ++ log') c'' := by
  induction h with
  | nil => exact h'
  | cons ha _ ih => exact AddsAll.cons ha (ih h')

/-- A change of the stack of handlers can be written down. -/
theorem exists_adds_of_shift (op : Option Opcode) {c : Chronicle} {e : HandlerEvent}
    {after : List Handler} (h : Shift e c.handlers after) :
    ∃ c', Adds op c e c' ∧ c'.handlers = after := by
  obtain ⟨live, gone⟩ := c
  generalize hb : handlers ⟨live, gone⟩ = before at h
  have hstays {d d' : Handler} {rest : List Handler} {e : HandlerEvent}
      (hb : handlers ⟨live, gone⟩ = d :: rest) (hs : Shift e [d] [d']) :
      ∃ c', Adds op ⟨live, gone⟩ e c' ∧ c'.handlers = d' :: rest := by
    obtain ⟨l, live', rfl, rfl, hrest⟩ := List.map_eq_cons_iff.mp hb
    exact ⟨_, Adds.stays hs, congrArg (d' :: ·) hrest⟩
  have hleaves {d : Handler} {rest : List Handler} {e : HandlerEvent}
      (hb : handlers ⟨live, gone⟩ = d :: rest) (hs : Shift e [d] []) :
      ∃ c', Adds op ⟨live, gone⟩ e c' ∧ c'.handlers = rest := by
    obtain ⟨l, live', rfl, rfl, hrest⟩ := List.map_eq_cons_iff.mp hb
    exact ⟨_, Adds.leaves hs, hrest⟩
  cases h with
  | @pushed d _ trying => exact ⟨_, Adds.pushed trying, congrArg (d :: ·) hb⟩
  | arrived has fresh => exact hstays hb (Shift.arrived has fresh)
  | caught trying has => exact hstays hb (Shift.caught trying has)
  | entered pending has fresh => exact hstays hb (Shift.entered pending has fresh)
  | spent t through => exact hleaves hb (Shift.spent t through)
  | popped => exact hleaves hb Shift.popped
  | ended => exact hleaves hb Shift.ended

end Chronicle

namespace Machine

theorem Change.exists_addsAll (op : Option Opcode) {m m' : Machine} {log : List HandlerEvent}
    (h : Change s m log m') {c : Chronicle} (hc : c.handlers = m.handlers) :
    ∃ c', Chronicle.AddsAll op c log c' ∧ c'.handlers = m'.handlers := by
  cases h with
  | quiet hq => exact ⟨c, .nil c, hc.trans hq.handlers.symm⟩
  | pushScope => exact ⟨c, .nil c, hc⟩
  | popScope => exact ⟨c, .nil c, hc⟩
  | unwindScope => exact ⟨c, .nil c, hc⟩
  | popFrame => exact ⟨c, .nil c, hc.trans m.popFrame_handlers.symm⟩
  | pushHandler catchAddr finallyAddr =>
    exact ⟨_, .cons (Chronicle.Adds.pushed rfl) (.nil _), congrArg (_ :: ·) hc⟩
  | shift hs _ =>
    rw [← hc] at hs
    obtain ⟨c', ha, hc'⟩ := Chronicle.exists_adds_of_shift op hs
    exact ⟨c', .cons ha (.nil c'), hc'⟩

theorem Changes.exists_addsAll (op : Option Opcode) {m m' : Machine} {log : List HandlerEvent}
    (h : Changes s m log m') {c : Chronicle} (hc : c.handlers = m.handlers) :
    ∃ c', Chronicle.AddsAll op c log c' ∧ c'.handlers = m'.handlers := by
  induction h generalizing c with
  | refl => exact ⟨c, .nil c, hc⟩
  | cons hone _ ih =>
    obtain ⟨c₁, ha, hc₁⟩ := hone.exists_addsAll op hc
    obtain ⟨c₂, ha', hc₂⟩ := ih hc₁
    exact ⟨c₂, ha.append ha', hc₂⟩

end Machine

/-- The annotations of a run after a number of steps. Every step adds events that its instruction can
bring about and that lead to the handlers it leaves. -/
inductive History (s : Setup) (w : World) (o : RunOptions) : Nat → Chronicle → Prop
  | start : History s w o 0 {}
  | step {n : Nat} {m : Machine} {c c' : Chronicle} {log : List HandlerEvent}
      (before : History s w o n c) (running : s.stateAfter w o n = .running m)
      (advances : Machine.Advances s m log (m.advance s).machine)
      (fits : Machine.StepLog s m log (m.advance s)) (adds : Chronicle.AddsAll (m.opcode? s) c log c')
      (after : c'.handlers = (m.advance s).machine.handlers) : History s w o (n + 1) c'
  | rest {n : Nat} {e : Ending} {m : Machine} {c : Chronicle} (before : History s w o n c)
      (ended : s.stateAfter w o n = .ended e m) : History s w o (n + 1) c

theorem History.handlers_eq {w : World} {o : RunOptions} {n : Nat} {c : Chronicle}
    (h : History s w o n c) : c.handlers = (s.stateAfter w o n).machine.handlers := by
  induction h with
  | start => rfl
  | step _ running _ _ _ after =>
    rw [after, Setup.stateAfter_succ, running]
    rfl
  | rest _ ended ih =>
    rw [ih, Setup.stateAfter_succ, ended]
    rfl

/-- Every run can be annotated. -/
theorem exists_history (w : World) (o : RunOptions) (n : Nat) : ∃ c, History s w o n c := by
  induction n with
  | zero => exact ⟨_, .start⟩
  | succ n ih =>
    obtain ⟨c, hc⟩ := ih
    cases hst : s.stateAfter w o n with
    | ended e m => exact ⟨c, .rest hc hst⟩
    | running m =>
      have hh : c.handlers = m.handlers := by
        rw [hc.handlers_eq, hst]
        rfl
      obtain ⟨log, hlog, hadv⟩ := m.advance_advances (s := s)
      obtain ⟨m₁, hch, hafter⟩ : ∃ m₁, Machine.Changes s m log m₁ ∧
          m₁.handlers = (m.advance s).machine.handlers := by
        rcases hadv with hch | ⟨m₁, hch, _, hi⟩
        · exact ⟨_, hch, rfl⟩
        · exact ⟨m₁, hch, hi.handlers.symm⟩
      obtain ⟨c', ha, hc'⟩ := hch.exists_addsAll (m.opcode? s) hh
      exact ⟨c', .step hc hst hadv hlog ha (hc'.trans hafter)⟩

/-- What happened to a handler that is on the stack, the latest first. -/
inductive Lived : Handler → List (Option Opcode × HandlerEvent) → Prop
  | pushed {op : Option Opcode} {h : Handler} (trying : h.phase = .trying)
      (hby : HandlerEvent.By op .pushed) : Lived h [(op, .pushed)]
  | stays {op : Option Opcode} {h h' : Handler} {e : HandlerEvent}
      {events : List (Option Opcode × HandlerEvent)} (before : Lived h events)
      (shift : Shift e [h] [h']) (hby : e.By op) : Lived h' ((op, e) :: events)

/-- What happened to a handler that has left the stack. -/
inductive Departed : Handler → List (Option Opcode × HandlerEvent) → Prop
  | leaves {op : Option Opcode} {h : Handler} {e : HandlerEvent}
      {events : List (Option Opcode × HandlerEvent)} (before : Lived h events)
      (shift : Shift e [h] []) (hby : e.By op) : Departed h ((op, e) :: events)

namespace Chronicle

/-- Every life is one that a handler can have. -/
structure Sound (c : Chronicle) : Prop where
  live : ∀ l ∈ c.live, Lived l.handler l.events
  gone : ∀ l ∈ c.gone, Departed l.handler l.events

theorem Sound.adds {op : Option Opcode} {c c' : Chronicle} {e : HandlerEvent} (h : c.Sound)
    (ha : Adds op c e c') (hby : e.By op) : c'.Sound := by
  cases ha with
  | pushed trying => exact ⟨List.forall_mem_cons.mpr ⟨.pushed trying hby, h.live⟩, h.gone⟩
  | stays shift =>
    obtain ⟨hl, hlive⟩ := List.forall_mem_cons.mp h.live
    exact ⟨List.forall_mem_cons.mpr ⟨.stays hl shift hby, hlive⟩, h.gone⟩
  | leaves shift =>
    obtain ⟨hl, hlive⟩ := List.forall_mem_cons.mp h.live
    exact ⟨hlive, List.forall_mem_cons.mpr ⟨.leaves hl shift hby, h.gone⟩⟩

theorem Sound.addsAll {op : Option Opcode} {c c' : Chronicle} {log : List HandlerEvent}
    (h : c.Sound) (ha : AddsAll op c log c') (hby : ∀ e ∈ log, e.By op) : c'.Sound := by
  induction ha with
  | nil => exact h
  | cons hone _ ih =>
    obtain ⟨he, hrest⟩ := List.forall_mem_cons.mp hby
    exact ih (h.adds hone he) hrest

end Chronicle

theorem History.sound {w : World} {o : RunOptions} {n : Nat} {c : Chronicle}
    (h : History s w o n c) : c.Sound := by
  induction h with
  | start => exact ⟨by simp, by simp⟩
  | step _ _ _ fits adds _ ih => exact ih.addsAll adds fits.by_instruction
  | rest _ _ ih => exact ih

namespace Life

/-- How often the handler switched to its finally block. -/
def switches (l : Life) : Nat := l.events.countP (·.2.entersFinally)

/-- A transfer was put off until the end of the finally block. -/
def Recorded (l : Life) (pending : Pending) : Prop := ∃ op, (op, .entered pending) ∈ l.events

end Life

/-- A handler has switched to its finally block exactly when it is in it. -/
theorem Lived.countP_entersFinally {h : Handler} {events : List (Option Opcode × HandlerEvent)}
    (hl : Lived h events) : events.countP (·.2.entersFinally) = h.isFinalizing.toNat := by
  induction hl with
  | pushed trying => simp [HandlerEvent.entersFinally, Handler.isFinalizing, trying]
  | stays _ shift _ ih =>
    rw [List.countP_cons, ih]
    cases shift with
    | arrived _ fresh =>
      rw [fresh]
      rfl
    | entered pending _ fresh =>
      rw [fresh]
      rfl
    | caught trying => simp [HandlerEvent.entersFinally, Handler.isFinalizing, trying]

/-- What was put off stays as it was recorded as long as the handler is on the stack. -/
theorem Lived.phase_of_entered {h : Handler} {events : List (Option Opcode × HandlerEvent)}
    (hl : Lived h events) {op : Option Opcode} {pending : Pending}
    (he : (op, .entered pending) ∈ events) : h.phase = .finalizing pending := by
  induction hl with
  | pushed => simp at he
  | stays _ shift _ ih =>
    rcases List.mem_cons.mp he with he | he
    · cases he
      cases shift
      rfl
    · -- A handler in its finally block can only leave the stack.
      have hphase := ih he
      cases shift with
      | arrived _ fresh => simp [Handler.isFinalizing, hphase] at fresh
      | entered _ _ fresh => simp [Handler.isFinalizing, hphase] at fresh
      | caught trying => simp [hphase] at trying

/-- Nothing is put off but by an event that records it. -/
theorem Lived.entered_of_phase {h : Handler} {events : List (Option Opcode × HandlerEvent)}
    (hl : Lived h events) {pending : Pending} (hphase : h.phase = .finalizing pending)
    (hsome : pending ≠ .nothing) : ∃ op, (op, .entered pending) ∈ events := by
  cases hl with
  | pushed trying => simp [trying] at hphase
  | @stays op _ _ _ _ _ shift _ =>
    cases shift with
    | arrived =>
      cases hphase
      exact absurd rfl hsome
    | entered p =>
      cases hphase
      exact ⟨op, List.mem_cons_self⟩
    | caught => cases hphase

theorem Lived.by_instruction {h : Handler} {events : List (Option Opcode × HandlerEvent)}
    (hl : Lived h events) : ∀ x ∈ events, x.2.By x.1 := by
  induction hl with
  | pushed _ hby => exact List.forall_mem_singleton.mpr hby
  | stays _ _ hby ih => exact List.forall_mem_cons.mpr ⟨hby, ih⟩

namespace Life

/-- What holds of a handler at every moment, and of one that is gone at its last. -/
structure Orderly (l : Life) : Prop where
  switches_eq : l.switches = l.handler.isFinalizing.toNat
  instructions : ∀ x ∈ l.events, x.2.By x.1
  kept : ∀ pending, l.Recorded pending → l.handler.phase = .finalizing pending
  recorded : l.handler.pending ≠ .nothing → l.Recorded l.handler.pending

/-- How a handler leaves the stack. -/
structure Over (l : Life) : Prop where
  /-- A finally block that was never entered was given up by the instructions that close regions. -/
  closed : l.handler.hasFinally = true → l.switches = 0 → ∃ before,
    l.events = (some .tryPop, .popped) :: before ∨
      l.events = (some .endFinally, .ended .nothing) :: before
  /-- What was put off goes on at the end of the finally block, unless the handler is dropped
  before. -/
  settled : ∀ pending, l.Recorded pending → ∃ before,
    l.events = (some .endFinally, .ended pending) :: before ∨
      l.events = (some .tryPop, .popped) :: before ∨
      ∃ op t, t.By op ∧ l.events = (op, .spent t) :: before

end Life

theorem Handler.phase_of_pending {h : Handler} (hp : h.pending ≠ .nothing) :
    h.phase = .finalizing h.pending := by
  unfold Handler.pending at hp ⊢
  split at hp
  · assumption
  · exact absurd rfl hp

theorem Lived.orderly {h : Handler} {events : List (Option Opcode × HandlerEvent)}
    (hl : Lived h events) : Life.Orderly ⟨h, events⟩ where
  switches_eq := hl.countP_entersFinally
  instructions := hl.by_instruction
  kept := fun _ ⟨_, he⟩ => hl.phase_of_entered he
  recorded hp := hl.entered_of_phase (Handler.phase_of_pending hp) hp

/-- The last event of a handler only takes it away. -/
theorem Departed.orderly {h : Handler} {events : List (Option Opcode × HandlerEvent)}
    (hd : Departed h events) : Life.Orderly ⟨h, events⟩ := by
  cases hd with
  | @leaves op _ e events hl shift hby =>
    have hwas := hl.orderly
    have hlast : e.entersFinally = false ∧ ∀ p, e ≠ .entered p := by
      cases shift <;> exact ⟨rfl, by simp⟩
    have hrecorded (p : Pending) :
        Life.Recorded ⟨h, (op, e) :: events⟩ p ↔ Life.Recorded ⟨h, events⟩ p := by
      simp [Life.Recorded, Ne.symm (hlast.2 p)]
    refine ⟨?_, List.forall_mem_cons.mpr ⟨hby, hwas.instructions⟩, fun p hp => ?_, fun hp => ?_⟩
    · have hcount := hwas.switches_eq
      simp only [Life.switches, List.countP_cons, hlast.1] at hcount ⊢
      simpa using hcount
    · exact hwas.kept p ((hrecorded p).mp hp)
    · exact (hrecorded _).mpr (hwas.recorded hp)

theorem Departed.over {h : Handler} {events : List (Option Opcode × HandlerEvent)}
    (hd : Departed h events) : Life.Over ⟨h, events⟩ := by
  have ho := hd.orderly
  cases hd with
  | @leaves op _ e events hl shift hby =>
    refine ⟨fun has hzero => ⟨events, ?_⟩, fun p hp => ⟨events, ?_⟩⟩
    · have hfresh : h.isFinalizing = false := by
        have hcount := ho.switches_eq
        rw [hzero] at hcount
        cases hf : h.isFinalizing with
        | false => rfl
        | true => simp [hf] at hcount
      cases shift with
      | spent t through => simp [through has] at hfresh
      | popped =>
        cases hby
        exact Or.inl rfl
      | ended =>
        cases hby
        refine Or.inr ?_
        have hnone : h.pending = .nothing := by
          by_contra hp
          simp [Handler.isFinalizing, Handler.phase_of_pending hp] at hfresh
        rw [hnone]
    · cases shift with
      | spent t => exact Or.inr (Or.inr ⟨op, t, hby, rfl⟩)
      | popped =>
        cases hby
        exact Or.inr (Or.inl rfl)
      | ended =>
        cases hby
        have hphase := ho.kept p hp
        refine Or.inl ?_
        rw [Handler.pending, hphase]

/-- After any number of steps of any run: every handler that was ever pushed switches to its finally
block at most once; one with a finally block that it never entered is still on the stack or was
closed; what was put off is kept. In every step that follows, the events of the handlers are tied to
the state: what is put off begins with its finally block, and the end of the block goes on with it. -/
theorem Setup.finally_entered_once_and_never_skipped (w : World) (o : RunOptions) (n : Nat) :
    (∃ c, History s w o n c) ∧
      (∀ c, History s w o n c →
        c.handlers = (s.stateAfter w o n).machine.handlers ∧
          (∀ l ∈ c.live ++ c.gone, l.switches ≤ 1 ∧ l.Orderly) ∧ ∀ l ∈ c.gone, l.Over) ∧
      ∀ m, s.stateAfter w o n = .running m →
        (∃ log, Machine.StepLog s m log (m.advance s)) ∧
          (∀ log, Machine.StepLog s m log (m.advance s) → HandlerEvent.PutsOff log (m.advance s)) ∧
          ∀ ins h rest, m.Starts s ins → Opcode.ofCode? ins.op = some .endFinally →
            (m.begun s ins).handlers = h :: rest →
            ∃ log, Machine.Proceeds s { m.begun s ins with handlers := rest } h.pending log
              (m.advance s) := by
  refine ⟨exists_history w o n, fun c hc => ?_, fun m _ => ⟨?_, fun _ hl => hl.putsOff, ?_⟩⟩
  · have hsound := hc.sound
    have horderly : ∀ l ∈ c.live ++ c.gone, l.Orderly := by
      intro l hl
      rcases List.mem_append.mp hl with hl | hl
      · exact (hsound.live l hl).orderly
      · exact (hsound.gone l hl).orderly
    refine ⟨hc.handlers_eq, fun l hl => ⟨?_, horderly l hl⟩, fun l hl => (hsound.gone l hl).over⟩
    rw [(horderly l hl).switches_eq]
    exact Bool.toNat_le _
  · obtain ⟨log, hlog, -⟩ := m.advance_advances (s := s)
    exact ⟨log, hlog⟩
  · intro ins h rest starts hop top
    obtain ⟨log, hlog, -⟩ := m.advance_advances (s := s)
    exact hlog.replays starts hop top

end BytecodeMachine
