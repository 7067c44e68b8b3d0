import BytecodeMachine.Proofs.Machine.Steps

/-! What a step does to the world besides the store at large: it makes objects, it lets time pass, and
where it executes one of the three instructions that store a member, it may set a field. One step is
counted for each instruction that is fetched, and none otherwise. -/
namespace BytecodeMachine

/-- The instructions that set members of values. -/
def Opcode.setsMember : Opcode → Bool
  | .storeStatic | .storeMember | .indexSet => true
  | _ => false

namespace Machine

/-- A machine that goes on without counting a step. -/
structure Turns (s : Setup) (writes : Bool) (m m' : Machine) : Prop where
  edits : m.world.Edits s.program writes m'.world
  steps : m'.steps = m.steps

variable {s : Setup} {writes : Bool}

theorem Turns.refl (m : Machine) : m.Turns s writes m := ⟨.refl, rfl⟩

theorem Turns.trans {m m' m'' : Machine} (h : m.Turns s writes m') (h' : m'.Turns s writes m'') :
    m.Turns s writes m'' := ⟨h.edits.trans h'.edits, h'.steps.trans h.steps⟩

/-- A change of neither the objects nor the clock. -/
theorem Turns.aside {m m' : Machine} (same : m'.world.lasting = m.world.lasting)
    (steps : m'.steps = m.steps) : m.Turns s writes m' := ⟨.single (.aside same), steps⟩

theorem Turns.of_works {m : Machine} {w : World} (h : m.world.Works s.program writes w) :
    m.Turns s writes { m with world := w } := ⟨h.edits, rfl⟩

section Unwinding

theorem popFrames_turns (n : Nat) (m : Machine) : m.Turns s writes (popFrames n m) := by
  induction n generalizing m with
  | zero => exact .refl m
  | succ n ih =>
    have hone : m.Turns s writes m.popFrame := by
      unfold popFrame
      split
      · exact .refl m
      · exact .aside rfl rfl
    exact hone.trans (ih m.popFrame)

theorem leaveScopes_turns (n : Nat) (m : Machine) : m.Turns s writes (leaveScopes n m) := by
  induction n generalizing m with
  | zero => exact .refl m
  | succ n ih =>
    have hone : m.Turns s writes m.leaveScope := .aside rfl rfl
    exact hone.trans (ih m.leaveScope)

theorem unwindTo_turns (m : Machine) (h : Handler) : m.Turns s writes (m.unwindTo h) := by
  have hframes : m.Turns s writes (popFrames (m.frames.length - h.callDepth) m) := popFrames_turns _ m
  exact hframes.trans ((leaveScopes_turns _ _).trans (.aside rfl rfl))

theorem throwTo_turns (m : Machine) (exc boundary : Nat) (handlers : List Handler) :
    m.Turns s writes (m.throwTo exc boundary handlers).machine := by
  have ht := throwTo_throws m exc boundary handlers
  generalize m.throwTo exc boundary handlers = t at ht ⊢
  cases ht with
  | @caught _ _ h | @entered _ _ h => exact (unwindTo_turns m h).trans (.aside rfl rfl)
  | @escaped _ rest =>
    have hdrop : m.Turns s writes { m with handlers := rest } := .aside rfl rfl
    exact hdrop.trans (popFrames_turns _ _)

theorem Defers.turns {m : Machine} {exits : Handler → Prop} {pending : Handler → Pending}
    {handlers : List Handler} {r : Machine ⊕ Machine} (h : Defers m exits pending handlers r) :
    m.Turns s writes (r.elim id id) := by
  cases h with
  | @entered _ _ h => exact (unwindTo_turns m h).trans (.aside rfl rfl)
  | out => exact .aside rfl rfl

theorem giveBack_turns (m : Machine) (v : Value) : m.Turns s writes (m.giveBack v).machine := by
  have hr : m.Turns s writes ((m.returnThrough v m.handlers).elim id id) :=
    (returnThrough_defers m v _).turns
  unfold giveBack
  split
  · next heq =>
    rw [heq] at hr
    exact hr
  · next n heq =>
    rw [heq] at hr
    refine hr.trans ?_
    change n.Turns s writes _
    split
    · exact .refl n
    · have hpop : n.Turns s writes (popFrames 1 n) := popFrames_turns 1 n
      dsimp only
      split
      · exact hpop
      · exact hpop.trans (.aside rfl rfl)

theorem leaveTo_turns (m : Machine) (target scopes : Int) :
    m.Turns s writes (leaveTo s m target scopes).machine := by
  unfold leaveTo
  dsimp only
  split
  · exact .refl m
  · have hl : m.Turns s writes ((m.leaveThrough target (m.leaveDepth scopes) m.handlers).elim id id) :=
      (leaveThrough_defers m _ _ _).turns
    split
    · next heq =>
      rw [heq] at hl
      exact hl
    · next n heq =>
      rw [heq] at hl
      exact (hl.trans (leaveScopes_turns _ n)).trans (.aside rfl rfl)

theorem endFinally_turns (m : Machine) : m.Turns s writes (endFinally s m).machine := by
  unfold endFinally
  split
  · exact .refl m
  · next h rest _ =>
    have hdrop : m.Turns s writes { m with handlers := rest } := .aside rfl rfl
    dsimp only
    split
    · exact hdrop
    · exact hdrop.trans (giveBack_turns _ _)
    · exact hdrop.trans (leaveTo_turns _ _ _)
    · exact hdrop

/-- An exception that is made or stamped touches the exceptions alone. -/
theorem offer_turns (m : Machine) (f : Failure) (boundary : Nat) :
    m.Turns s writes ((m.offer s f boundary).elim id (·.2)) := by
  unfold offer
  cases he : m.exceptionOf f with
  | none => exact .refl m
  | some r =>
    obtain ⟨id, n⟩ := r
    have hmade : m.Turns s writes n := by
      unfold exceptionOf at he
      split at he
      · cases he
        exact .aside rfl rfl
      · cases he
        exact .refl m
      · cases he
    have hstamp : n.Turns s writes (stamp s n id) := by
      unfold stamp
      dsimp only
      split
      · exact .refl n
      · exact .aside rfl rfl
    have hthrow : m.Turns s writes ((stamp s n id).throwTo id boundary n.handlers).machine :=
      (hmade.trans hstamp).trans (throwTo_turns _ _ _ _)
    dsimp only
    unfold throwException
    split
    · next heq =>
      rw [heq] at hthrow
      exact hthrow.trans (.aside rfl rfl)
    · next heq =>
      rw [heq] at hthrow
      exact hthrow

theorem fail_turns (inside : Bool) (f : Failure) (m : Machine) (loops : List Loop) :
    m.Turns s writes (fail s inside f m loops).machine := by
  -- Outwards from loop to loop; each step hands on a machine that has turned so far.
  induction loops generalizing inside f m with
  | nil =>
    have ho : m.Turns s writes ((m.offer s f 0).elim id (·.2)) := offer_turns m f 0
    unfold fail
    split
    · next heq =>
      rw [heq] at ho
      exact ho.trans (.aside rfl rfl)
    · next heq =>
      rw [heq] at ho
      exact ho.trans (.aside rfl rfl)
  | cons l loops ih =>
    have ho : m.Turns s writes
        ((if inside then m.offer s f l.boundary else .inr (f, m)).elim id (·.2)) := by
      cases inside with
      | true => exact offer_turns m f l.boundary
      | false => exact .refl m
    unfold fail
    split
    · next heq =>
      rw [heq] at ho
      exact ho.trans (.aside rfl rfl)
    · next f' n heq =>
      rw [heq] at ho
      have hat : m.Turns s writes { n with ip := l.ip, pc := l.pc } := ho.trans (.aside rfl rfl)
      exact hat.trans (ih _ _ _)

theorem deliver_turns (m : Machine) (v : Value) : m.Turns s writes (m.deliver v).machine := by
  unfold deliver
  split
  · exact .refl m
  · exact .aside rfl rfl

theorem settle_turns {m : Machine} {e : Effect} (h : m.Turns s writes e.machine) :
    m.Turns s writes (settle s e).machine := by
  cases e with
  | next n => exact h
  | returned v n => exact h.trans (deliver_turns n v)
  | failed f n => exact h.trans (fail_turns true f n n.loops)

end Unwinding

section Instructions

variable {m : Machine}

theorem pop_turns_of_stack {k : Value → Machine → Effect}
    (hk : ∀ v stack, m.stack = v :: stack →
      { m with stack := stack }.Turns s writes (k v { m with stack := stack }).machine) :
    m.Turns s writes (m.pop s k).machine := by
  cases h : m.stack with
  | nil =>
    rw [pop_of_nil h]
    exact .refl m
  | cons v stack =>
    have hdrop : m.Turns s writes { m with stack := stack } := .aside rfl rfl
    rw [pop_of_cons h]
    exact hdrop.trans (hk v stack h)

theorem reply_turns {α : Type} {r : Reply α} {k : α → Machine → Effect}
    (works : m.world.Works s.program writes r.2)
    (hk : ∀ a (m' : Machine), m'.Turns s writes (k a m').machine) :
    m.Turns s writes (m.reply r k).machine := by
  have hw := Turns.of_works works
  unfold reply
  split
  · exact hw.trans (hk _ _)
  · exact hw

theorem assign_turns (m : Machine) (name : Text) (v : Value) :
    m.Turns s writes (m.assign name v).machine := by
  unfold assign
  split
  · exact .aside rfl rfl
  · exact .refl m

theorem print_turns (m : Machine) (v : Value) : m.Turns s writes (m.print v).machine := by
  unfold print
  split
  · exact .aside rfl rfl
  · exact .refl m

theorem callNative_turns (m : Machine) (nested : Bool) (callee : Value) (args : List Value) :
    m.Turns s writes (callNative s m nested callee args).machine := by
  obtain ⟨w, heq, hw⟩ := callNative_works (s := s) m nested callee args
  rw [heq]
  exact .of_works hw

theorem carryOut_turns (m : Machine) (callee : Value) (args : List Value) :
    m.Turns s writes (carryOut s m callee args).machine := by
  unfold carryOut
  split
  · exact .aside rfl rfl
  · have hcall : m.Turns s writes (callNative s m false callee args).machine :=
      callNative_turns m false callee args
    generalize callNative s m false callee args = r at hcall ⊢
    match r, hcall with
    | .answered (.ok v) n, hcall => exact hcall.trans (.aside rfl rfl)
    | .answered (.error f) n, hcall => exact hcall
    | .loops l n, hcall => exact hcall.trans (.aside rfl rfl)

/-- The instructions that set members ask for `writes`, the others turn with or without it. -/
def Accord.turns (m : Machine) (o : Operand) {op : Opcode}
    (sets : op.setsMember = true → writes = true) : Accord s o op Empty where
  After _ H n _ := m.Turns s writes n ∧ ∀ v, H v
  Ends _ _ e _ := m.Turns s writes e.machine
  stack _ i := i.elim
  truthy _ i := i.elim
  text _ _ i := i.elim
  refusal _ i := i.elim
  held h v _ := h.2 v
  data h _ := h.2 _
  type h _ := h.2 _
  drop n h := ⟨h.1.trans (.aside rfl rfl), h.2⟩
  next _ h _ := h.1.trans (.aside rfl rfl)
  fault h _ _ := h.1
  raise _ h _ := h.1
  thrown _ h _ := h.1
  halt _ h := h.1
  jump _ h := h.1.trans (.aside rfl rfl)
  declare _ h _ := h.1.trans (.aside rfl rfl)
  assign _ h _ := h.1.trans (assign_turns _ _ _)
  print _ h _ := h.1.trans (print_turns _ _)
  ask {_ _ _ H n _ q _} h _ _ hK := by
    have hn := h.1.trans (Turns.of_works (n.ask_works q))
    rcases hr : n.ask s q with ⟨f | v, w⟩ <;> rw [hr] at hn
    · exact hn
    · exact hK v w Empty.elim H hr (h.2 v) ⟨hn, h.2⟩
  tell {_ _ n _ u} h tells := by
    obtain rfl : writes = true := by cases tells <;> exact sets rfl
    exact h.1.trans (reply_turns (n.tell_works u) fun _ n' => .refl n')
  carryOut _ h _ _ _ _ := h.1.trans (carryOut_turns _ _ _)

/-- Fields are set by the instructions that set members, and by no others. -/
theorem perform_turns (m : Machine) (o : Operand) {op : Opcode}
    (sets : op.setsMember = true → writes = true) :
    m.Turns s writes (m.perform s o op).machine := by
  cases hop : op.transfers with
  | false =>
    have hstart : (Accord.turns (s := s) m o sets).After 0 (fun _ => True) m Empty.elim :=
      ⟨.refl m, fun _ => trivial⟩
    exact (Accord.turns m o sets).perform hstart hop fun _ _ => trivial
  | true =>
    cases op
    case pushScope => exact .aside rfl rfl
    case popScope =>
      simp only [perform, popScope]
      split
      · exact .refl m
      · exact .aside rfl rfl
    case leave => exact leaveTo_turns m _ _
    case ret =>
      simp only [perform]
      refine pop_turns_of_stack fun v stack _ => ?_
      exact giveBack_turns { m with stack := stack } v
    case tryPush => exact .aside rfl rfl
    case tryPop =>
      simp only [perform, popHandler]
      split
      · exact .refl m
      · exact .aside rfl rfl
    case endFinally => exact endFinally_turns m
    all_goals cases hop

end Instructions

theorem begun_turns (m : Machine) (ins : Instruction) : m.tick.Turns s writes (m.begun s ins) := by
  obtain ⟨_, heq⟩ := m.begun_eq (s := s) ins
  rw [heq]
  exact .aside rfl rfl

theorem tick_edits (m : Machine) : m.world.Edits s.program writes m.tick.world :=
  .single (.elapse m.world _ (Nat.le_add_right _ _))

/-- A step that comes to an instruction counts it, whether or not the run is stopped before it. -/
theorem fetch_turns {m : Machine} {ins : Instruction} (has : s.program.instruction? m.ip = some ins)
    (sets : m.tick.stopBefore? = none → ∀ op, Opcode.ofCode? ins.op = some op →
      op.setsMember = true → writes = true) :
    m.tick.Turns s writes (m.fetch s).machine := by
  cases hgo : m.tick.stopBefore? with
  | some reason =>
    unfold fetch
    rw [has]
    dsimp only
    rw [hgo]
    exact fail_turns true _ m.tick m.loops
  | none =>
    -- Only an instruction that is executed can ask for `writes`, so `sets` is used here alone.
    rw [fetch_eq_settle has hgo]
    refine settle_turns ((begun_turns m ins).trans ?_)
    unfold step
    split
    · next op hop => exact perform_turns _ ins.operand (sets hgo op hop)
    · exact .refl _

theorem callBack_turns (m : Machine) (callee : Value) (args : List Value) :
    m.Turns s writes (m.callBack s callee args).machine := by
  unfold callBack
  split
  · exact fail_turns false _ m m.loops
  · split
    · split
      · exact fail_turns false _ m m.loops
      · exact .aside rfl rfl
    · have hcall : m.Turns s writes (callNative s m true callee args).machine :=
        callNative_turns m true callee args
      split
      · next v n heq =>
        rw [heq] at hcall
        exact hcall.trans (deliver_turns n v)
      · next f n heq =>
        rw [heq] at hcall
        exact hcall.trans (fail_turns false f n n.loops)
      · next heq =>
        rw [heq] at hcall
        exact hcall.trans (.aside rfl rfl)

theorem iterate_turns (m : Machine) : m.Turns s writes (m.iterate s).machine := by
  unfold iterate
  split
  · exact .aside rfl rfl
  · next l loops _ =>
    split
    · have hworks : m.world.Works s.program writes (l.result m.world).2 := l.result_works m.world
      have hresult : m.Turns s writes { m with world := (l.result m.world).2, loops := loops } :=
        (Turns.of_works hworks).trans (.aside rfl rfl)
      unfold endLoop
      dsimp only
      split
      · exact hresult.trans (deliver_turns _ _)
      · exact hresult.trans (.aside rfl rfl)
    · next e rest _ =>
      have htake (l' : Loop) : m.Turns s writes { m with loops := l' :: loops } := .aside rfl rfl
      exact (htake _).trans (callBack_turns _ _ _)

/-- A step that comes to no instruction counts none. -/
theorem idle_turns {m : Machine}
    (idle : m.control = .fetch → s.program.instruction? m.ip = none) :
    m.Turns s writes (m.advance s).machine := by
  unfold advance
  split
  · next control =>
    have hpc : m.Turns s writes { m with pc := m.ip } := .aside rfl rfl
    unfold fetch
    rw [idle control]
    dsimp only
    split
    · exact deliver_turns m .null
    · exact hpc.trans (fail_turns true _ _ _)
  · exact iterate_turns m

theorem advance_edits (m : Machine)
    (sets : ∀ ins op, m.Starts s ins → Opcode.ofCode? ins.op = some op → op.setsMember = true →
      writes = true) : m.world.Edits s.program writes (m.advance s).machine.world := by
  by_cases hfetch : m.control = .fetch ∧ ∃ ins, s.program.instruction? m.ip = some ins
  · obtain ⟨control, ins, has⟩ := hfetch
    have hstep : m.advance s = m.fetch s := by rw [advance, control]
    have hturns : m.tick.Turns s writes (m.fetch s).machine :=
      fetch_turns has fun go op => sets ins op ⟨control, has, go⟩
    rw [hstep]
    exact (tick_edits m).trans hturns.edits
  · refine (idle_turns fun control => ?_).edits
    exact Option.eq_none_iff_forall_ne_some.mpr fun ins has => hfetch ⟨control, ins, has⟩

end Machine

end BytecodeMachine
