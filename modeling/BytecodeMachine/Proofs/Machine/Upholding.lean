import BytecodeMachine.Proofs.Machine.Obeying

/-! Steps of a machine keep a condition on its values. An instruction makes functions over the scope it is
executed in or over the outermost one, and what it binds and makes is made by native code; everything
else it does is to take values from one place and put them into another. -/
namespace BytecodeMachine.Machine

variable {ι : Type} [Preorder ι] {s : Setup} {C : Condition ι} {P : Standing} {i j : ι}
  {m : Machine}

/-- A native call that leaves values which obey a condition. -/
inductive Native.Obeys (C : Condition ι) (P : Standing) (i : ι) : Native → Prop
  | answered {v : Value} {m : Machine} (machine : m.Obeys C P i) (value : C.value i v) :
      Obeys C P i (.answered (.ok v) m)
  | failed {f : Failure} {m : Machine} (machine : m.Obeys C P i)
      (failure : f.Holds (C.value i)) : Obeys C P i (.answered (.error f) m)
  | loops {l : Loop} {m : Machine} (machine : m.Obeys C P i) (loop : l.Holds (C.value i)) :
      Obeys C P i (.loops l m)

namespace Obeys

variable (hs : s.Keeps C P)

include hs

/-- An answer of native code leaves the scopes as they are, so that the machine stands where it did. -/
theorem reply {α : Type} {Q : ι → α → Prop} (h : m.Obeys C P j) (since : i ≤ j) {r : Reply α}
    (works : m.world.Works s.program true r.2)
    (hr : Reply.Obeys C (fun i f => f.Holds (C.value i)) Q j r) {K : α → Machine → Effect}
    (hK : ∀ a w k, r = (.ok a, w) → i ≤ k → Q k a → Obeys C P k { m with world := w } →
      ∃ l, i ≤ l ∧ (K a { m with world := w }).Obeys C P l) :
    ∃ k, i ≤ k ∧ (m.reply r K).Obeys C P k := by
  cases hr with
  | give hw grown ha =>
    exact hK _ _ _ rfl (since.trans grown) ha (h.with_world hs hw grown works.scopes)
  | fault hw grown hf =>
    exact ⟨_, since.trans grown, .failed (h.with_world hs hw grown works.scopes) hf⟩

end Obeys

/-! Calls. -/

section Calls

variable (hs : s.Keeps C P)

include hs

theorem callBuiltin_obeys (h : m.Obeys C P i) (b : Builtin) {args : List Value}
    (ha : ∀ v ∈ args, C.value i v) :
    Reply.ObeysValue C (fun i f => f.Holds (C.value i)) i (callBuiltin s m b args) := by
  unfold callBuiltin
  split
  · exact World.standard_obeys hs.condition h.world _ _ ha
  · split
    · next f hf =>
      obtain ⟨hvalue, hfailure, helems⟩ :=
        hs.host f (List.mem_of_find?_eq_some hf) m.depths args h.world ha
      exact World.carryOut_obeys hs.condition h.world hvalue hfailure helems
    · exact h.world.givesPlain hs.condition trivial

theorem answer_obeys (h : m.Obeys C P i) (name : Text) {r : Reply Value}
    (works : m.world.Works s.program true r.2)
    (hr : Reply.ObeysValue C (fun i f => f.Holds (C.value i)) i r) :
    ∃ j, i ≤ j ∧ (m.answer name r).Obeys C P j := by
  cases hr with
  | give hw grown hv =>
    exact ⟨_, grown, .answered (h.with_world hs hw grown works.scopes) hv⟩
  | fault hw grown hf =>
    exact ⟨_, grown, .failed (h.with_world hs hw grown works.scopes)
      (hf.named hs.condition.null name)⟩

theorem callMethod_obeys (h : m.Obeys C P i) (nested : Bool) (im : Intrinsic) (receiver : Value)
    {args : List Value} (ha : ∀ v ∈ args, C.value i v) :
    ∃ j, i ≤ j ∧ (callMethod s m nested im receiver args).Obeys C P j := by
  have helems := elements_hold (fun id => h.world.values.array id) receiver
  unfold callMethod
  dsimp only
  split
  · next gathered callee rest heq =>
    obtain ⟨hg, hc, hrest⟩ := loopOf?_holds hs.condition.null helems ha heq
    exact ⟨i, le_rfl, .loops h ⟨hc, hrest, hg⟩⟩
  · exact ⟨i, le_rfl, .failed h hs.condition.null⟩
  · exact answer_obeys hs h _ (World.method_works _ _ _ _)
      (World.method_obeys hs.condition h.world im receiver ha)

/-- The function that is called and its receiver come with the callee. -/
theorem function_obeys {w : World} (knows : C.knows i w) {callee : Value} {args : List Value}
    {c : Closure} {self : Option Value} (hc : C.value i callee)
    (h : Target.of callee args = .function c self) :
    C.closure c ∧ ∀ v ∈ self, C.value i v := by
  unfold Target.of at h
  split at h <;> cases h
  · exact ⟨hs.closure hc, fun v hv => by cases hv⟩
  · obtain ⟨hclosure, hself⟩ := hs.method knows hc
    refine ⟨hclosure, fun v hv => ?_⟩
    cases hv
    exact hself

theorem callNative_obeys (h : m.Obeys C P i) (nested : Bool) (callee : Value) {args : List Value}
    (ha : ∀ v ∈ args, C.value i v) :
    ∃ j, i ≤ j ∧ (callNative s m nested callee args).Obeys C P j := by
  unfold callNative
  split
  · exact answer_obeys hs h _ (callBuiltin_works s m _ _) (callBuiltin_obeys hs h _ ha)
  · next htarget =>
    exact callMethod_obeys hs h nested _ _ fun v hv => ha v (args_of_target htarget v hv)
  · exact ⟨i, le_rfl, .answered h hs.condition.null⟩

theorem Obeys.enterFrame (h : m.Obeys C P i) {c : Closure} (hc : C.closure c)
    {self : Option Value} (hself : ∀ v ∈ self, C.value i v) {args : List Value}
    (ha : ∀ v ∈ args, C.value i v) (callback : Bool) :
    (m.enterFrame c self args callback).Obeys C P i := by
  have hbound : Bound (C.value i)
      ((self.toList.map fun v => (Text.ofString "self", v)) ++ c.params.zip args) := by
    intro e he
    rcases List.mem_append.mp he with he | he
    · obtain ⟨v, hv, rfl⟩ := List.mem_map.mp he
      exact hself v (Option.mem_toList.mp hv)
    · exact ha e.2 (List.of_mem_zip he).2
  refine { h with world := ?_, place := ?_ }
  · exact h.world.with_scopes hs.condition
      ((h.world.values.scopes.push (some c.scope)).bindings hbound m.scopes.cells.size)
  · exact hs.standing.bindings (hs.standing.call h.place rfl hc) _ _

omit hs [Preorder ι] in
theorem Obeys.startLoop (h : m.Obeys C P i) {l : Loop} (hl : l.Holds (C.value i)) :
    (m.startLoop l).Obeys C P i :=
  { h with loops := List.forall_mem_cons.mpr ⟨hl, h.loops⟩ }

theorem carryOut_obeys (h : m.Obeys C P i) {callee : Value} (hc : C.value i callee)
    {args : List Value} (ha : ∀ v ∈ args, C.value i v) :
    ∃ j, i ≤ j ∧ (carryOut s m callee args).Obeys C P j := by
  unfold carryOut
  split
  · next c self htarget =>
    obtain ⟨hclosure, hself⟩ := function_obeys hs h.world.knows hc htarget
    exact ⟨i, le_rfl, .next (h.enterFrame hs hclosure hself ha false)⟩
  · obtain ⟨j, grown, hnative⟩ := callNative_obeys hs h false callee ha
    refine ⟨j, grown, ?_⟩
    generalize callNative s m false callee args = r at hnative ⊢
    cases hnative with
    | answered machine value => exact .next (machine.push value)
    | failed machine failure => exact .failed machine failure
    | loops machine loop => exact .next (machine.startLoop loop)

end Calls

/-! Instructions. -/

section Instructions

variable (hs : s.Keeps C P)

include hs

theorem assign_obeys (h : m.Obeys C P i) (name : Text) {v : Value} (hv : C.value i v) :
    (m.assign name v).Obeys C P i := by
  unfold assign
  split
  · next scopes hscopes =>
    exact .next (h.with_scopes hs (h.world.values.scopes.assign? hv hscopes)
      (hs.standing.assign h.place hscopes))
  · exact .failed h hs.condition.null

theorem print_obeys (h : m.Obeys C P i) (v : Value) : (m.print v).Obeys C P i := by
  unfold print
  split
  · exact .next { h with world := h.world.aside hs.condition rfl (Nat.le_refl _) }
  · exact .failed h trivial

omit hs [Preorder ι] in
theorem thrown_obeys {v : Value} (hv : C.value i v) : (m.thrown v).Holds (C.value i) := by
  unfold thrown
  split
  · exact trivial
  · exact hv

/-- A condition on values is kept by all instructions but the transfers. -/
def Accord.obeys (i : ι) {scope : Nat}
    (made : ∀ {name fn ref}, s.program.functions.get? name = some fn →
      C.closure ⟨ref, fn.name, fn.address.toInt, fn.params, scope⟩)
    (o : Operand) (op : Opcode) : Accord s o op Empty where
  After _ H n _ := ∃ j, i ≤ j ∧ n.Obeys C P j ∧ n.scope = scope ∧ H = C.value j
  Ends _ _ e _ := ∃ j, i ≤ j ∧ e.Obeys C P j
  stack _ i := i.elim
  truthy _ i := i.elim
  text _ _ i := i.elim
  refusal _ i := i.elim
  held := by
    rintro _ _ _ _ ⟨j, -, h, -, rfl⟩
    exact h.stack
  data := by
    rintro _ _ _ _ _ ⟨j, -, h, -, rfl⟩ hv
    exact hs.condition.plain hv.plain
  type := by
    rintro _ _ _ _ _ ⟨j, -, h, -, rfl⟩ ht
    exact hs.condition.ofType ht
  drop := by
    rintro _ _ _ _ n ⟨j, grown, h, hscope, rfl⟩
    exact ⟨j, grown, h.with_stack fun _ => List.mem_of_mem_drop, hscope, rfl⟩
  next := by
    rintro _ _ _ _ vs ⟨j, grown, h, -, rfl⟩ hvs
    exact ⟨j, grown, .next { h with stack := List.forall_mem_append.mpr ⟨hvs, h.stack⟩ }⟩
  fault := by
    rintro _ _ _ _ _ _ _ ⟨j, grown, h, -, rfl⟩ - -
    exact ⟨j, grown, .failed h trivial⟩
  raise := by
    rintro _ _ _ _ _ _ c ⟨j, grown, h, -, rfl⟩ -
    exact ⟨j, grown, .failed h hs.condition.null⟩
  thrown := by
    rintro _ _ _ _ _ _ - ⟨j, grown, h, -, rfl⟩ hv
    exact ⟨j, grown, .failed h (thrown_obeys hv)⟩
  halt := by
    rintro _ _ _ _ _ - ⟨j, grown, h, -, rfl⟩
    exact ⟨j, grown, .failed h hs.condition.null⟩
  jump := by
    rintro _ _ _ _ - ⟨j, grown, h, -, rfl⟩
    exact ⟨j, grown, .next { h with }⟩
  declare := by
    rintro _ _ _ _ _ - ⟨j, grown, h, -, rfl⟩ hv
    exact ⟨j, grown, .next (h.with_scopes hs (h.world.values.scopes.declare _ hv _)
      (hs.standing.declare _ _ _ h.place))⟩
  assign := by
    rintro _ _ _ _ _ - ⟨j, grown, h, -, rfl⟩ hv
    exact ⟨j, grown, assign_obeys hs h _ hv⟩
  print := by
    rintro _ _ _ _ _ - ⟨j, grown, h, -, rfl⟩ -
    exact ⟨j, grown, print_obeys hs h _⟩
  ask := by
    rintro _ _ _ _ m _ _ K ⟨j, grown, h, rfl, rfl⟩ asks - hK
    exact h.reply hs grown (m.ask_works _) (ask_obeys hs.condition h.world made asks)
      fun v w k hr later hv hn => hK v w Empty.elim _ hr hv ⟨k, later, hn, rfl, rfl⟩
  tell := by
    rintro _ _ m _ _ ⟨j, grown, h, -, rfl⟩ tells
    exact h.reply hs grown (m.tell_works _) (tell_obeys hs.condition h.world tells)
      fun _ _ k _ later _ hn => ⟨k, later, .next hn⟩
  carryOut := by
    rintro _ _ _ _ _ _ - ⟨j, grown, h, -, rfl⟩ hc - ha -
    obtain ⟨k, later, hend⟩ := carryOut_obeys hs h hc ha
    exact ⟨k, grown.trans later, hend⟩

theorem perform_obeys (h : m.Obeys C P i)
    (made : ∀ {name fn ref}, s.program.functions.get? name = some fn →
      C.closure ⟨ref, fn.name, fn.address.toInt, fn.params, m.scope⟩) (o : Operand) (op : Opcode) :
    ∃ j, i ≤ j ∧ (m.perform s o op).Obeys C P j := by
  cases transfers : op.transfers with
  | false =>
    have hstart : (Accord.obeys hs i made o op).After 0 (C.value i) m Empty.elim :=
      ⟨i, le_rfl, h, rfl, rfl⟩
    exact (Accord.obeys hs i made o op).perform hstart transfers fun _ _ => trivial
  | true =>
    refine ⟨i, le_rfl, ?_⟩
    cases op
    case pushScope =>
      have hworld := h.world.with_scopes hs.condition (h.world.values.scopes.push (some m.scope))
      exact .next { h with world := hworld, place := hs.standing.push h.place }
    case popScope =>
      dsimp only [perform, popScope]
      split
      · exact .failed h trivial
      · exact .next { h with place := hs.standing.leave h.place }
    case leave => exact leaveTo_obeys hs h _ _
    case ret =>
      change (m.pop s fun v m => m.giveBack v).Obeys C P i
      cases hst : m.stack with
      | nil =>
        rw [pop_of_nil hst]
        exact .failed h trivial
      | cons v stack =>
        rw [pop_of_cons hst]
        obtain ⟨hv, hstack⟩ := List.forall_mem_cons.mp (hst ▸ h.stack)
        exact giveBack_obeys hs (m := { m with stack := stack }) { h with stack := hstack } hv
    case tryPush =>
      refine .next { h with handlers := List.forall_mem_cons.mpr ⟨fun v hv => ?_, h.handlers⟩ }
      cases hv
    case tryPop =>
      dsimp only [perform, popHandler]
      split
      · exact .failed h trivial
      · next d rest hd =>
        obtain ⟨-, hrest⟩ := List.forall_mem_cons.mp (hd ▸ h.handlers)
        exact .next (h.with_handlers hrest)
    case endFinally => exact endFinally_obeys hs h
    all_goals cases transfers

end Instructions

/-! Steps. -/

section Steps

variable (hs : s.Keeps C P)

include hs

theorem Obeys.tick (h : m.Obeys C P i) : m.tick.Obeys C P i :=
  { h with world := h.world.aside hs.condition rfl (Nat.le_refl _) }

theorem begun_obeys (h : m.Obeys C P i) (ins : Instruction) :
    (m.begun s ins).Obeys C P i ∧ (m.begun s ins).scope = m.scope := by
  have hmarked : ∀ d ∈ m.tick.markFinalizing.handlers, d.Holds (C.value i) := by
    intro d hd
    rcases mem_markFinalizing hd with hd | ⟨e, -, rfl⟩
    · exact h.handlers d hd
    · intro v hv
      cases hv
  obtain ⟨events, heq⟩ := m.begun_eq (s := s) ins
  rw [heq]
  have hworld : World.Obeys C i { m.tick.world with events := events } :=
    h.world.aside hs.condition rfl (Nat.le_refl _)
  exact ⟨{ h with world := hworld, handlers := hmarked }, rfl⟩

theorem endLoop_obeys (h : m.Obeys C P i) {l : Loop} (hl : l.Holds (C.value i))
    {loops : List Loop} (hloops : ∀ k ∈ loops, k.Holds (C.value i)) :
    (m.endLoop l loops).Obeys C P i := by
  obtain ⟨hw, hv⟩ := Loop.result_obeys hs.condition h.world hl.gathered
  have hsame : (l.result m.world).2.store.scopes = m.scopes := by
    unfold Loop.result
    split <;> rfl
  have hm : Obeys C P i { m with world := (l.result m.world).2, loops := loops } :=
    (h.with_world hs hw le_rfl hsame).with_loops hloops
  unfold endLoop
  dsimp only
  split
  · exact deliver_obeys hm hv
  · exact .running { hm.push hv with }

theorem fetch_obeys (h : m.Obeys C P i)
    (made : ∀ {name fn ref}, s.program.functions.get? name = some fn →
      C.closure ⟨ref, fn.name, fn.address.toInt, fn.params, m.scope⟩) :
    ∃ j, i ≤ j ∧ (m.fetch s).Obeys C P j := by
  cases has : s.program.instruction? m.ip with
  | none =>
    have hm : Obeys C P i { m with pc := m.ip } := { h with }
    refine ⟨i, le_rfl, ?_⟩
    unfold fetch
    rw [has]
    dsimp only
    split
    · exact deliver_obeys h hs.condition.null
    · exact fail_obeys hs true hm h.loops trivial
  | some ins =>
    cases hgo : m.tick.stopBefore? with
    | some reason =>
      refine ⟨i, le_rfl, ?_⟩
      unfold fetch
      rw [has]
      dsimp only
      rw [hgo]
      exact fail_obeys hs true (h.tick hs) h.loops trivial
    | none =>
      obtain ⟨hbegun, hscope⟩ := begun_obeys hs h ins
      rw [fetch_eq_settle has hgo]
      unfold step
      split
      · obtain ⟨j, grown, hend⟩ := perform_obeys hs hbegun (hscope ▸ made) ins.operand _
        exact ⟨j, grown, settle_obeys hs hend⟩
      · exact ⟨i, le_rfl, settle_obeys hs (.failed hbegun trivial)⟩

theorem callBack_obeys (h : m.Obeys C P i) {callee : Value} (hc : C.value i callee)
    {args : List Value} (ha : ∀ v ∈ args, C.value i v) :
    ∃ j, i ≤ j ∧ (m.callBack s callee args).Obeys C P j := by
  have hfail {e : ErrorCause} : (fail s false (.of e) m m.loops).Obeys C P i :=
    fail_obeys hs false h h.loops hs.condition.null
  unfold callBack
  split
  · exact ⟨i, le_rfl, hfail⟩
  · split
    · next c self htarget =>
      obtain ⟨hclosure, hself⟩ := function_obeys hs h.world.knows hc htarget
      refine ⟨i, le_rfl, ?_⟩
      split
      · exact hfail
      · exact .running { h.enterFrame hs hclosure hself ha true with }
    · obtain ⟨j, grown, hnative⟩ := callNative_obeys hs h true callee ha
      refine ⟨j, grown, ?_⟩
      generalize callNative s m true callee args = r at hnative ⊢
      cases hnative with
      | answered machine value => exact deliver_obeys machine value
      | failed machine failure => exact fail_obeys hs false machine machine.loops failure
      | loops machine loop => exact .running (machine.startLoop loop)

theorem iterate_obeys (h : m.Obeys C P i) : ∃ j, i ≤ j ∧ (m.iterate s).Obeys C P j := by
  unfold iterate
  cases hloops : m.loops with
  | nil =>
    exact ⟨i, le_rfl, .running { h with loops := fun l hl => absurd hl List.not_mem_nil }⟩
  | cons l loops =>
    obtain ⟨hl, houter⟩ := List.forall_mem_cons.mp (hloops ▸ h.loops)
    dsimp only
    cases hrest : l.rest with
    | nil => exact ⟨i, le_rfl, endLoop_obeys hs h hl houter⟩
    | cons e rest =>
      obtain ⟨he, hlater⟩ := List.forall_mem_cons.mp (hrest ▸ hl.rest)
      obtain ⟨htaken, hargs⟩ := hl.take he hlater
      -- The loop that calls has lost an element and has a new boundary.
      let l' : Loop := { (l.take e rest).1 with boundary := m.frames.length + 1 }
      have hl' : l'.Holds (C.value i) := { htaken with }
      have hm : Obeys C P i { m with loops := l' :: loops } :=
        h.with_loops (List.forall_mem_cons.mpr ⟨hl', houter⟩)
      exact callBack_obeys hs hm hl'.callee hargs

/-- Whatever a step does, the values of the machine obey the condition after it, with more known of
the world where it has made objects or bound functions. -/
theorem advance_obeys (h : m.Obeys C P i)
    (made : ∀ {name fn ref}, s.program.functions.get? name = some fn →
      C.closure ⟨ref, fn.name, fn.address.toInt, fn.params, m.scope⟩) :
    ∃ j, i ≤ j ∧ (m.advance s).Obeys C P j := by
  unfold advance
  split
  · exact fetch_obeys hs h made
  · exact iterate_obeys hs h

end Steps

end BytecodeMachine.Machine
