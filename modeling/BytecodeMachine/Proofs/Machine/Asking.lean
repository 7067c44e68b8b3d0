import BytecodeMachine.Proofs.Machine.Accord
import BytecodeMachine.Proofs.Machine.Checked
import BytecodeMachine.Proofs.Machine.Conditions

/-! What instructions ask native code for, and what they tell it to change, keeps conditions on values:
the names that they look up are in scope or in the table, and what they make is made of values they
have taken. -/
namespace BytecodeMachine.Machine

variable {ι : Type} [Preorder ι] {s : Setup} {C : Condition ι} {E : ι → Failure → Prop} {i : ι}
  {m : Machine} {o : Operand} {op : Opcode}

theorem mem_of_mem_pairs {vs : List Value} {e : Value × Value} (h : e ∈ pairs vs) :
    e.1 ∈ vs ∧ e.2 ∈ vs := by
  induction vs using pairs.induct with
  | case1 k v rest ih =>
    rw [pairs] at h
    rcases List.mem_cons.mp h with rfl | h
    · simp
    · obtain ⟨hk, hv⟩ := ih h
      exact ⟨List.mem_cons_of_mem _ (List.mem_cons_of_mem _ hk),
        List.mem_cons_of_mem _ (List.mem_cons_of_mem _ hv)⟩
  | case2 vs hno =>
    unfold pairs at h
    split at h
    · exact absurd rfl (hno _ _ _)
    · exact absurd h List.not_mem_nil

section

variable (hC : C.Stable s.program E)

include hC

/-- A function of the table is there when its name is looked up. -/
theorem tableFunction_obeys (hw : m.world.Obeys C i) {name : Text}
    (has : s.program.functions.contains name = true) :
    Reply.ObeysValue C E i (m.tableFunction s name) := by
  have hc : Reply.Obeys C E (fun _ c => C.closure c) i
      (m.world.functionClosure s.program (m.place s) name) :=
    World.functionClosure_obeys hC hw (.inl (Table.get?_of_contains has))
  unfold tableFunction
  generalize m.world.functionClosure s.program (m.place s) name = r at hc ⊢
  cases hc with
  | give world grown given => exact .give world grown (hC.ofClosure given)
  | fault world grown failed => exact .fault world grown failed

theorem outsideFunction_obeys (hw : m.world.Obeys C i) (name : Text) :
    Reply.ObeysValue C E i (m.outsideFunction s name) := by
  unfold outsideFunction
  split
  · exact hw.gives (hC.plain trivial)
  · exact hw.fails hC _

theorem valueOfName_obeys (hw : m.world.Obeys C i) (name : Text) :
    Reply.ObeysValue C E i (m.valueOfName s name) := by
  unfold valueOfName
  split
  · next v hv => exact hw.gives (hw.values.scopes.lookup hv)
  · split
    · next has => exact tableFunction_obeys hC hw has
    · exact outsideFunction_obeys hC hw name

theorem calleeOfName_obeys (hw : m.world.Obeys C i) (name : Text) :
    Reply.ObeysValue C E i (m.calleeOfName s name) := by
  unfold calleeOfName
  split
  · next has => exact tableFunction_obeys hC hw has
  · split
    · next v hv => exact hw.gives (hw.values.scopes.lookup hv)
    · exact outsideFunction_obeys hC hw name

/-- Functions that an instruction makes are over the current scope. -/
theorem ask_obeys (hw : m.world.Obeys C i)
    (made : ∀ {name fn ref}, s.program.functions.get? name = some fn →
      C.closure ⟨ref, fn.name, fn.address.toInt, fn.params, m.scope⟩)
    {q : Query} (asks : op.Asks s o (C.value i) q) :
    Reply.ObeysValue C E i (m.ask s q) := by
  cases asks with
  | loadVar => exact valueOfName_obeys hC hw _
  | call => exact calleeOfName_obeys hC hw _
  | callMethod has => exact World.loadMember_obeys hC hw has _
  | loadMember has => exact World.loadMember_obeys hC hw has _
  | loadStatic _ => exact World.typeMember_obeys hC hw _ _
  | indexGet hobj _ => exact World.indexGet_obeys hC hw hobj _
  | sliceGet _ => exact World.sliceGet_obeys hC hw _ _ _
  | makeArray has => exact hw.newArray hC has
  | @makeDict vs has =>
    have hdict : (Dict.ofPairs (pairs vs)).Holds (C.value i) :=
      .ofPairs fun e he => ⟨has _ (mem_of_mem_pairs he).1, has _ (mem_of_mem_pairs he).2⟩
    have hnew : (m.world.newDict (Dict.ofPairs (pairs vs))).2.Obeys C i :=
      hw.with_store hC rfl rfl (hw.values.newDict hdict)
    have hplain : Value.Plain (m.world.newDict (Dict.ofPairs (pairs vs))).1 := trivial
    exact .give hnew le_rfl (hC.plain hplain)
  | add x y =>
    refine hw.newArray hC fun v hv => ?_
    rcases List.mem_append.mp hv with hv | hv
    · exact hw.values.array _ v hv
    · exact hw.values.array _ v hv
  | pushClosure found =>
    exact .give (hw.newRef hC) le_rfl (hC.ofClosure (made found))
  | newObject found =>
    obtain ⟨info, hget⟩ := Table.get?_of_contains found
    obtain ⟨j, grown, hnew, hobject, -⟩ := hw.newObject hC (hC.classRef hget)
    exact .give hnew grown hobject

theorem tell_obeys (hw : m.world.Obeys C i) {u : Update}
    (tells : op.Tells s o (C.value i) u) :
    Reply.ObeysUnit C E i (m.tell s u) := by
  cases tells with
  | indexSet hidx hv => exact World.indexSet_obeys hC hw _ hidx hv
  | storeMember hv => exact World.storeMember_obeys hC hw _ _ hv
  | @storeStatic t _ hv => exact World.storeMember_obeys hC hw (.type t) o.member hv

end

end BytecodeMachine.Machine
