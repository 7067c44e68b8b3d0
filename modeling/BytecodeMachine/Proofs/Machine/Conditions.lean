import BytecodeMachine.Machine.Session
import BytecodeMachine.Proofs.Machine.Data
import BytecodeMachine.Proofs.Machine.Links
import Mathlib.Order.Nat

/-! Native code keeps conditions on values. It hands on values it was given or finds in the store,
makes plain ones, binds functions that it looks up in the table, and makes objects of classes that it
looks up. A condition that allows for this much holds of what it answers and of the world it leaves. -/
namespace BytecodeMachine

theorem Value.Data.plain {v : Value} (h : v.Data) : v.Plain := by
  cases h <;> exact trivial

variable {ι : Type} [Preorder ι]

/-- A function is in the table, or it may be missing. -/
def Program.Finds (p : Program) (E : ι → Failure → Prop) (name : Text) : Prop :=
  (∃ fn, p.functions.get? name = some fn) ∨
    ∀ i (f : Fault), f.cause = .undefinedFunction name → E i (.fault f)

/-- A condition on the values of a world, by what is known of the world, with what it says of the
functions and the classes in them. -/
structure Condition (ι : Type) where
  knows : ι → World → Prop
  value : ι → Value → Prop
  closure : Closure → Prop
  cls : ClassRef → Prop

/-- What the native code of a program needs of a condition in order to keep it, where only failures
of some kind may come up. More is known when an object is made or a function is bound. -/
structure Condition.Stable (C : Condition ι) (p : Program) (E : ι → Failure → Prop) : Prop where
  mono : ∀ {i j v}, i ≤ j → C.value i v → C.value j v
  plain : ∀ {i} {v : Value}, v.Plain → C.value i v
  ofClosure : ∀ {i c}, C.closure c → C.value i (.closure c)
  ofClass : ∀ {i c}, C.cls c → C.value i (.cls c)
  ofType : ∀ {i name t}, p.resolveType? name = some t → C.value i (.type t)
  aside : ∀ {i w w'}, C.knows i w → w'.objects = w.objects → w.store.refs ≤ w'.store.refs →
    C.knows i w'
  boundMethod : ∀ {i w c receiver id}, C.knows i w → C.closure c → C.value i receiver →
    receiver = .object id ∨ receiver = .static id →
    ∃ j, i ≤ j ∧ C.knows j w.newRef.2 ∧ C.value j (.boundMethod w.store.refs c receiver)
  boundIntrinsic : ∀ {i w} {m : Intrinsic} {receiver : Value}, C.knows i w →
    receiver.kind = m.kind → C.value i receiver →
    ∃ j, i ≤ j ∧ C.knows j w.newRef.2 ∧ C.value j (.boundIntrinsic w.store.refs m receiver)
  newObject : ∀ {i w} (c : ClassRef), C.knows i w →
    ∃ j, i ≤ j ∧ C.knows j { w with store := (w.store.newObject c).2 } ∧
      C.value j (.object w.objects) ∧ C.value j (.static w.objects)
  /-- Objects that are referred to are there, or their class does not matter. -/
  object : ∀ {i w id}, C.knows i w → C.value i (.object id) ∨ C.value i (.static id) →
    id < w.objects ∨ ∀ c, C.cls c
  table : ∀ {name fn ref}, p.functions.get? name = some fn →
    C.closure { ref, name := fn.name, entry := fn.address.toInt, params := fn.params
                scope := World.globals }
  classRef : ∀ {key info}, p.classes.get? key = some info → C.cls (p.classRef key)
  declared : ∀ {key name fn info}, p.classes.get? key = some info →
    Program.declared? info name = some (.method fn) ∨
      Program.declared? info name = some (.staticMethod fn) → p.Finds E fn
  /-- An exception raised by native code carries null. -/
  raised : ∀ {i} (c : ErrorCause), E i (.of c)
  stopped : ∀ {i} (reason : StopReason), E i (.stopped reason)

/-- A world whose values obey a condition, and whose objects are of classes that do. -/
structure World.Obeys (C : Condition ι) (i : ι) (w : World) : Prop where
  knows : C.knows i w
  values : w.store.Holds (C.value i)
  classes : ∀ o ∈ w.store.objects, C.cls o.cls
  closures : ∀ e ∈ w.closures, C.closure e.2
  statics : ∀ e ∈ w.statics, C.value i (.static e.2)

/-- An answer that obeys a condition, given in a world of which as much is known or more. -/
inductive Reply.Obeys {α : Type} (C : Condition ι) (E : ι → Failure → Prop) (Q : ι → α → Prop)
    (i : ι) : Reply α → Prop
  | give {j : ι} {w : World} {a : α} (world : w.Obeys C j) (grown : i ≤ j) (given : Q j a) :
      Obeys C E Q i (.ok a, w)
  | fault {j : ι} {w : World} {f : Failure} (world : w.Obeys C j) (grown : i ≤ j)
      (failed : E j f) : Obeys C E Q i (.error f, w)

/-- An answer with a value that obeys a condition. -/
abbrev Reply.ObeysValue (C : Condition ι) (E : ι → Failure → Prop) (i : ι) (r : Reply Value) :
    Prop := Reply.Obeys C E C.value i r

/-- An answer without a value. -/
abbrev Reply.ObeysUnit (C : Condition ι) (E : ι → Failure → Prop) (i : ι) (r : Reply Unit) :
    Prop := Reply.Obeys C E (fun _ _ => True) i r

variable {p : Program} {C : Condition ι} {E : ι → Failure → Prop} {i j : ι} {w : World}

theorem Condition.Stable.null (hC : C.Stable p E) : C.value i .null := hC.plain trivial

namespace Reply.Obeys

variable {α : Type} {Q : ι → α → Prop} {w' : World} {r : Reply α}

theorem fail (hC : C.Stable p E) (hw : w'.Obeys C j) (grown : i ≤ j) (c : ErrorCause) :
    Reply.Obeys C E Q i (w'.fail c) := .fault hw grown (hC.raised c)

/-- An answer given where less was known. -/
theorem since (h : Reply.Obeys C E Q j r) (grown : i ≤ j) : Reply.Obeys C E Q i r := by
  cases h with
  | give world later given => exact .give world (grown.trans later) given
  | fault world later failed => exact .fault world (grown.trans later) failed

theorem failed (h : Reply.Obeys C E Q i r) {f : Failure} (hf : r.1 = .error f) :
    ∃ j, i ≤ j ∧ E j f := by
  cases h with
  | give => cases hf
  | fault _ grown failed =>
    cases hf
    exact ⟨_, grown, failed⟩

end Reply.Obeys

namespace World.Obeys

variable {w' : World}

/-- An answer that changes nothing. -/
theorem gives {α : Type} {Q : ι → α → Prop} (h : w.Obeys C i) {a : α} (ha : Q i a) :
    Reply.Obeys C E Q i (.ok a, w) := .give h le_rfl ha

omit [Preorder ι] in
/-- A change of the store that keeps the objects as they are. -/
theorem of_holds (h : w.Obeys C i) (knows : C.knows i w')
    (objects : w'.store.objects = w.store.objects) (closures : w'.closures = w.closures)
    (statics : w'.statics = w.statics) (holds : w'.store.Holds (C.value i)) : w'.Obeys C i where
  knows := knows
  values := holds
  classes := objects ▸ h.classes
  closures := closures ▸ h.closures
  statics := statics ▸ h.statics

omit [Preorder ι] in
/-- A change of what refers to no value: the disk, the handles, the clock, the output, the events
and the counters. -/
theorem of_values (h : w.Obeys C i) (knows : C.knows i w') (same : w'.values = w.values) :
    w'.Obeys C i := by
  simp only [World.values, Prod.mk.injEq] at same
  obtain ⟨arrays, dicts, objects, exceptions, scopes, closures, statics⟩ := same
  refine h.of_holds knows objects closures statics ⟨?_, ?_, ?_, ?_, ?_⟩
  · exact arrays ▸ h.values.arrays
  · exact dicts ▸ h.values.dicts
  · exact objects ▸ h.values.objects
  · exact exceptions ▸ h.values.exceptions
  · exact scopes ▸ h.values.scopes

variable (hC : C.Stable p E)

include hC

/-- Such a change, after which no fewer references have been made. -/
theorem aside (h : w.Obeys C i) (same : w'.values = w.values)
    (refs : w.store.refs ≤ w'.store.refs) : w'.Obeys C i :=
  h.of_values (hC.aside h.knows (congrArg (fun vs => vs.2.2.1.size) same) refs) same

/-- A change of the values in the store. -/
theorem with_store (h : w.Obeys C i) {st : Store} (objects : st.objects = w.store.objects)
    (refs : st.refs = w.store.refs) (holds : st.Holds (C.value i)) :
    World.Obeys C i { w with store := st } :=
  h.of_holds (hC.aside h.knows (congrArg Array.size objects) (Nat.le_of_eq refs.symm)) objects rfl
    rfl holds

theorem newRef (h : w.Obeys C i) : (w.newRef).2.Obeys C i := h.aside hC rfl (Nat.le_succ _)

theorem setArray (h : w.Obeys C i) (id : Nat) {elems : List Value}
    (he : ∀ v ∈ elems, C.value i v) :
    World.Obeys C i { w with store := w.store.setArray id elems } :=
  h.with_store hC rfl rfl (h.values.setArray id he)

theorem modifyDict (h : w.Obeys C i) (id : Nat) {f : Dict → Dict}
    (hf : ∀ d, d.Holds (C.value i) → (f d).Holds (C.value i)) :
    World.Obeys C i { w with store := w.store.modifyDict id f } :=
  h.with_store hC rfl rfl (h.values.modifyDict id hf)

theorem newException (h : w.Obeys C i) {e : Exception} (he : C.value i e.payload) :
    World.Obeys C i { w with store := (w.store.newException e).2 } :=
  h.with_store hC rfl rfl (h.values.newException he)

theorem with_scopes (h : w.Obeys C i) {S : Scopes} (hS : S.Holds (C.value i)) :
    World.Obeys C i { w with store := { w.store with scopes := S } } :=
  h.with_store hC rfl rfl (h.values.with_scopes hS)

/-- Setting a field changes no class and adds no object. -/
theorem setField (h : w.Obeys C i) (id : Nat) (name : Text) {v : Value} (hv : C.value i v) :
    World.Obeys C i { w with store := w.store.setField id name v } where
  knows := by
    refine hC.aside h.knows ?_ (Nat.le_refl _)
    simp [objects, Store.setField]
  values := h.values.setField id name hv
  classes := forall_mem_modify (f := fun o : Object => { o with fields := bind name v o.fields })
    h.classes id fun _ ho => ho
  closures := h.closures
  statics := h.statics

theorem fails {α : Type} {Q : ι → α → Prop} (h : w.Obeys C i) (c : ErrorCause) :
    Reply.Obeys C E Q i (w.fail c) := .fail hC h le_rfl c

theorem givesPlain (h : w.Obeys C i) {v : Value} (hv : v.Plain) :
    Reply.ObeysValue C E i (.ok v, w) := h.gives (hC.plain hv)

theorem newArray (h : w.Obeys C i) {elems : List Value} (he : ∀ v ∈ elems, C.value i v) :
    Reply.ObeysValue C E i (w.newArray elems) := by
  have hw : World.Obeys C i { w with store := (w.store.newArray elems).2 } :=
    h.with_store hC rfl rfl (h.values.newArray he)
  exact .give hw le_rfl (hC.plain trivial)

/-- What was there before a new object obeys the condition where more is known. -/
theorem newObject (h : w.Obeys C i) {cls : ClassRef} (hcls : C.cls cls) :
    ∃ j, i ≤ j ∧ World.Obeys C j { w with store := (w.store.newObject cls).2 } ∧
      C.value j (.object w.objects) ∧ C.value j (.static w.objects) := by
  obtain ⟨j, grown, hknows, hobject, hstatic⟩ := hC.newObject cls h.knows
  refine ⟨j, grown, ⟨hknows, ?_, ?_, h.closures, ?_⟩, hobject, hstatic⟩
  · exact (h.values.newObject cls).mono fun _ hv => hC.mono grown hv
  · exact forall_mem_push (P := fun o : Object => C.cls o.cls) h.classes hcls
  · exact fun e he => hC.mono grown (h.statics e he)

/-- The class of an object that is referred to. -/
theorem object_cls (h : w.Obeys C i) {id : Nat}
    (hid : C.value i (.object id) ∨ C.value i (.static id)) : C.cls (w.store.object id).cls := by
  rcases hC.object h.knows hid with hlt | hall
  · exact h.classes _ (Store.object_mem hlt)
  · exact hall _

theorem entry (h : w.Obeys C i) (id : Nat) (key : Value) :
    C.value i (((w.store.dict id).get? key).getD .null) := by
  cases hv : (w.store.dict id).get? key with
  | none => exact hC.null
  | some v => exact (h.values.dict id).get? hv

/-- A world of which more is known. -/
theorem mono (h : w.Obeys C i) (grown : i ≤ j) (hknows : C.knows j w')
    (same : w'.values = w.values) : w'.Obeys C j := by
  simp only [World.values, Prod.mk.injEq] at same
  obtain ⟨arrays, dicts, objects, exceptions, scopes, closures, statics⟩ := same
  have hvalues := h.values.mono fun _ hv => hC.mono grown hv
  refine ⟨hknows, ⟨?_, ?_, ?_, ?_, ?_⟩, objects ▸ h.classes, closures ▸ h.closures, ?_⟩
  · exact arrays ▸ hvalues.arrays
  · exact dicts ▸ hvalues.dicts
  · exact objects ▸ hvalues.objects
  · exact exceptions ▸ hvalues.exceptions
  · exact scopes ▸ hvalues.scopes
  · exact fun e he => hC.mono grown (h.statics e (statics ▸ he))

end World.Obeys

/-- No value is in the store that a run begins with. -/
theorem World.holds_renew (w : World) (o : RunOptions) {H : Value → Prop} :
    (w.renew o).store.Holds H := by
  have hempty {α : Type} {Q : α → Prop} : ∀ x ∈ (#[] : Array α), Q x := by simp
  refine ⟨hempty, hempty, hempty, hempty, fun c hc e he => ?_⟩
  have hc : c = { parent := none } := by simpa [World.renew, Scopes.push] using hc
  rw [hc] at he
  exact absurd he List.not_mem_nil

omit [Preorder ι] in
theorem World.obeys_renew {o : RunOptions} (knows : C.knows i (w.renew o)) :
    (w.renew o).Obeys C i :=
  ⟨knows, w.holds_renew o, by simp [renew], by simp [renew], by simp [renew]⟩

namespace World

variable (hC : C.Stable p E) {here : Place}

include hC

theorem lift_obeys {α : Type} {Q : ι → α → Prop} (hw : w.Obeys C i) {r : Except ErrorCause α}
    (hr : Yields (Q i) r) : Reply.Obeys C E Q i (w.lift r) := by
  cases r with
  | ok a => exact hw.gives (hr a rfl)
  | error e => exact hw.fails hC e

theorem lift_data (hw : w.Obeys C i) {r : Except ErrorCause Value} (h : Yields Value.Data r) :
    Reply.ObeysValue C E i (w.lift r) := lift_obeys hC hw (h.mono fun _ hv => hC.plain hv.plain)

theorem functionClosure_obeys (hw : w.Obeys C i) {name : Text} (has : p.Finds E name) :
    Reply.Obeys C E (fun _ c => C.closure c) i (w.functionClosure p here name) := by
  unfold functionClosure
  split
  · next c hc => exact hw.gives (hw.closures _ (mem_of_lookup hc))
  · split
    · next hnone =>
      rcases has with ⟨fn, hget⟩ | missing
      · rw [hnone] at hget
        cases hget
      · exact .fault hw le_rfl (missing _ _ rfl)
    · next fn hget =>
      -- The closure is made now and kept for the rest of the run.
      let c : Closure :=
        { ref := w.store.refs, name := fn.name, entry := fn.address.toInt, params := fn.params
          scope := globals }
      have hc : C.closure c := hC.table hget
      have hnew : Obeys C i { w.newRef.2 with closures := (name, c) :: w.closures } :=
        { hw.newRef hC with
          knows := hC.aside (hw.newRef hC).knows rfl (Nat.le_refl _)
          closures := List.forall_mem_cons.mpr ⟨hc, hw.closures⟩ }
      exact .give hnew le_rfl hc

/-- The object of a class in the table, found or made. -/
theorem staticObject_obeys (hw : w.Obeys C i) {key : Text} {info : ClassInfo}
    (hget : p.classes.get? key = some info) :
    ∃ j, i ≤ j ∧ (w.staticObject p key).2.Obeys C j ∧
      C.value j (.static (w.staticObject p key).1) := by
  unfold staticObject
  split
  · next id hid => exact ⟨i, le_rfl, hw, hw.statics _ (mem_of_lookup hid)⟩
  · obtain ⟨j, grown, hnew, -, hstatic⟩ := hw.newObject hC (hC.classRef hget)
    exact ⟨j, grown, { hnew with
      knows := hC.aside hnew.knows rfl (Nat.le_refl _)
      statics := List.forall_mem_cons.mpr ⟨hstatic, hnew.statics⟩ }, hstatic⟩

/-- Methods are bound to objects, one new value at a time. -/
theorem boundMethod_obeys (hw : w.Obeys C i) {c : Closure} (hc : C.closure c) {receiver : Value}
    {id : Nat} (hobject : receiver = .object id ∨ receiver = .static id)
    (hr : C.value i receiver) :
    Reply.ObeysValue C E i (.ok (.boundMethod w.store.refs c receiver), w.newRef.2) := by
  obtain ⟨j, grown, hknows, hbound⟩ := hC.boundMethod hw.knows hc hr hobject
  exact .give (hw.mono hC grown hknows rfl) grown hbound

theorem bindMethod_obeys (hw : w.Obeys C i) {function : Text} (has : p.Finds E function) {id : Nat}
    (hr : C.value i (.object id)) :
    Reply.ObeysValue C E i (w.bindMethod p here function (.object id)) := by
  have hc : Reply.Obeys C E (fun _ c => C.closure c) i (w.functionClosure p here function) :=
    functionClosure_obeys hC hw has
  unfold bindMethod
  generalize w.functionClosure p here function = r at hc ⊢
  cases hc with
  | fault world grown failed => exact .fault world grown failed
  | give world grown given =>
    exact (boundMethod_obeys hC world given (.inl rfl) (hC.mono grown hr)).since grown

theorem bindIntrinsic_obeys (hw : w.Obeys C i) {m : Intrinsic} {receiver : Value}
    (kind : receiver.kind = m.kind) (hr : C.value i receiver) :
    Reply.ObeysValue C E i (w.bindIntrinsic m receiver) := by
  obtain ⟨j, grown, hknows, hbound⟩ := hC.boundIntrinsic hw.knows kind hr
  exact .give (hw.mono hC grown hknows rfl) grown hbound

theorem staticMember_obeys (hw : w.Obeys C i) (key name : Text) :
    Reply.ObeysValue C E i (w.staticMember p here key name) := by
  unfold staticMember
  split
  · next owner hfind =>
    obtain ⟨info, hget, -⟩ := Program.findMember?_eq hfind
    obtain ⟨j, grown, hobj, -⟩ := staticObject_obeys hC hw hget
    exact .give hobj grown (hobj.values.field hC.null _ _)
  · next owner fn hfind =>
    obtain ⟨info, hget, hdeclared⟩ := Program.findMember?_eq hfind
    have hc : Reply.Obeys C E (fun _ c => C.closure c) i (w.functionClosure p here fn) :=
      functionClosure_obeys hC hw (hC.declared hget (.inr hdeclared))
    generalize w.functionClosure p here fn = r at hc ⊢
    cases hc with
    | fault world grown failed => exact .fault world grown failed
    | give world grown given =>
      obtain ⟨j, later, hobj, hstatic⟩ := staticObject_obeys hC world hget
      exact (boundMethod_obeys hC hobj given (.inr rfl) hstatic).since (grown.trans later)
  · exact hw.fails hC _
  · exact hw.fails hC _

/-- Setting a static field makes its object where there is none yet. -/
theorem setStaticField_obeys (hw : w.Obeys C i) {key name owner : Text} {member : Member}
    (hfind : p.findMember? key name = some (owner, member)) {v : Value} (hv : C.value i v)
    {id : Nat} {w' : World} (hobject : w.staticObject p owner = (id, w')) :
    Reply.ObeysUnit C E i (.ok (), { w' with store := w'.store.setField id name v }) := by
  obtain ⟨info, hget, -⟩ := Program.findMember?_eq hfind
  obtain ⟨j, grown, hobj, -⟩ := staticObject_obeys hC hw hget
  rw [hobject] at hobj
  exact .give (hobj.setField hC id name (hC.mono grown hv)) grown trivial

theorem setStaticMember_obeys (hw : w.Obeys C i) (key name : Text) {v : Value}
    (hv : C.value i v) : Reply.ObeysUnit C E i (w.setStaticMember p key name v) := by
  unfold setStaticMember
  split
  · next hfind => exact setStaticField_obeys hC hw hfind hv rfl
  all_goals exact hw.fails hC _

theorem instanceMember_obeys (hw : w.Obeys C i) {id : Nat} (hid : C.value i (.object id))
    (name : Text) : Reply.ObeysValue C E i (w.instanceMember p here id name) := by
  unfold instanceMember
  dsimp only
  split
  · exact hw.gives (hw.values.field hC.null _ _)
  · next fn hfind =>
    -- The class that declares the method is in the table.
    obtain ⟨info, hget, hdeclared⟩ := Program.findMember?_eq hfind
    exact bindMethod_obeys hC hw (hC.declared hget (.inl hdeclared)) hid
  · exact staticMember_obeys hC hw _ _
  · exact hw.fails hC _

theorem setInstanceMember_obeys (hw : w.Obeys C i) (id : Nat) (name : Text) {v : Value}
    (hv : C.value i v) : Reply.ObeysUnit C E i (w.setInstanceMember p id name v) := by
  unfold setInstanceMember
  dsimp only
  split
  · exact .give (hw.setField hC id name hv) le_rfl trivial
  · next hfind => exact setStaticField_obeys hC hw hfind hv rfl
  all_goals exact hw.fails hC _

theorem typeMember_obeys (hw : w.Obeys C i) (t : TypeRef) (name : Text) :
    Reply.ObeysValue C E i (w.typeMember p here t name) := by
  unfold typeMember
  split
  · exact staticMember_obeys hC hw _ _
  · unfold enumMember
    split
    · exact hw.givesPlain hC trivial
    · exact hw.fails hC _
  · split
    · exact hw.givesPlain hC trivial
    · exact hw.fails hC _

theorem loadMember_obeys (hw : w.Obeys C i) {receiver : Value} (hr : C.value i receiver)
    (name : Text) : Reply.ObeysValue C E i (w.loadMember p here receiver name) := by
  unfold loadMember
  split
  · exact instanceMember_obeys hC hw hr name
  · exact staticMember_obeys hC hw _ _
  · exact staticMember_obeys hC hw _ _
  · exact typeMember_obeys hC hw _ _
  · next id =>
    split
    · next v hv =>
      refine hw.gives ?_
      unfold exceptionMember? at hv
      split_ifs at hv <;> cases hv
      all_goals first
        | exact hC.plain trivial
        | exact hw.values.payload hC.null id
    · exact hw.fails hC _
  · next id =>
    split
    · next m hm => exact bindIntrinsic_obeys hC hw (Intrinsic.kind_of_find? hm).symm hr
    · exact hw.gives (hw.entry hC id _)
  · split
    · next m hm => exact bindIntrinsic_obeys hC hw (Intrinsic.kind_of_find? hm).symm hr
    · exact hw.fails hC _

theorem insert_obeys (hw : w.Obeys C i) (id : Nat) {key v : Value} (hk : C.value i key)
    (hv : C.value i v) :
    Reply.ObeysUnit C E i
      (.ok (), { w with store := w.store.modifyDict id fun d => d.insert key v }) :=
  .give (hw.modifyDict hC id fun _ hd => hd.insert hk hv) le_rfl trivial

theorem storeMember_obeys (hw : w.Obeys C i) (receiver : Value) (name : Text) {v : Value}
    (hv : C.value i v) : Reply.ObeysUnit C E i (w.storeMember p receiver name v) := by
  unfold storeMember
  split
  · exact setInstanceMember_obeys hC hw _ _ hv
  · exact setStaticMember_obeys hC hw _ _ hv
  · exact setStaticMember_obeys hC hw _ _ hv
  · split
    · exact setStaticMember_obeys hC hw _ _ hv
    · exact hw.fails hC _
  · exact insert_obeys hC hw _ (hC.plain trivial) hv
  · exact hw.fails hC _

theorem indexGet_obeys (hw : w.Obeys C i) {obj : Value} (hobj : C.value i obj) (idx : Value) :
    Reply.ObeysValue C E i (w.indexGet p here obj idx) := by
  unfold indexGet
  split
  · next id =>
    have hmem (n : Int) : Yields (C.value i) (elementAt (w.store.array id) n) := fun v hv =>
      hw.values.array id v (elementAt_mem hv)
    exact lift_obeys hC hw (.bind hmem)
  · exact lift_data hC hw (.bind fun _ => .map fun _ => .char _)
  · exact hw.gives (hw.entry hC _ _)
  iterate 4
    · split
      · exact loadMember_obeys hC hw hobj _
      · exact hw.fails hC _
  · exact hw.fails hC _

theorem indexSet_obeys (hw : w.Obeys C i) (obj : Value) {idx v : Value}
    (hidx : C.value i idx) (hv : C.value i v) :
    Reply.ObeysUnit C E i (w.indexSet p obj idx v) := by
  unfold indexSet
  split
  · next id =>
    split
    · next n _ =>
      have hset : ∀ u ∈ (w.store.array id).set n v, C.value i u := by
        intro u hu
        rcases List.mem_or_eq_of_mem_set hu with hu | rfl
        · exact hw.values.array id u hu
        · exact hv
      exact .give (hw.setArray hC id hset) le_rfl trivial
    · exact hw.fails hC _
  · exact insert_obeys hC hw _ hidx hv
  · exact hw.fails hC _
  iterate 4
    · split
      · exact storeMember_obeys hC hw _ _ hv
      · exact hw.fails hC _
  · exact hw.fails hC _

theorem sliceGet_obeys (hw : w.Obeys C i) (obj start stop : Value) :
    Reply.ObeysValue C E i (w.sliceGet obj start stop) := by
  unfold sliceGet
  split
  · next id =>
    dsimp only
    split
    · exact hw.fails hC _
    · exact hw.newArray hC fun v hv => hw.values.array id v (mem_of_mem_slice hv)
  · dsimp only
    split
    · exact hw.fails hC _
    · exact hw.givesPlain hC trivial
  · exact hw.fails hC _

/-- Every method of an array takes elements out, or puts arguments in. -/
theorem arrayMethod_obeys (hw : w.Obeys C i) (m : Intrinsic) (id : Nat) {args : List Value}
    (ha : ∀ v ∈ args, C.value i v) :
    Reply.ObeysValue C E i (w.arrayMethod p here m id args) := by
  have helems := hw.values.array id
  have hput {xs : List Value} (hxs : ∀ v ∈ xs, C.value i v) {v : Value}
      (hv : C.value i v) :
      Reply.ObeysValue C E i (({ w with store := w.store.setArray id xs } : World).give v) :=
    .give (hw.setArray hC id hxs) le_rfl hv
  unfold arrayMethod
  dsimp only
  split
  · refine hput (fun v hv => ?_) (hC.plain trivial)
    rcases List.mem_append.mp hv with hv | hv
    · exact helems v hv
    · exact ha v hv
  · split
    · next v hv =>
      exact hput (fun u hu => helems u (List.dropLast_subset _ hu))
        (helems v (List.mem_of_getLast? hv))
    · exact hw.fails hC _
  · exact hw.givesPlain hC trivial
  · have hobj : C.value i (.array id) := hC.plain trivial
    exact indexGet_obeys hC hw hobj _
  · next n v =>
    split
    · exact hw.fails hC _
    · split
      · exact hw.fails hC _
      · refine hput (fun u hu => ?_) hC.null
        rcases List.mem_append.mp hu with hu | hu
        · exact helems u (List.mem_of_mem_take hu)
        · rcases List.mem_cons.mp hu with rfl | hu
          · exact ha u (by simp)
          · exact helems u (List.mem_of_mem_drop hu)
  · split
    · exact hw.fails hC _
    · split
      · exact hw.fails hC _
      · next v hv =>
        exact hput (fun u hu => helems u (List.mem_of_mem_eraseIdx hu))
          (helems v (elementAt_mem hv))
  · exact hw.givesPlain hC trivial
  · exact hw.givesPlain hC trivial
  · split
    · exact hw.fails hC _
    · exact hw.givesPlain hC trivial
  · exact sliceGet_obeys hC hw _ _ _
  · exact hput (fun u hu => helems u (List.mem_reverse.mp hu)) (hC.plain trivial)
  · exact hw.givesPlain hC trivial

theorem dictMethod_obeys (hw : w.Obeys C i) (m : Intrinsic) (id : Nat) {args : List Value}
    (ha : ∀ v ∈ args, C.value i v) :
    Reply.ObeysValue C E i (w.dictMethod m id args) := by
  have hdict := hw.values.dict id
  unfold dictMethod
  dsimp only
  split
  · next key missing =>
    refine hw.gives ?_
    cases hv : (w.store.dict id).get? key with
    | some v => exact hdict.get? hv
    | none =>
      cases missing with
      | nil => exact hC.null
      | cons v vs => exact ha v (by simp)
  · next key v =>
    have hset := hw.modifyDict hC id fun d hd => hd.insert (ha key (by simp)) (ha v (by simp))
    exact .give hset le_rfl hC.null
  · exact hw.givesPlain hC trivial
  · next key =>
    split
    · next v d he =>
      obtain ⟨hv, hd⟩ := hdict.erase he
      exact .give (hw.modifyDict hC id fun _ _ => hd) le_rfl hv
    · exact hw.givesPlain hC trivial
  · exact hw.newArray hC hdict.keys
  · exact hw.newArray hC hdict.values
  · exact hw.givesPlain hC trivial
  · exact hw.givesPlain hC trivial

theorem stringMethod_obeys (hw : w.Obeys C i) (m : Intrinsic) (s : Text) (args : List Value) :
    Reply.ObeysValue C E i (w.stringMethod m s args) := by
  unfold stringMethod
  split
  · split
    · exact hw.fails hC _
    · refine hw.newArray hC fun v hv => ?_
      obtain ⟨t, -, rfl⟩ := List.mem_map.mp hv
      exact hC.plain trivial
  · exact lift_data hC hw (stringResult_data _ _ _)

/-- Reading and writing files changes handles and the disk, and gives text. -/
theorem fileMethod_obeys (hw : w.Obeys C i) (m : Intrinsic) (id : Nat) (args : List Value) :
    Reply.ObeysValue C E i (w.fileMethod m id args) := by
  have hkept (h : FileHandle) (disk : Disk) {v : Value} (hv : v.Plain) :
      Reply.ObeysValue C E i ((w.keepHandle id h disk).give v) :=
    .give (hw.aside hC rfl (Nat.le_refl _)) le_rfl (hC.plain hv)
  have hfails (h : FileHandle) (disk : Disk) (c : ErrorCause) :
      Reply.ObeysValue C E i ((w.keepHandle id h disk).fail c) := by
    have hkeep : (w.keepHandle id h disk).Obeys C i := hw.aside hC rfl (Nat.le_refl _)
    exact .fail hC hkeep le_rfl c
  have hafter (h : FileHandle) (disk : Disk) :
      Reply.ObeysValue C E i ((w.keepHandle id h disk).afterWrite h) := by
    unfold afterWrite
    split
    · exact hfails _ _ _
    · exact hkept _ _ trivial
  have hwrite (t : Text) : Reply.ObeysValue C E i (w.writeText id t) := by
    unfold writeText
    dsimp only
    split
    · exact hw.fails hC _
    · exact hafter _ _
  have hline : Reply.ObeysValue C E i (w.readLine id) := by
    unfold readLine
    dsimp only
    split
    · exact hw.fails hC _
    · split
      · exact hfails _ _ _
      · split
        · exact hkept _ _ trivial
        · exact hkept _ _ trivial
  have hall : Reply.ObeysValue C E i (w.readAll id) := by
    unfold readAll
    dsimp only
    split
    · exact hw.fails hC _
    · split
      · exact hfails _ _ _
      · exact hkept _ _ trivial
  have hflush : Reply.ObeysValue C E i (w.flushFile id) := by
    unfold flushFile
    dsimp only
    split
    · exact hw.fails hC _
    · exact hafter _ _
  have hclose : (w.closeFile id).1.Obeys C i := by
    unfold closeFile
    dsimp only
    split
    · exact hw.aside hC rfl (Nat.le_refl _)
    · exact hw.aside hC rfl (Nat.le_refl _)
  unfold fileMethod
  split
  · exact hwrite _
  · exact hwrite _
  · exact hline
  · exact hall
  · exact hflush
  · split
    · next heq =>
      rw [heq] at hclose
      exact .fail hC hclose le_rfl _
    · next heq =>
      rw [heq] at hclose
      exact .give hclose le_rfl hC.null
  all_goals exact hw.givesPlain hC trivial

theorem method_obeys (hw : w.Obeys C i) (m : Intrinsic) (receiver : Value) {args : List Value}
    (ha : ∀ v ∈ args, C.value i v) :
    Reply.ObeysValue C E i (w.method p here m receiver args) := by
  unfold method
  split
  · exact arrayMethod_obeys hC hw _ _ ha
  · exact dictMethod_obeys hC hw _ _ ha
  · exact stringMethod_obeys hC hw _ _ _
  · unfold enumMethod
    split
    · exact hw.givesPlain hC trivial
    · exact hw.givesPlain hC trivial
  · exact fileMethod_obeys hC hw _ _ _
  · exact hw.givesPlain hC trivial

/-- What a deferred is settled with arrives later, in a world where only time has passed. -/
theorem await_obeys (hw : w.Obeys C i) {d : Option Deferred}
    (given : ∀ e ∈ d, ∀ v, e.answer? = some (.ok v) → C.value i v)
    (failed : ∀ e ∈ d, ∀ f, e.answer? = some (.error f) → E i f) :
    Reply.ObeysValue C E i (w.await d) := by
  have hwait (delay : Nat) : (w.wait delay).2.Obeys C i := by
    unfold wait
    repeat' split
    all_goals exact hw.aside hC rfl (Nat.le_refl _)
  unfold await
  split
  · exact hw.givesPlain hC trivial
  · next r =>
    cases r with
    | ok v => exact hw.gives (given _ rfl v rfl)
    | error f => exact .fault hw le_rfl (failed _ rfl f rfl)
  · next delay r =>
    have hw' := hwait delay
    generalize w.wait delay = waited at hw' ⊢
    obtain ⟨reason, w'⟩ := waited
    cases reason with
    | some reason => exact .fault hw' le_rfl (hC.stopped reason)
    | none =>
      cases r with
      | ok v => exact .give hw' le_rfl (given _ rfl v rfl)
      | error f => exact .fault hw' le_rfl (failed _ rfl f rfl)
  · exact .fault hw le_rfl (hC.stopped _)

theorem openFile_obeys (hw : w.Obeys C i) (bufferSize : Nat) (path mode : Text) :
    Reply.ObeysValue C E i (w.openFile bufferSize path mode) := by
  unfold openFile
  split
  · exact hw.fails hC _
  · split
    · exact hw.fails hC _
    · exact .give (hw.aside hC rfl (Nat.le_refl _)) le_rfl (hC.plain trivial)

theorem standard_obeys (hw : w.Obeys C i) (bufferSize : Nat) (f : StandardFunction)
    {args : List Value} (ha : ∀ v ∈ args, C.value i v) :
    Reply.ObeysValue C E i (w.standard bufferSize f args) := by
  unfold standard
  split
  · exact lift_data hC hw (.map fun _ => .int _)
  · exact hw.givesPlain hC trivial
  · exact hw.givesPlain hC trivial
  · exact lift_data hC hw (.map .int)
  · exact lift_data hC hw (.map .float)
  · exact lift_data hC hw (.map .decimal)
  · next kind message payload =>
    split
    · have hpayload : C.value i (payload.headD .null) := by
        cases payload with
        | nil => exact hC.null
        | cons v vs => exact ha v (by simp)
      exact .give (hw.newException hC hpayload) le_rfl (hC.plain trivial)
    · exact hw.fails hC _
  · next id => exact hw.gives (hC.ofClass (hw.object_cls hC (.inl (ha (.object id) (by simp)))))
  · next id => exact hw.gives (hC.ofClass (hw.object_cls hC (.inr (ha (.static id) (by simp)))))
  · exact hw.fails hC _
  · split
    · exact hw.fails hC _
    · split
      · exact hw.fails hC _
      · exact openFile_obeys hC hw _ _ _
  · exact .give (hw.aside hC rfl (Nat.le_refl _)) le_rfl (hC.plain trivial)
  · next v =>
    refine await_obeys hC hw (fun d hd u hu => ?_) fun d hd f hf => ?_
    · cases hd
      unfold sleeping at hu
      split at hu <;> cases hu
      exact hC.null
    · cases hd
      unfold sleeping at hf
      split at hf <;> cases hf
      exact hC.raised _
  · next v =>
    refine await_obeys hC hw (fun d hd u hu => ?_) fun d hd f hf => ?_
    · cases hd
      unfold reading readWhole at hu
      split at hu
      · split at hu <;> cases hu
        exact hC.plain trivial
      · cases hu
    · cases hd
      unfold reading readWhole at hf
      split at hf
      · split at hf <;> cases hf
        exact hC.raised _
      · cases hf
        exact hC.raised _
  · exact hw.givesPlain hC trivial

/-- The answer of a host function whose parts obey a condition. -/
theorem carryOut_obeys (hw : w.Obeys C i) {r : HostReply}
    (value : ∀ v, r.answer? = some (.ok v) → C.value i v)
    (failure : ∀ f, r.answer? = some (.error f) → E i f)
    (elems : ∀ vs, r = .newArray vs → ∀ v ∈ vs, C.value i v) :
    Reply.ObeysValue C E i (r.carryOut w) := by
  cases r with
  | value v => exact hw.gives (value v rfl)
  | newArray vs => exact hw.newArray hC (elems vs rfl)
  | failure f => exact .fault hw le_rfl (failure f rfl)
  | cancel => exact .give (hw.aside hC rfl (Nat.le_refl _)) le_rfl (hC.plain trivial)
  | wait d =>
    refine await_obeys hC hw (fun e he v hv => ?_) fun e he f hf => ?_
    · cases he
      exact value v hv
    · cases he
      exact failure f hf

end World

/-- The answer of a loop is made of what its callbacks gave. -/
def Gathered.Holds (P : Value → Prop) : Gathered → Prop
  | .mapped results => ∀ v ∈ results, P v
  | .filtered current kept => P current ∧ ∀ v ∈ kept, P v
  | .reduced acc => P acc

theorem Gathered.Holds.mono {P Q : Value → Prop} (hPQ : ∀ v, P v → Q v) {g : Gathered}
    (h : g.Holds P) : g.Holds Q := by
  cases g with
  | mapped results => exact fun v hv => hPQ v (h v hv)
  | filtered current kept => exact ⟨hPQ _ h.1, fun v hv => hPQ v (h.2 v hv)⟩
  | reduced acc => exact hPQ _ h

namespace Loop

variable {P : Value → Prop} {l : Loop}

/-- An answer of a callback changes only what a loop has gathered. -/
theorem absorb_with_gathered (l : Loop) (store : Store) (v : Value) :
    l.absorb store v = { l with gathered := (l.absorb store v).gathered } := by
  unfold absorb
  split <;> rfl

theorem absorb_gathered (h : l.gathered.Holds P) (store : Store) {v : Value} (hv : P v) :
    (l.absorb store v).gathered.Holds P := by
  unfold absorb
  split
  · next results heq =>
    rw [heq] at h
    intro u hu
    rcases List.mem_cons.mp hu with rfl | hu
    · exact hv
    · exact h u hu
  · next current kept heq =>
    rw [heq] at h
    refine ⟨h.1, fun u hu => ?_⟩
    split at hu
    · rcases List.mem_cons.mp hu with rfl | hu
      · exact h.1
      · exact h.2 u hu
    · exact h.2 u hu
  · exact hv

theorem take_with_gathered (l : Loop) (e : Value) (rest : List Value) :
    (l.take e rest).1 = { l with rest := rest, gathered := (l.take e rest).1.gathered } := by
  unfold take
  split <;> rfl

/-- The arguments of a callback are an element and, when reducing, what was gathered before. -/
theorem take_gathered (h : l.gathered.Holds P) {e : Value} (he : P e) (rest : List Value) :
    (l.take e rest).1.gathered.Holds P ∧ ∀ v ∈ (l.take e rest).2, P v := by
  have hone : ∀ v ∈ [e], P v := fun v hv => List.mem_singleton.mp hv ▸ he
  unfold take
  -- Only a filter keeps the element it asks about, and only a reduction gives what it has so far.
  split
  · exact ⟨h, hone⟩
  · next current kept heq =>
    rw [heq] at h
    exact ⟨⟨he, h.2⟩, hone⟩
  · next acc heq =>
    rw [heq] at h
    refine ⟨heq ▸ h, fun v hv => ?_⟩
    rcases List.mem_cons.mp hv with rfl | hv
    · exact h
    · exact hone v hv

end Loop

namespace Machine

/-- A loop is made of arguments of its call and elements of its receiver. -/
theorem loopOf?_holds {P : Value → Prop} {elems args : List Value} (null : P .null)
    (he : ∀ v ∈ elems, P v) (ha : ∀ v ∈ args, P v) {im : Intrinsic} {gathered : Gathered}
    {callee : Value} {rest : List Value}
    (h : loopOf? elems im args = some (.ok (gathered, callee, rest))) :
    gathered.Holds P ∧ P callee ∧ ∀ v ∈ rest, P v := by
  unfold loopOf? at h
  split at h
  · cases h
    exact ⟨fun v hv => absurd hv List.not_mem_nil, ha _ (by simp), he⟩
  · cases h
    exact ⟨⟨null, fun v hv => absurd hv List.not_mem_nil⟩, ha _ (by simp), he⟩
  · cases h
    exact ⟨ha _ (by simp), ha _ (by simp), he⟩
  · split at h
    · cases h
    · cases h
      exact ⟨he _ (by simp), ha _ (by simp), fun v hv => he v (List.mem_cons_of_mem _ hv)⟩
  · cases h

/-- The elements a method goes through are those of an array. -/
theorem elements_hold {P : Value → Prop} (h : ∀ id, ∀ v ∈ w.store.array id, P v)
    (receiver : Value) :
    ∀ v ∈ (match receiver with
      | .array id => w.store.array id
      | _ => [] : List Value), P v := by
  split
  · exact h _
  · exact fun v hv => absurd hv List.not_mem_nil

end Machine

/-- What has been gathered comes out as it is, or as a new array. -/
theorem Loop.result_obeys (hC : C.Stable p E) (hw : w.Obeys C i) {l : Loop}
    (hl : l.gathered.Holds (C.value i)) :
    (l.result w).2.Obeys C i ∧ C.value i (l.result w).1 := by
  have hnew {elems : List Value} (he : ∀ v ∈ elems, C.value i v) :
      World.Obeys C i { w with store := (w.store.newArray elems.reverse).2 } :=
    hw.with_store hC rfl rfl
      (hw.values.newArray fun v hv => he v (List.mem_reverse.mp hv))
  have harray (id : Nat) : C.value i (.array id) := hC.plain trivial
  unfold Loop.result
  split
  · next results hg =>
    rw [hg] at hl
    exact ⟨hnew hl, harray _⟩
  · next current kept hg =>
    rw [hg] at hl
    exact ⟨hnew hl.2, harray _⟩
  · next acc hg =>
    rw [hg] at hl
    exact ⟨hw, hl⟩

end BytecodeMachine
