import BytecodeMachine.Machine.Session
import BytecodeMachine.Proofs.Machine.Conditions

/-! Worlds without files in their values. Native code that is not about files or unique names
answers alike in such a world, whatever the disk, the handles and the count of unique names are, and
puts no file into it, nor a function from outside the program that is not there already. -/
namespace BytecodeMachine

variable {q : Builtin → Prop}

/-- What is left of a run for the next one: the files, and how many unique names there have been. -/
structure Remains where
  handles : Array FileHandle
  disk : Disk
  openFiles : List Nat
  uuids : Nat

/-- The functions that reach what outlives a run. -/
def StandardFunction.reachesOut : StandardFunction → Bool
  | openFile | uuid | readFileAsync => true
  | _ => false

/-- A value that is no file and, where it is a function from outside the program, one that `q` admits.
The same goes for its receiver. -/
def Value.Within (q : Builtin → Prop) : Value → Prop
  | .file _ => False
  | .builtin b => q b
  | .boundIntrinsic _ _ receiver | .boundMethod _ _ receiver => receiver.Within q
  | _ => True

/-- A failure that carries such a value, if any. -/
def Failure.Within (q : Builtin → Prop) : Failure → Prop
  | .raise _ v | .halt v => v.Within q
  | _ => True

theorem Failure.Within.named {f : Failure} (h : f.Within q) (name : Text) :
    (f.named name).Within q := by
  cases f with
  | output _ => exact trivial
  | host _ => exact trivial
  | _ => exact h

namespace Store

variable {st : Store}

theorem scalarText_of_within {v : Value} (hv : v.Within q) (handles : Array FileHandle)
    (quoted : Bool) :
    { st with handles := handles }.scalarText quoted v = st.scalarText quoted v := by
  cases v with
  | file id => exact hv.elim
  | builtin b => cases b <;> rfl
  | _ => rfl

/-- Handles show in the text of files only. -/
theorem renderIn_of_within (h : st.Holds (Value.Within q)) {v : Value} (hv : v.Within q)
    (handles : Array FileHandle) (depth : Nat) (path : List Container) (quoted : Bool) :
    { st with handles := handles }.renderIn depth path quoted v =
      st.renderIn depth path quoted v := by
  -- By how many containers can still be opened: what is in them is in the store, so it is no file.
  induction depth generalizing path quoted v with
  | zero => exact scalarText_of_within hv handles quoted
  | succ depth ih =>
    cases v with
    | array id =>
      have hinside : (st.array id).map
            ({ st with handles := handles }.renderIn depth (.array id :: path) true) =
          (st.array id).map (st.renderIn depth (.array id :: path) true) :=
        List.map_congr_left fun v hv => ih (h.array id v hv) _ _
      rw [renderIn, renderIn]
      split
      · rfl
      · exact congrArg (fun inside => ("[" : Text) ++ Text.join ", " inside ++ "]") hinside
    | dict id =>
      have hinside : (st.dict id).entries.toList.map (fun e =>
            { st with handles := handles }.renderIn depth (.dict id :: path) true e.1 ++
              (": " : Text) ++
              { st with handles := handles }.renderIn depth (.dict id :: path) true e.2) =
          (st.dict id).entries.toList.map (fun e =>
            st.renderIn depth (.dict id :: path) true e.1 ++ (": " : Text) ++
              st.renderIn depth (.dict id :: path) true e.2) := by
        refine List.map_congr_left fun e he => ?_
        have hentry := h.dict id e (Array.mem_toList_iff.mp he)
        rw [ih hentry.1, ih hentry.2]
      rw [renderIn, renderIn]
      split
      · rfl
      · exact congrArg (fun inside => ("\x7b" : Text) ++ Text.join ", " inside ++ "\x7d") hinside
    | file id => exact hv.elim
    | _ => exact @scalarText_of_within q st _ hv handles quoted

theorem text_of_within (h : st.Holds (Value.Within q)) {v : Value} (hv : v.Within q)
    (handles : Array FileHandle) : { st with handles := handles }.text v = st.text v :=
  renderIn_of_within h hv handles _ _ _

end Store

namespace World

def remains (w : World) : Remains := ⟨w.store.handles, w.disk, w.openFiles, w.uuids⟩

/-- A world with the remains of other runs in place of its own. -/
def beside (x : Remains) (w : World) : World :=
  { w with
    store := { w.store with handles := x.handles }
    disk := x.disk
    openFiles := x.openFiles
    uuids := x.uuids }

/-- All values of a world are such ones. -/
def Within (q : Builtin → Prop) (w : World) : Prop := w.store.Holds (Value.Within q)

section Fields

variable (x : Remains) (w : World)

@[simp] theorem beside_closures : (w.beside x).closures = w.closures := rfl

@[simp] theorem beside_statics : (w.beside x).statics = w.statics := rfl

@[simp] theorem beside_array (id : Nat) : (w.beside x).store.array id = w.store.array id := rfl

@[simp] theorem beside_dict (id : Nat) : (w.beside x).store.dict id = w.store.dict id := rfl

@[simp] theorem beside_object (id : Nat) : (w.beside x).store.object id = w.store.object id := rfl

@[simp] theorem beside_exception (id : Nat) :
    (w.beside x).store.exception id = w.store.exception id := rfl

@[simp] theorem beside_truthy (v : Value) : (w.beside x).store.truthy v = w.store.truthy v := by
  cases v <;> rfl

end Fields

theorem beside_text {x : Remains} {w : World} (hw : w.Within q) {v : Value} (hv : v.Within q) :
    (w.beside x).text v = w.text v := Store.text_of_within hw hv x.handles

end World

/-- Two answers, of which the second is given beside other remains: they are the same, and there is
no file in them or in the world they leave. -/
inductive Reply.Beside {α : Type} (q : Builtin → Prop) (x : Remains) (Q : α → Prop) :
    Reply α → Reply α → Prop
  | give {w : World} {a : α} (world : w.Within q) (given : Q a) :
      Beside q x Q (.ok a, w) (.ok a, w.beside x)
  | fault {w : World} {f : Failure} (world : w.Within q) (failed : f.Within q) :
      Beside q x Q (.error f, w) (.error f, w.beside x)

theorem Reply.Beside.given {α : Type} {x : Remains} {Q : α → Prop} {r r' : Reply α}
    (h : Reply.Beside q x Q r r') {a : α} (ha : r.1.toOption = some a) : Q a := by
  cases h with
  | give _ given =>
    cases ha
    exact given
  | fault _ _ => cases ha

abbrev Reply.BesideValue (q : Builtin → Prop) (x : Remains) (r r' : Reply Value) : Prop :=
  Reply.Beside q x (Value.Within q) r r'

abbrev Reply.BesideUnit (q : Builtin → Prop) (x : Remains) (r r' : Reply Unit) : Prop :=
  Reply.Beside q x (fun _ => True) r r'

theorem Value.Data.within {v : Value} (h : v.Data) : v.Within q := by
  cases h <;> exact trivial

theorem Yields.within {ε : Type} {r : Except ε Value} (h : Yields Value.Data r) :
    Yields (Value.Within q) r := h.mono fun _ hv => hv.within

namespace World

variable {x : Remains} {p : Program} {here : Place} {w : World}

theorem give_beside {α : Type} {Q : α → Prop} (hw : w.Within q) {a : α} (ha : Q a) :
    Reply.Beside q x Q (w.give a) ((w.beside x).give a) := .give hw ha

/-- An exception raised by native code carries null. -/
theorem fail_beside {α : Type} {Q : α → Prop} (hw : w.Within q) (c : ErrorCause) :
    Reply.Beside q x Q (w.fail c) ((w.beside x).fail c) := .fault hw trivial

theorem lift_beside {α : Type} {Q : α → Prop} (hw : w.Within q) {r : Except ErrorCause α}
    (hr : Yields Q r) : Reply.Beside q x Q (w.lift r) ((w.beside x).lift r) := by
  cases r with
  | ok a => exact .give hw (hr a rfl)
  | error e => exact fail_beside hw e

theorem newArray_beside (hw : w.Within q) {elems : List Value} (he : ∀ v ∈ elems, v.Within q) :
    Reply.BesideValue q x (w.newArray elems) ((w.beside x).newArray elems) := by
  have hnew : Within q { w with store := (w.store.newArray elems).2 } := Store.Holds.newArray hw he
  exact .give hnew trivial

theorem functionClosure_beside (hw : w.Within q) (name : Text) :
    Reply.Beside q x (fun _ => True) (w.functionClosure p here name)
      ((w.beside x).functionClosure p here name) := by
  unfold functionClosure
  rw [beside_closures]
  split
  · exact give_beside hw trivial
  · split
    · exact .fault hw trivial
    · next fn _ =>
      -- The new closure gets the next number of the store, which both worlds share.
      let c : Closure :=
        { ref := w.store.refs, name := fn.name, entry := fn.address.toInt, params := fn.params
          scope := globals }
      have hnew : Within q { w.newRef.2 with closures := (name, c) :: w.closures } := { hw with }
      exact .give hnew trivial

theorem staticObject_beside (hw : w.Within q) (key : Text) :
    (w.beside x).staticObject p key =
        ((w.staticObject p key).1, (w.staticObject p key).2.beside x) ∧
      (w.staticObject p key).2.Within q := by
  unfold staticObject
  rw [beside_statics]
  split
  · exact ⟨rfl, hw⟩
  · exact ⟨rfl, Store.Holds.newObject hw _⟩

theorem newRef_within (hw : w.Within q) : w.newRef.2.Within q := { hw with }

theorem bindMethod_beside (hw : w.Within q) (function : Text) {receiver : Value}
    (hr : receiver.Within q) :
    Reply.BesideValue q x (w.bindMethod p here function receiver)
      ((w.beside x).bindMethod p here function receiver) := by
  have hc : Reply.Beside q x (fun _ => True) (w.functionClosure p here function) _ :=
    functionClosure_beside hw function
  unfold bindMethod
  generalize w.functionClosure p here function = r,
    (w.beside x).functionClosure p here function = r' at hc ⊢
  cases hc with
  | give hw' _ => exact .give (newRef_within hw') hr
  | fault hw' hf => exact .fault hw' hf

theorem bindIntrinsic_beside (hw : w.Within q) (m : Intrinsic) {receiver : Value}
    (hr : receiver.Within q) :
    Reply.BesideValue q x (w.bindIntrinsic m receiver) ((w.beside x).bindIntrinsic m receiver) :=
  .give (newRef_within hw) hr

theorem field_within (hw : w.Within q) (id : Nat) (name : Text) :
    (w.store.field id name).Within q := Store.Holds.field hw trivial id name

theorem staticMember_beside (hw : w.Within q) (key name : Text) :
    Reply.BesideValue q x (w.staticMember p here key name)
      ((w.beside x).staticMember p here key name) := by
  unfold staticMember
  split
  · next owner _ =>
    obtain ⟨heq, hobject⟩ := @staticObject_beside q x p w hw owner
    rw [heq]
    exact give_beside hobject (field_within hobject _ _)
  · next owner fn _ =>
    have hc : Reply.Beside q x (fun _ => True) (w.functionClosure p here fn) _ :=
      functionClosure_beside hw fn
    generalize w.functionClosure p here fn = r, (w.beside x).functionClosure p here fn = r' at hc ⊢
    cases hc with
    | fault hw' hf => exact .fault hw' hf
    | @give w' _ hw' _ =>
      obtain ⟨heq, hobject⟩ := @staticObject_beside q x p w' hw' owner
      dsimp only
      rw [heq]
      exact give_beside (newRef_within hobject) trivial
  · exact fail_beside hw _
  · exact fail_beside hw _

theorem setField_within (hw : w.Within q) (id : Nat) (name : Text) {v : Value} (hv : v.Within q) :
    Within q { w with store := w.store.setField id name v } := Store.Holds.setField hw id name hv

/-- Setting a static field makes its object where there is none yet. -/
theorem setStaticField_beside (hw : w.Within q) (owner name : Text) {v : Value} (hv : v.Within q) :
    let r (w : World) : Reply Unit :=
      (.ok (), { (w.staticObject p owner).2 with
        store := (w.staticObject p owner).2.store.setField (w.staticObject p owner).1 name v })
    Reply.BesideUnit q x (r w) (r (w.beside x)) := by
  obtain ⟨heq, hobject⟩ := @staticObject_beside q x p w hw owner
  dsimp only
  rw [heq]
  exact .give (setField_within hobject _ name hv) trivial

theorem setStaticMember_beside (hw : w.Within q) (key name : Text) {v : Value} (hv : v.Within q) :
    Reply.BesideUnit q x (w.setStaticMember p key name v)
      ((w.beside x).setStaticMember p key name v) := by
  unfold setStaticMember
  split
  · exact setStaticField_beside hw _ name hv
  all_goals exact fail_beside hw _

theorem instanceMember_beside (hw : w.Within q) (id : Nat) (name : Text) :
    Reply.BesideValue q x (w.instanceMember p here id name)
      ((w.beside x).instanceMember p here id name) := by
  unfold instanceMember
  rw [beside_object]
  dsimp only
  split
  · exact give_beside hw (field_within hw id name)
  · exact bindMethod_beside hw _ trivial
  · exact staticMember_beside hw _ _
  · exact fail_beside hw _

theorem setInstanceMember_beside (hw : w.Within q) (id : Nat) (name : Text) {v : Value}
    (hv : v.Within q) :
    Reply.BesideUnit q x (w.setInstanceMember p id name v)
      ((w.beside x).setInstanceMember p id name v) := by
  unfold setInstanceMember
  rw [beside_object]
  dsimp only
  split
  · exact .give (setField_within hw id name hv) trivial
  · exact setStaticField_beside hw _ name hv
  all_goals exact fail_beside hw _

theorem typeMember_beside (hw : w.Within q) (t : TypeRef) (name : Text) :
    Reply.BesideValue q x (w.typeMember p here t name) ((w.beside x).typeMember p here t name) := by
  unfold typeMember
  split
  · exact staticMember_beside hw _ _
  · unfold enumMember
    split
    · exact give_beside hw trivial
    · exact fail_beside hw _
  · split
    · exact give_beside hw trivial
    · exact fail_beside hw _

theorem entry_within (hw : w.Within q) (id : Nat) (key : Value) :
    (((w.store.dict id).get? key).getD .null).Within q := by
  cases hv : (w.store.dict id).get? key with
  | none => exact trivial
  | some v => exact (Store.Holds.dict hw id).get? hv

theorem loadMember_beside (hw : w.Within q) {receiver : Value} (hr : receiver.Within q)
    (name : Text) :
    Reply.BesideValue q x (w.loadMember p here receiver name)
      ((w.beside x).loadMember p here receiver name) := by
  unfold loadMember
  split
  · exact instanceMember_beside hw _ _
  · exact staticMember_beside hw _ _
  · exact staticMember_beside hw _ _
  · exact typeMember_beside hw _ _
  · next id =>
    rw [beside_exception]
    split
    · next v hv =>
      refine give_beside hw ?_
      unfold exceptionMember? at hv
      split_ifs at hv <;> cases hv
      all_goals first | exact trivial | exact Store.Holds.payload hw trivial id
    · exact fail_beside hw _
  · next id =>
    split
    · exact bindIntrinsic_beside hw _ hr
    · exact give_beside hw (entry_within hw id _)
  · split
    · exact bindIntrinsic_beside hw _ hr
    · exact fail_beside hw _

theorem insert_within (hw : w.Within q) (id : Nat) {key v : Value} (hk : key.Within q)
    (hv : v.Within q) :
    Within q { w with store := w.store.modifyDict id fun d => d.insert key v } :=
  Store.Holds.modifyDict hw id fun _ hd => hd.insert hk hv

theorem storeMember_beside (hw : w.Within q) (receiver : Value) (name : Text) {v : Value}
    (hv : v.Within q) :
    Reply.BesideUnit q x (w.storeMember p receiver name v)
      ((w.beside x).storeMember p receiver name v) := by
  unfold storeMember
  split
  · exact setInstanceMember_beside hw _ _ hv
  · exact setStaticMember_beside hw _ _ hv
  · exact setStaticMember_beside hw _ _ hv
  · split
    · exact setStaticMember_beside hw _ _ hv
    · exact fail_beside hw _
  · next id =>
    have hkey : Value.Within q (.string name) := trivial
    exact .give (insert_within hw id hkey hv) trivial
  · exact fail_beside hw _

theorem indexGet_beside (hw : w.Within q) {obj : Value} (hobj : obj.Within q) (idx : Value) :
    Reply.BesideValue q x (w.indexGet p here obj idx) ((w.beside x).indexGet p here obj idx) := by
  unfold indexGet
  split
  · next id =>
    have hmem (i : Int) : Yields (Value.Within q) (elementAt (w.store.array id) i) := fun v hv =>
      Store.Holds.array hw id v (elementAt_mem hv)
    exact lift_beside hw (.bind hmem)
  · exact lift_beside hw (.bind fun _ => .map fun _ => trivial)
  · exact give_beside hw (entry_within hw _ _)
  iterate 4
    · split
      · exact loadMember_beside hw hobj _
      · exact fail_beside hw _
  · exact fail_beside hw _

theorem indexSet_beside (hw : w.Within q) (obj : Value) {idx v : Value} (hidx : idx.Within q)
    (hv : v.Within q) :
    Reply.BesideUnit q x (w.indexSet p obj idx v) ((w.beside x).indexSet p obj idx v) := by
  unfold indexSet
  split
  · next id =>
    rw [beside_array]
    split
    · next i _ =>
      have hset : ∀ u ∈ (w.store.array id).set i v, u.Within q := by
        intro u hu
        rcases List.mem_or_eq_of_mem_set hu with hu | rfl
        · exact Store.Holds.array hw id u hu
        · exact hv
      have hnew : Within q
          { w with store := w.store.setArray id ((w.store.array id).set i v) } :=
        Store.Holds.setArray hw id hset
      exact .give hnew trivial
    · exact fail_beside hw _
  · exact .give (insert_within hw _ hidx hv) trivial
  · exact fail_beside hw _
  iterate 4
    · split
      · exact storeMember_beside hw _ _ hv
      · exact fail_beside hw _
  · exact fail_beside hw _

theorem sliceGet_beside (hw : w.Within q) (obj start stop : Value) :
    Reply.BesideValue q x (w.sliceGet obj start stop) ((w.beside x).sliceGet obj start stop) := by
  unfold sliceGet
  split
  · next id =>
    rw [beside_array]
    dsimp only
    split
    · exact fail_beside hw _
    · exact newArray_beside hw fun v hv => Store.Holds.array hw id v (mem_of_mem_slice hv)
  · dsimp only
    split
    · exact fail_beside hw _
    · exact give_beside hw trivial
  · exact fail_beside hw _

/-- Every method of an array takes elements out, or puts arguments in. -/
theorem arrayMethod_beside (hw : w.Within q) (m : Intrinsic) (id : Nat) {args : List Value}
    (ha : ∀ v ∈ args, v.Within q) :
    Reply.BesideValue q x (w.arrayMethod p here m id args)
      ((w.beside x).arrayMethod p here m id args) := by
  have helems : ∀ v ∈ w.store.array id, v.Within q := Store.Holds.array hw id
  have hput {xs : List Value} (hxs : ∀ v ∈ xs, v.Within q) {v : Value} (hv : v.Within q) :
      Reply.BesideValue q x (({ w with store := w.store.setArray id xs } : World).give v)
        (({ w.beside x with store := (w.beside x).store.setArray id xs } : World).give v) := by
    have hnew : Within q { w with store := w.store.setArray id xs } :=
      Store.Holds.setArray hw id hxs
    exact give_beside hnew hv
  unfold arrayMethod
  rw [beside_array]
  dsimp only
  split
  · refine hput (fun v hv => ?_) trivial
    rcases List.mem_append.mp hv with hv | hv
    · exact helems v hv
    · exact ha v hv
  · split
    · next v hv =>
      exact hput (fun u hu => helems u (List.dropLast_subset _ hu))
        (helems v (List.mem_of_getLast? hv))
    · exact fail_beside hw _
  · exact give_beside hw trivial
  · have hobj : Value.Within q (.array id) := trivial
    exact indexGet_beside hw hobj _
  · next i v =>
    split
    · exact fail_beside hw _
    · split
      · exact fail_beside hw _
      · refine hput (fun u hu => ?_) trivial
        rcases List.mem_append.mp hu with hu | hu
        · exact helems u (List.mem_of_mem_take hu)
        · rcases List.mem_cons.mp hu with rfl | hu
          · exact ha u (by simp)
          · exact helems u (List.mem_of_mem_drop hu)
  · split
    · exact fail_beside hw _
    · split
      · exact fail_beside hw _
      · next v hv =>
        exact hput (fun u hu => helems u (List.mem_of_mem_eraseIdx hu))
          (helems v (elementAt_mem hv))
  · exact give_beside hw trivial
  · exact give_beside hw trivial
  · split
    · exact fail_beside hw _
    · -- The text of an element shows no handle.
      have htexts : (w.store.array id).map (w.beside x).text = (w.store.array id).map w.text :=
        List.map_congr_left fun v hv => beside_text hw (helems v hv)
      rw [htexts]
      exact give_beside hw trivial
  · exact sliceGet_beside hw _ _ _
  · exact hput (fun u hu => helems u (List.mem_reverse.mp hu)) trivial
  · exact give_beside hw trivial

theorem dictMethod_beside (hw : w.Within q) (m : Intrinsic) (id : Nat) {args : List Value}
    (ha : ∀ v ∈ args, v.Within q) :
    Reply.BesideValue q x (w.dictMethod m id args) ((w.beside x).dictMethod m id args) := by
  have hdict : (w.store.dict id).Holds (Value.Within q) := Store.Holds.dict hw id
  unfold dictMethod
  rw [beside_dict]
  dsimp only
  split
  · next key missing =>
    refine give_beside hw ?_
    cases hv : (w.store.dict id).get? key with
    | some v => exact hdict.get? hv
    | none =>
      cases missing with
      | nil => exact trivial
      | cons v vs => exact ha v (by simp)
  · next key v => exact .give (insert_within hw id (ha key (by simp)) (ha v (by simp))) trivial
  · exact give_beside hw trivial
  · next key =>
    split
    · next v d he =>
      obtain ⟨hv, hd⟩ := hdict.erase he
      have hnew : Within q { w with store := w.store.modifyDict id fun _ => d } :=
        Store.Holds.modifyDict hw id fun _ _ => hd
      exact .give hnew hv
    · exact give_beside hw trivial
  · exact newArray_beside hw hdict.keys
  · exact newArray_beside hw hdict.values
  · exact give_beside hw trivial
  · exact give_beside hw trivial

theorem stringMethod_beside (hw : w.Within q) (m : Intrinsic) (s : Text) (args : List Value) :
    Reply.BesideValue q x (w.stringMethod m s args) ((w.beside x).stringMethod m s args) := by
  unfold stringMethod
  split
  · split
    · exact fail_beside hw _
    · refine newArray_beside hw fun v hv => ?_
      obtain ⟨t, -, rfl⟩ := List.mem_map.mp hv
      exact trivial
  · exact lift_beside hw (stringResult_data _ _ _).within

/-- Methods of files are not reached without a file as their receiver. -/
theorem method_beside (hw : w.Within q) (m : Intrinsic) {receiver : Value} (hr : receiver.Within q)
    {args : List Value} (ha : ∀ v ∈ args, v.Within q) :
    Reply.BesideValue q x (w.method p here m receiver args)
      ((w.beside x).method p here m receiver args) := by
  unfold method
  split
  · exact arrayMethod_beside hw _ _ ha
  · exact dictMethod_beside hw _ _ ha
  · exact stringMethod_beside hw _ _ _
  · unfold enumMethod
    split
    · exact give_beside hw trivial
    · exact give_beside hw trivial
  · exact hr.elim
  · exact give_beside hw trivial

/-- A wait takes as long beside other remains, and is settled with the same. -/
theorem await_beside (hw : w.Within q) {d : Option Deferred}
    (given : ∀ e ∈ d, ∀ v, e.answer? = some (.ok v) → v.Within q)
    (failed : ∀ e ∈ d, ∀ f, e.answer? = some (.error f) → f.Within q) :
    Reply.BesideValue q x (w.await d) ((w.beside x).await d) := by
  have hwait (delay : Nat) :
      (w.beside x).wait delay = ((w.wait delay).1, (w.wait delay).2.beside x) ∧
        (w.wait delay).2.Within q := by
    -- Neither the clock nor what stops a run is among the remains.
    have hstop : (w.beside x).stop? = w.stop? := rfl
    have hdeadline : (w.beside x).deadline = w.deadline := rfl
    have hclock : (w.beside x).clock = w.clock := rfl
    unfold wait
    rw [hstop, hdeadline, hclock]
    repeat' split
    all_goals exact ⟨rfl, hw⟩
  unfold await
  split
  · exact give_beside hw trivial
  · next r =>
    cases r with
    | ok v => exact .give hw (given _ rfl v rfl)
    | error f => exact .fault hw (failed _ rfl f rfl)
  · next delay r =>
    obtain ⟨heq, hw'⟩ := hwait delay
    rw [heq]
    generalize w.wait delay = waited at hw' ⊢
    obtain ⟨reason, w'⟩ := waited
    cases reason with
    | some reason => exact .fault hw' trivial
    | none =>
      cases r with
      | ok v => exact .give hw' (given _ rfl v rfl)
      | error f => exact .fault hw' (failed _ rfl f rfl)
  · exact .fault hw trivial

theorem toInt_beside (v : Value) : (w.beside x).toInt v = w.toInt v := by
  unfold toInt
  split <;> rfl

/-- A standard function that reaches no file and no unique name answers alike. -/
theorem standard_beside (hw : w.Within q) (bufferSize : Nat) {f : StandardFunction}
    (inside : f.reachesOut = false) {args : List Value} (ha : ∀ v ∈ args, v.Within q) :
    Reply.BesideValue q x (w.standard bufferSize f args)
      ((w.beside x).standard bufferSize f args) := by
  have hnumber {α : Type} {g : α → Value} {r : Except ErrorCause α} (hg : ∀ a, (g a).Within q) :
      Reply.BesideValue q x (w.lift (r.map g)) ((w.beside x).lift (r.map g)) :=
    lift_beside hw (.map hg)
  unfold standard
  split
  · next v =>
    have hlength : (w.beside x).length v = w.length v := by cases v <;> rfl
    rw [hlength]
    exact hnumber fun _ => trivial
  · exact give_beside hw trivial
  · next v =>
    rw [beside_text hw (ha v (by simp))]
    exact give_beside hw trivial
  · rw [toInt_beside]
    exact hnumber fun _ => trivial
  · exact hnumber fun _ => trivial
  · exact hnumber fun _ => trivial
  · next kind message payload =>
    split
    · have hpayload : (payload.headD .null).Within q := by
        cases payload with
        | nil => exact trivial
        | cons v vs => exact ha v (by simp)
      rw [beside_text hw (ha message (by simp))]
      next k _ =>
      let e : Exception :=
        { kind := k, message := w.text message, payload := payload.headD .null }
      have hnew : Within q { w with store := (w.store.newException e).2 } :=
        Store.Holds.newException hw hpayload
      exact .give hnew trivial
    · exact fail_beside hw _
  · exact give_beside hw trivial
  · exact give_beside hw trivial
  · exact fail_beside hw _
  -- Files that are opened and unique names reach out, and so do files that are read while waiting.
  · cases inside
  · cases inside
  · next v =>
    refine await_beside hw (fun d hd u hu => ?_) fun d hd f hf => ?_
    · cases hd
      unfold sleeping at hu
      split at hu <;> cases hu
      exact trivial
    · cases hd
      unfold sleeping at hf
      split at hf <;> cases hf
      exact trivial
  · cases inside
  · exact give_beside hw trivial

end World

/-- The answer of a host that holds no file. -/
structure HostReply.Within (q : Builtin → Prop) (r : HostReply) : Prop where
  value : ∀ v, r.answer? = some (.ok v) → v.Within q
  failure : ∀ f, r.answer? = some (.error f) → f.Within q
  elems : ∀ vs, r = .newArray vs → ∀ v ∈ vs, v.Within q

theorem HostReply.carryOut_beside {x : Remains} {w : World} (hw : w.Within q) {r : HostReply}
    (hr : r.Within q) : Reply.BesideValue q x (r.carryOut w) (r.carryOut (w.beside x)) := by
  cases r with
  | value v => exact .give hw (hr.value v rfl)
  | newArray vs => exact World.newArray_beside hw (hr.elems vs rfl)
  | failure f => exact .fault hw (hr.failure f rfl)
  | cancel =>
    have hnew : World.Within q { w with cancelled := true } := hw
    exact .give hnew trivial
  | wait d =>
    refine World.await_beside hw (fun e he v hv => ?_) fun e he f hf => ?_
    · cases he
      exact hr.value v hv
    · cases he
      exact hr.failure f hf

structure Loop.Within (q : Builtin → Prop) (l : Loop) : Prop where
  callee : l.callee.Within q
  rest : ∀ v ∈ l.rest, v.Within q
  gathered : l.gathered.Holds (Value.Within q)

namespace Loop

variable {l : Loop}

theorem Within.absorb (h : l.Within q) (store : Store) {v : Value} (hv : v.Within q) :
    (l.absorb store v).Within q := by
  rw [absorb_with_gathered]
  exact { h with gathered := absorb_gathered h.gathered store hv }

theorem absorb_beside (x : Remains) (l : Loop) (w : World) (v : Value) :
    l.absorb (w.beside x).store v = l.absorb w.store v := by
  unfold absorb
  rw [World.beside_truthy]

theorem Within.take (h : l.Within q) {e : Value} {rest : List Value} (he : e.Within q)
    (hrest : ∀ v ∈ rest, v.Within q) :
    (l.take e rest).1.Within q ∧ ∀ v ∈ (l.take e rest).2, v.Within q := by
  obtain ⟨hgathered, hargs⟩ := take_gathered h.gathered he rest
  rw [take_with_gathered]
  exact ⟨{ h with rest := hrest, gathered := hgathered }, hargs⟩

theorem result_beside {x : Remains} {w : World} (hw : w.Within q) (hl : l.Within q) :
    l.result (w.beside x) = ((l.result w).1, (l.result w).2.beside x) ∧
      (l.result w).2.Within q ∧ (l.result w).1.Within q := by
  have hnew {elems : List Value} (he : ∀ v ∈ elems, v.Within q) :
      World.Within q { w with store := (w.store.newArray elems.reverse).2 } :=
    Store.Holds.newArray hw fun v hv => he v (List.mem_reverse.mp hv)
  have hg := hl.gathered
  unfold Loop.result
  split
  · next results heq =>
    rw [heq] at hg
    exact ⟨rfl, hnew hg, trivial⟩
  · next current kept heq =>
    rw [heq] at hg
    exact ⟨rfl, hnew hg.2, trivial⟩
  · next acc heq =>
    rw [heq] at hg
    exact ⟨rfl, hw, hg⟩

end Loop

end BytecodeMachine
