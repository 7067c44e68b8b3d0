import BytecodeMachine.Machine.Run
import Mathlib.Logic.Relation

/-! Native code works on the store, the disk and the open files. It enters no scope, changes no
variable and prints nothing, whatever it is called with. To the objects, the static objects and the
clock it does a few things only, of which setting a field is kept for the functions that store. -/
namespace BytecodeMachine

namespace World

/-- The objects, and what decides whether a run is stopped. -/
def lasting (w : World) : Array Object × List (Text × Nat) × Bool × Nat × Option Nat :=
  (w.store.objects, w.statics, w.cancelled, w.clock, w.deadline)

/-- One change of the objects, the static objects, the clock or the cancellation. `writes` says
whether fields may be set. -/
inductive Edit (p : Program) (writes : Bool) : World → World → Prop
  | aside {w w' : World} (same : w'.lasting = w.lasting) : Edit p writes w w'
  | object (w : World) (key : Text) :
      Edit p writes w { w with store := (w.store.newObject (p.classRef key)).2 }
  | static (w : World) (key : Text) (new : w.statics.lookup key = none) :
      Edit p writes w (w.staticObject p key).2
  | field (w : World) (id : Nat) (name : Text) (v : Value) (may : writes = true) :
      Edit p writes w { w with store := w.store.setField id name v }
  | elapse (w : World) (time : Nat) (later : w.clock ≤ time) : Edit p writes w { w with clock := time }
  | cancel (w : World) : Edit p writes w { w with cancelled := true }

abbrev Edits (p : Program) (writes : Bool) : World → World → Prop :=
  Relation.ReflTransGen (Edit p writes)

/-- What native code makes of a world: it has the same scopes and the same printed text. -/
structure Works (p : Program) (writes : Bool) (w w' : World) : Prop where
  edits : Edits p writes w w'
  scopes : w'.store.scopes = w.store.scopes
  output : w'.output = w.output

/-- All that neither the scopes nor the output nor an edit touches. -/
def kept (w : World) : (Array Object × List (Text × Nat) × Bool × Nat × Option Nat) × Scopes × Output :=
  (w.lasting, w.store.scopes, w.output)

variable {p : Program} {writes : Bool} {here : Place}

theorem Works.refl (w : World) : w.Works p writes w := ⟨.refl, rfl, rfl⟩

theorem Works.trans {w w' w'' : World} (h : w.Works p writes w') (h' : w'.Works p writes w'') :
    w.Works p writes w'' :=
  ⟨h.edits.trans h'.edits, h'.scopes.trans h.scopes, h'.output.trans h.output⟩

theorem Works.aside {w w' : World} (same : w'.kept = w.kept) : w.Works p writes w' := by
  simp only [kept, Prod.mk.injEq] at same
  exact ⟨.single (.aside same.1), same.2.1, same.2.2⟩

/-- An answer that leaves the world as it is. -/
theorem lift_works {α : Type} (w : World) (r : Except ErrorCause α) : w.Works p writes (w.lift r).2 := by
  cases r <;> exact .refl w

theorem functionClosure_works (w : World) (name : Text) :
    w.Works p writes (w.functionClosure p here name).2 := by
  unfold functionClosure
  split
  · exact .refl w
  · split
    · exact .refl w
    · exact .aside rfl

theorem staticObject_of_lookup {w : World} {key : Text} {id : Nat}
    (h : w.statics.lookup key = some id) : w.staticObject p key = (id, w) := by
  unfold staticObject
  rw [h]

theorem staticObject_of_none {w : World} {key : Text} (h : w.statics.lookup key = none) :
    w.staticObject p key =
      (w.store.objects.size,
        { w with
          store := (w.store.newObject (p.classRef key)).2
          statics := (key, w.store.objects.size) :: w.statics }) := by
  unfold staticObject
  rw [h]
  rfl

theorem staticObject_works (w : World) (key : Text) : w.Works p writes (w.staticObject p key).2 := by
  cases h : w.statics.lookup key with
  | some id =>
    rw [staticObject_of_lookup h]
    exact .refl w
  | none =>
    have hedit : Edit p writes w _ := .static w key h
    rw [staticObject_of_none h] at hedit ⊢
    exact ⟨.single hedit, rfl, rfl⟩

theorem newObject_works (w : World) (key : Text) :
    w.Works p writes { w with store := (w.store.newObject (p.classRef key)).2 } :=
  ⟨.single (.object w key), rfl, rfl⟩

theorem setField_works (w : World) (id : Nat) (name : Text) (v : Value) :
    w.Works p true { w with store := w.store.setField id name v } :=
  ⟨.single (.field w id name v rfl), rfl, rfl⟩

theorem bindMethod_works (w : World) (function : Text) (receiver : Value) :
    w.Works p writes (w.bindMethod p here function receiver).2 := by
  have hc : w.Works p writes (w.functionClosure p here function).2 := functionClosure_works w _
  unfold bindMethod
  split
  · next heq =>
    rw [heq] at hc
    exact hc
  · next heq =>
    rw [heq] at hc
    exact hc.trans (.aside rfl)

theorem staticMember_works (w : World) (key name : Text) :
    w.Works p writes (w.staticMember p here key name).2 := by
  unfold staticMember
  split
  · exact staticObject_works w _
  · next owner fn _ =>
    have hc : w.Works p writes (w.functionClosure p here fn).2 := functionClosure_works w fn
    split
    · next heq =>
      rw [heq] at hc
      exact hc
    · next w' heq =>
      rw [heq] at hc
      exact (hc.trans (staticObject_works w' owner)).trans (.aside rfl)
  · exact .refl w
  · exact .refl w

theorem setStaticMember_works (w : World) (key name : Text) (v : Value) :
    w.Works p true (w.setStaticMember p key name v).2 := by
  unfold setStaticMember
  split
  · exact (staticObject_works w _).trans (setField_works _ _ name v)
  all_goals exact .refl w

theorem instanceMember_works (w : World) (id : Nat) (name : Text) :
    w.Works p writes (w.instanceMember p here id name).2 := by
  unfold instanceMember
  dsimp only
  split
  · exact .refl w
  · exact bindMethod_works w _ _
  · exact staticMember_works w _ _
  · exact .refl w

theorem setInstanceMember_works (w : World) (id : Nat) (name : Text) (v : Value) :
    w.Works p true (w.setInstanceMember p id name v).2 := by
  unfold setInstanceMember
  dsimp only
  split
  · exact setField_works w id name v
  · exact (staticObject_works w _).trans (setField_works _ _ name v)
  all_goals exact .refl w

theorem typeMember_works (w : World) (t : TypeRef) (name : Text) :
    w.Works p writes (w.typeMember p here t name).2 := by
  unfold typeMember
  split
  · exact staticMember_works w _ _
  · unfold enumMember
    split <;> exact .refl w
  · split <;> exact .refl w

theorem loadMember_works (w : World) (receiver : Value) (name : Text) :
    w.Works p writes (w.loadMember p here receiver name).2 := by
  unfold loadMember
  split
  · exact instanceMember_works w _ _
  · exact staticMember_works w _ _
  · exact staticMember_works w _ _
  · exact typeMember_works w _ _
  all_goals split
  all_goals exact .aside rfl

theorem storeMember_works (w : World) (receiver : Value) (name : Text) (v : Value) :
    w.Works p true (w.storeMember p receiver name v).2 := by
  unfold storeMember
  split
  · exact setInstanceMember_works w _ _ _
  · exact setStaticMember_works w _ _ _
  · exact setStaticMember_works w _ _ _
  · split
    · exact setStaticMember_works w _ _ _
    · exact .refl w
  all_goals exact .aside rfl

theorem indexGet_works (w : World) (obj idx : Value) :
    w.Works p writes (w.indexGet p here obj idx).2 := by
  unfold indexGet
  split
  · exact lift_works w _
  · exact lift_works w _
  · exact .refl w
  iterate 4
    · split
      · exact loadMember_works w _ _
      · exact .refl w
  · exact .refl w

theorem indexSet_works (w : World) (obj idx v : Value) :
    w.Works p true (w.indexSet p obj idx v).2 := by
  unfold indexSet
  split
  · split <;> exact .aside rfl
  · exact .aside rfl
  · exact .refl w
  iterate 4
    · split
      · exact storeMember_works w _ _ _
      · exact .refl w
  · exact .refl w

theorem sliceGet_works (w : World) (obj start stop : Value) :
    w.Works p writes (w.sliceGet obj start stop).2 := by
  unfold sliceGet
  split
  · dsimp only
    split <;> exact .aside rfl
  · dsimp only
    split <;> exact .aside rfl
  · exact .refl w

/-- A method of an array never calls back here; those that do are loops of the machine. -/
theorem arrayMethod_works (w : World) (m : Intrinsic) (id : Nat) (args : List Value) :
    w.Works p writes (w.arrayMethod p here m id args).2 := by
  unfold arrayMethod
  dsimp only
  split
  case h_4 => exact indexGet_works w _ _
  case h_10 => exact sliceGet_works w _ _ _
  all_goals repeat' split
  all_goals exact .aside rfl

theorem dictMethod_works (w : World) (m : Intrinsic) (id : Nat) (args : List Value) :
    w.Works p writes (w.dictMethod m id args).2 := by
  unfold dictMethod
  dsimp only
  split
  all_goals repeat' split
  all_goals exact .aside rfl

theorem stringMethod_works (w : World) (m : Intrinsic) (s : Text) (args : List Value) :
    w.Works p writes (w.stringMethod m s args).2 := by
  unfold stringMethod
  split
  · split <;> exact .aside rfl
  · exact lift_works w _

theorem closeFile_works (w : World) (id : Nat) : w.Works p writes (w.closeFile id).1 := by
  unfold closeFile
  dsimp only
  split <;> exact .aside rfl

theorem afterWrite_works (w : World) (h : FileHandle) : w.Works p writes (w.afterWrite h).2 := by
  unfold afterWrite
  split <;> exact .refl w

theorem keepHandle_works (w : World) (id : Nat) (h : FileHandle) (disk : Disk) :
    w.Works p writes (w.keepHandle id h disk) := .aside rfl

theorem fileMethod_works (w : World) (m : Intrinsic) (id : Nat) (args : List Value) :
    w.Works p writes (w.fileMethod m id args).2 := by
  have hwrite (t : Text) : w.Works p writes (w.writeText id t).2 := by
    unfold writeText
    dsimp only
    split
    · exact .refl w
    · exact (keepHandle_works w id _ _).trans (afterWrite_works _ _)
  have hline : w.Works p writes (w.readLine id).2 := by
    unfold readLine
    dsimp only
    repeat' split
    all_goals exact .aside rfl
  have hall : w.Works p writes (w.readAll id).2 := by
    unfold readAll
    dsimp only
    repeat' split
    all_goals exact .aside rfl
  have hflush : w.Works p writes (w.flushFile id).2 := by
    unfold flushFile
    dsimp only
    split
    · exact .refl w
    · exact (keepHandle_works w id _ _).trans (afterWrite_works _ _)
  have hclose : w.Works p writes (w.closeFile id).1 := closeFile_works w id
  unfold fileMethod
  split
  · exact hwrite _
  · exact hwrite _
  · exact hline
  · exact hall
  · exact hflush
  · split
    · next heq =>
      rw [heq] at hclose
      exact hclose
    · next heq =>
      rw [heq] at hclose
      exact hclose
  all_goals exact .refl w

theorem method_works (w : World) (m : Intrinsic) (receiver : Value) (args : List Value) :
    w.Works p writes (w.method p here m receiver args).2 := by
  unfold method
  split
  · exact arrayMethod_works w _ _ _
  · exact dictMethod_works w _ _ _
  · exact stringMethod_works w _ _ _
  · unfold enumMethod
    split <;> exact .refl w
  · exact fileMethod_works w _ _ _
  · exact .refl w

theorem clock_lt_deadline {w : World} {t : Nat} (go : w.stop? = none) (h : w.deadline = some t) :
    w.clock < t := by
  unfold stop? at go
  rw [h] at go
  split at go
  · cases go
  · dsimp only at go
    split at go
    · cases go
    · omega

theorem elapse_works (w : World) {time : Nat} (later : w.clock ≤ time) :
    w.Works p writes { w with clock := time } := ⟨.single (.elapse w time later), rfl, rfl⟩

theorem wait_works (w : World) (delay : Nat) : w.Works p writes (w.wait delay).2 := by
  unfold wait
  split
  · exact .refl w
  · next go =>
    split
    · next t ht =>
      split
      · exact elapse_works w (Nat.le_of_lt (clock_lt_deadline go ht))
      · exact elapse_works w (Nat.le_add_right _ _)
    · exact elapse_works w (Nat.le_add_right _ _)

/-- Waiting only lets time pass. -/
theorem await_works (w : World) (d : Option Deferred) : w.Works p writes (w.await d).2 := by
  unfold await
  split
  · exact .refl w
  · exact .refl w
  · next delay _ =>
    have hw : w.Works p writes (w.wait delay).2 := wait_works w delay
    split
    · next heq =>
      rw [heq] at hw
      exact hw
    · next heq =>
      rw [heq] at hw
      exact hw
  · exact .refl w

theorem openFile_works (w : World) (bufferSize : Nat) (path mode : Text) :
    w.Works p writes (w.openFile bufferSize path mode).2 := by
  unfold openFile
  split
  · exact .refl w
  · split <;> exact .aside rfl

theorem standard_works (w : World) (bufferSize : Nat) (f : StandardFunction) (args : List Value) :
    w.Works p writes (w.standard bufferSize f args).2 := by
  unfold standard
  split
  case h_1 => exact lift_works w _
  case h_4 => exact lift_works w _
  case h_5 => exact lift_works w _
  case h_6 => exact lift_works w _
  case h_7 => split <;> exact .aside rfl
  case h_11 =>
    split
    · exact .refl w
    · split
      · exact .refl w
      · exact openFile_works w _ _ _
  case h_13 => exact await_works w _
  case h_14 => exact await_works w _
  all_goals exact .aside rfl

theorem carryOut_works (w : World) (r : HostReply) : w.Works p writes (r.carryOut w).2 := by
  cases r with
  | wait d => exact await_works w d
  | cancel => exact ⟨.single (.cancel w), rfl, rfl⟩
  | _ => exact .aside rfl

end World

variable (s : Setup) {p : Program} {writes : Bool}

theorem Machine.callBuiltin_works (m : Machine) (b : Builtin) (args : List Value) :
    m.world.Works s.program writes (Machine.callBuiltin s m b args).2 := by
  unfold Machine.callBuiltin
  split
  · exact World.standard_works _ _ _ _
  · split
    · exact World.carryOut_works _ _
    · exact .refl _

theorem Loop.result_works (w : World) (l : Loop) : w.Works p writes (l.result w).2 := by
  unfold Loop.result
  split <;> exact .aside rfl

namespace Machine

theorem tableFunction_works (m : Machine) (name : Text) :
    m.world.Works s.program writes (m.tableFunction s name).2 := by
  have hc : m.world.Works s.program writes
      (m.world.functionClosure s.program (m.place s) name).2 := World.functionClosure_works _ name
  unfold tableFunction
  split
  · next heq =>
    rw [heq] at hc
    exact hc
  · next heq =>
    rw [heq] at hc
    exact hc

theorem outsideFunction_works (m : Machine) (name : Text) :
    m.world.Works s.program writes (m.outsideFunction s name).2 := by
  unfold outsideFunction
  split <;> exact .refl _

theorem valueOfName_works (m : Machine) (name : Text) :
    m.world.Works s.program writes (m.valueOfName s name).2 := by
  unfold valueOfName
  split
  · exact .refl _
  · split
    · exact tableFunction_works s m name
    · exact outsideFunction_works s m name

theorem calleeOfName_works (m : Machine) (name : Text) :
    m.world.Works s.program writes (m.calleeOfName s name).2 := by
  unfold calleeOfName
  split
  · exact tableFunction_works s m name
  · split
    · exact .refl _
    · exact outsideFunction_works s m name

end Machine

end BytecodeMachine
