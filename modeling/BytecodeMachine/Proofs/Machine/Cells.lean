import BytecodeMachine.Proofs.Machine.Checked
import BytecodeMachine.Proofs.Machine.Links
import BytecodeMachine.Proofs.Machine.Native

/-! Where member values live. A static field has one cell, in the object of the class that declares it,
however it is reached; a field of an instance has one in the instance. Storing a member sets its cell
and no other, and nothing but a store changes one. -/
namespace BytecodeMachine

theorem lookup_bind {α : Type} (name x : Text) (a : α) (es : List (Text × α)) :
    (bind name a es).lookup x = if x = name then some a else es.lookup x := by
  induction es with
  | nil => exact lookup_cons_eq x (name, a) []
  | cons e es ih =>
    rw [bind]
    split
    · next heq =>
      rw [lookup_cons_eq, lookup_cons_eq, heq]
      by_cases hx : x = name
      · rw [if_pos hx, if_pos hx]
      · rw [if_neg hx, if_neg hx, if_neg hx]
    · next hne =>
      rw [lookup_cons_eq, lookup_cons_eq, ih]
      by_cases hx : x = e.1
      · rw [if_pos hx, if_pos hx, if_neg fun h => hne (hx.symm.trans h)]
      · rw [if_neg hx, if_neg hx]

/-- The class that a member is found in finds it in itself. -/
theorem Program.findMember?_owner {p : Program} {key name owner : Text} {member : Member}
    (h : p.findMember? key name = some (owner, member)) :
    p.findMember? owner name = some (owner, member) := by
  obtain ⟨c, hc, hdeclared⟩ := findMember?_eq h
  have hsize : p.classes.size ≠ 0 := by
    intro hzero
    have hempty : p.classes.entries = [] := List.length_eq_zero_iff.mp hzero
    rw [Table.get?, hempty] at hc
    cases hc
  obtain ⟨n, hn⟩ := Nat.exists_eq_succ_of_ne_zero hsize
  rw [findMember?, hn, findMemberFrom, hc]
  dsimp only
  rw [hdeclared]

@[simp] theorem Program.classRef_key (p : Program) (key : Text) : (p.classRef key).key = key := by
  unfold classRef
  split <;> rfl

namespace Store

variable (st : Store)

theorem field_newObject (cls : ClassRef) (id : Nat) (name : Text) :
    (st.newObject cls).2.field id name = st.field id name := by
  have hobject : ((st.newObject cls).2.object id).fields = (st.object id).fields := by
    unfold newObject object
    dsimp only
    rw [Array.getElem?_push]
    split
    · next heq =>
      rw [heq, Array.getElem?_eq_none (Nat.le_refl _)]
      rfl
    · rfl
  unfold field
  rw [hobject]

theorem object_setField (id : Nat) (name : Text) (v : Value) (id' : Nat) :
    (st.setField id name v).objects[id']? =
      if id = id' then (st.objects[id']?).map fun o => { o with fields := bind name v o.fields }
      else st.objects[id']? := by
  unfold setField
  rw [Array.getElem?_modify]

theorem field_setField_self {id : Nat} (h : id < st.objects.size) (name : Text) (v : Value) :
    (st.setField id name v).field id name = v := by
  unfold field object
  rw [object_setField, if_pos rfl, Array.getElem?_eq_getElem h]
  dsimp only [Option.map_some, Option.getD_some]
  rw [lookup_bind, if_pos rfl]
  rfl

theorem field_setField_of_ne {id id' : Nat} {name name' : Text} (h : id' = id → name' ≠ name)
    (v : Value) : (st.setField id name v).field id' name' = st.field id' name' := by
  unfold field object
  rw [object_setField]
  split
  · next heq =>
    subst heq
    cases st.objects[id]? with
    | none => rfl
    | some o =>
      dsimp only [Option.map_some, Option.getD_some]
      rw [lookup_bind, if_neg (h rfl)]
  · rfl

end Store

/-- The place of a member's value: a static field of a class, or a field of an instance. -/
inductive Cell where
  | static (owner name : Text)
  | field (id : Nat) (name : Text)
deriving DecidableEq

namespace World

variable {p : Program} {writes : Bool} {w w' : World}

/-- What a cell holds. A static field of a class without an object was never set. -/
def read (w : World) : Cell → Value
  | .static owner name =>
    match w.statics.lookup owner with
    | some id => w.store.field id name
    | none => .null
  | .field id name => w.store.field id name

/-- A cell that the program declares, of a class or of an object that there is. -/
def Declares (p : Program) (w : World) : Cell → Prop
  | .static owner name => p.findMember? owner name = some (owner, .static)
  | .field id name => id < w.store.objects.size ∧
      ∃ owner, p.findMember? (w.store.object id).cls.key name = some (owner, .field)

/-- The static objects of a world: at most one of a class, and it is one of the class. -/
structure Arranged (p : Program) (w : World) : Prop where
  classes : ∀ e ∈ w.statics, ∃ o : Object, w.store.objects[e.2]? = some o ∧ o.cls = p.classRef e.1
  keys : (w.statics.map (·.1)).Nodup

/-- A world as it can be later: static objects stay, and objects keep their classes. -/
structure Follows (w w' : World) : Prop where
  statics : ∀ e ∈ w.statics, e ∈ w'.statics
  classes : ∀ (id : Nat) (o : Object), w.store.objects[id]? = some o →
    ∃ o' : Object, w'.store.objects[id]? = some o' ∧ o'.cls = o.cls

theorem Follows.refl (w : World) : w.Follows w := ⟨fun _ he => he, fun _ o ho => ⟨o, ho, rfl⟩⟩

theorem Follows.trans {w'' : World} (h : w.Follows w') (h' : w'.Follows w'') : w.Follows w'' where
  statics e he := h'.statics e (h.statics e he)
  classes id o ho := by
    obtain ⟨o', ho', hcls⟩ := h.classes id o ho
    obtain ⟨o'', ho'', hcls'⟩ := h'.classes id o' ho'
    exact ⟨o'', ho'', hcls'.trans hcls⟩

theorem follows_newObject (w : World) (cls : ClassRef) :
    w.Follows { w with store := (w.store.newObject cls).2 } where
  statics _ he := he
  classes id o ho := by
    have hlt : id < w.store.objects.size := (Array.getElem?_eq_some_iff.mp ho).1
    refine ⟨o, ?_, rfl⟩
    change (w.store.objects.push _)[id]? = some o
    rw [Array.getElem?_push_lt hlt, ← ho, Array.getElem?_eq_getElem hlt]

theorem follows_setField (w : World) (id : Nat) (name : Text) (v : Value) :
    w.Follows { w with store := w.store.setField id name v } where
  statics _ he := he
  classes id' o ho := by
    dsimp only
    rw [Store.object_setField, ho]
    split
    · exact ⟨_, rfl, rfl⟩
    · exact ⟨o, rfl, rfl⟩

theorem follows_staticObject (w : World) (key : Text) : w.Follows (w.staticObject p key).2 := by
  cases h : w.statics.lookup key with
  | some id =>
    rw [staticObject_of_lookup h]
    exact .refl w
  | none =>
    rw [staticObject_of_none h]
    have hnew := w.follows_newObject (p.classRef key)
    exact ⟨fun e he => List.mem_cons_of_mem _ he, hnew.classes⟩

/-- A cell that is declared stays so. -/
theorem Follows.declares (h : w.Follows w') {c : Cell} (hc : w.Declares p c) : w'.Declares p c := by
  cases c with
  | static owner name => exact hc
  | field id name =>
    obtain ⟨hid, owner, hfield⟩ := hc
    obtain ⟨o', ho', hcls⟩ := h.classes id _ (Array.getElem?_eq_getElem hid)
    have hclass : (w'.store.object id).cls = (w.store.object id).cls := by
      unfold Store.object
      rw [ho', Array.getElem?_eq_getElem hid]
      exact hcls
    refine ⟨(Array.getElem?_eq_some_iff.mp ho').1, owner, ?_⟩
    rw [hclass]
    exact hfield

/-- Whether a cell is declared depends on the objects alone. -/
theorem declares_of_eq (objects : w'.store.objects = w.store.objects) {c : Cell}
    (hc : w'.Declares p c) : w.Declares p c := by
  cases c with
  | static owner name => exact hc
  | field id name =>
    unfold Declares Store.object at hc ⊢
    dsimp only at hc ⊢
    rwa [objects] at hc

/-- Setting a field declares no cell. -/
theorem declares_of_setField {id : Nat} {name : Text} {v : Value} {c : Cell}
    (h : World.Declares p { w with store := w.store.setField id name v } c) : w.Declares p c := by
  cases c with
  | static owner name => exact h
  | field id' name' =>
    obtain ⟨hid, owner, hfield⟩ := h
    have hsize : (w.store.setField id name v).objects.size = w.store.objects.size := by
      unfold Store.setField
      exact Array.size_modify
    have hclass : ((w.store.setField id name v).object id').cls = (w.store.object id').cls := by
      unfold Store.object
      rw [Store.object_setField]
      split
      · cases w.store.objects[id']? <;> rfl
      · rfl
    refine ⟨hsize ▸ hid, owner, ?_⟩
    rw [← hclass]
    exact hfield

theorem Edit.follows (h : Edit p writes w w') : w.Follows w' := by
  cases h with
  | aside same =>
    simp only [lasting, Prod.mk.injEq] at same
    obtain ⟨hobjects, hstatics, -⟩ := same
    refine ⟨fun e he => hstatics ▸ he, fun id o ho => ⟨o, ?_, rfl⟩⟩
    rw [hobjects, ho]
  | object key => exact w.follows_newObject _
  | static key _ => exact w.follows_staticObject key
  | field id name v _ => exact w.follows_setField id name v
  | elapse => exact ⟨fun _ he => he, fun _ o ho => ⟨o, ho, rfl⟩⟩
  | cancel => exact ⟨fun _ he => he, fun _ o ho => ⟨o, ho, rfl⟩⟩

theorem Edits.follows (h : Edits p writes w w') : w.Follows w' := by
  induction h with
  | refl => exact .refl w
  | tail _ hlast ih => exact ih.trans hlast.follows

/-- Static objects that were arranged still are where none is added. -/
theorem Arranged.of_follows (h : w.Arranged p) (he : w.Follows w') (same : w'.statics = w.statics) :
    w'.Arranged p where
  classes e hmem := by
    rw [same] at hmem
    obtain ⟨o, ho, hcls⟩ := h.classes e hmem
    obtain ⟨o', ho', hcls'⟩ := he.classes e.2 o ho
    exact ⟨o', ho', hcls'.trans hcls⟩
  keys := by
    rw [same]
    exact h.keys

theorem Arranged.staticObject (h : w.Arranged p) (key : Text) :
    (w.staticObject p key).2.Arranged p := by
  have hfollows := w.follows_staticObject (p := p) key
  cases hlookup : w.statics.lookup key with
  | some id =>
    rw [staticObject_of_lookup hlookup]
    exact h
  | none =>
    rw [staticObject_of_none hlookup] at hfollows ⊢
    -- An object is made for a class only where the lookup found none, so no key comes twice.
    have hfresh : key ∉ w.statics.map (·.1) := by
      intro hmem
      obtain ⟨e, he, rfl⟩ := List.mem_map.mp hmem
      have hnone := List.lookup_eq_none_iff.mp hlookup e he
      simp at hnone
    refine ⟨fun e he => ?_, List.nodup_cons.mpr ⟨hfresh, h.keys⟩⟩
    rcases List.mem_cons.mp he with rfl | hold
    · exact ⟨{ cls := p.classRef key }, Array.getElem?_push_size, rfl⟩
    · obtain ⟨o, ho, hcls⟩ := h.classes e hold
      obtain ⟨o', ho', hcls'⟩ := hfollows.classes e.2 o ho
      exact ⟨o', ho', hcls'.trans hcls⟩

theorem Arranged.edit (h : w.Arranged p) (he : Edit p writes w w') : w'.Arranged p := by
  have hfollows := he.follows
  cases he with
  | aside same =>
    simp only [lasting, Prod.mk.injEq] at same
    exact h.of_follows hfollows same.2.1
  | static key _ => exact h.staticObject key
  | _ => exact h.of_follows hfollows rfl

theorem Arranged.edits (h : w.Arranged p) (he : Edits p writes w w') : w'.Arranged p := by
  induction he with
  | refl => exact h
  | tail _ hlast ih => exact ih.edit hlast

section Reading

/-- The object of a class with a static object. -/
theorem Arranged.object_cls (h : w.Arranged p) {owner : Text} {id : Nat}
    (hlookup : w.statics.lookup owner = some id) :
    id < w.store.objects.size ∧ (w.store.object id).cls = p.classRef owner := by
  obtain ⟨o, ho, hcls⟩ := h.classes _ (mem_of_lookup hlookup)
  refine ⟨(Array.getElem?_eq_some_iff.mp ho).1, ?_⟩
  rw [Store.object, ho]
  exact hcls

theorem read_static_of_lookup {owner : Text} {id : Nat} (h : w.statics.lookup owner = some id)
    (name : Text) : w.read (.static owner name) = w.store.field id name := by
  rw [read, h]

theorem read_of_eq (objects : w'.store.objects = w.store.objects) (statics : w'.statics = w.statics)
    (c : Cell) : w'.read c = w.read c := by
  have hfield (id : Nat) (name : Text) : w'.store.field id name = w.store.field id name := by
    unfold Store.field Store.object
    rw [objects]
  cases c with
  | field id name => exact hfield id name
  | static owner name =>
    unfold read
    dsimp only
    rw [statics]
    cases w.statics.lookup owner with
    | none => rfl
    | some id => exact hfield id name

theorem read_newObject (w : World) (cls : ClassRef) (c : Cell) :
    World.read { w with store := (w.store.newObject cls).2 } c = w.read c := by
  cases c with
  | field id name => exact w.store.field_newObject cls id name
  | static owner name =>
    unfold read
    dsimp only
    cases w.statics.lookup owner with
    | none => rfl
    | some id => exact w.store.field_newObject cls id name

/-- A static object holds nothing when it is made, as its class did before. -/
theorem read_staticObject (w : World) (key : Text) (c : Cell) :
    (w.staticObject p key).2.read c = w.read c := by
  cases hlookup : w.statics.lookup key with
  | some id => rw [staticObject_of_lookup hlookup]
  | none =>
    rw [staticObject_of_none hlookup]
    cases c with
    | field id name => exact w.store.field_newObject _ id name
    | static owner name =>
      have hfield := w.store.field_newObject (p.classRef key)
      unfold read
      dsimp only
      rw [lookup_cons_eq]
      -- The class now reads from the new object, which is as empty as no object was.
      by_cases howner : owner = key
      · have hempty : w.store.field w.store.objects.size name = .null := by
          unfold Store.field Store.object
          rw [Array.getElem?_eq_none (Nat.le_refl _)]
          rfl
        rw [if_pos howner, howner, hlookup]
        exact (hfield _ name).trans hempty
      · rw [if_neg howner]
        cases w.statics.lookup owner with
        | none => rfl
        | some id => exact hfield id name

/-- No cell changes where no field may be set. -/
theorem Edits.read (h : Edits p false w w') (c : Cell) : w'.read c = w.read c := by
  induction h with
  | refl => rfl
  | tail _ hlast ih =>
    refine Eq.trans ?_ ih
    cases hlast with
    | aside same =>
      simp only [lasting, Prod.mk.injEq] at same
      exact read_of_eq same.1 same.2.1 c
    | object key => exact read_newObject _ _ c
    | static key _ => exact read_staticObject _ key c
    | field _ _ _ may => cases may
    | elapse => exact read_of_eq rfl rfl c
    | cancel => exact read_of_eq rfl rfl c

/-- Setting a field of the static object of a class sets a static field of the class alone. -/
theorem read_setField_static (h : w.Arranged p) {owner name : Text} {id : Nat}
    (hlookup : w.statics.lookup owner = some id)
    (hstatic : p.findMember? owner name = some (owner, .static)) (v : Value) :
    World.read { w with store := w.store.setField id name v } (.static owner name) = v ∧
      ∀ c, w.Declares p c → c ≠ .static owner name →
        World.read { w with store := w.store.setField id name v } c = w.read c := by
  obtain ⟨hid, hcls⟩ := h.object_cls hlookup
  refine ⟨?_, fun c hc hne => ?_⟩
  · rw [read_static_of_lookup (w := { w with store := w.store.setField id name v }) hlookup]
    exact w.store.field_setField_self hid name v
  · cases c with
    | field id' name' =>
      obtain ⟨-, owner', hfield⟩ := hc
      refine w.store.field_setField_of_ne (fun hsame hname => ?_) v
      -- The name would be both a static field of the class and a field of its instances.
      rw [hsame, hname, hcls, Program.classRef_key, hstatic] at hfield
      cases hfield
    | static owner' name' =>
      unfold read
      dsimp only
      cases hother : w.statics.lookup owner' with
      | none => rfl
      | some id' =>
        -- One object cannot be the static object of two classes, since it has one class.
        refine w.store.field_setField_of_ne (fun hsame hname => hne ?_) v
        have hkeys : p.classRef owner' = p.classRef owner := by
          rw [← (h.object_cls hother).2, hsame, hcls]
        have howner : owner' = owner := by
          rw [← p.classRef_key owner', hkeys, p.classRef_key]
        rw [howner, hname]

/-- Setting a field of an instance sets that field alone. -/
theorem read_setField_field (h : w.Arranged p) {id : Nat} {owner name : Text}
    (hfield : p.findMember? (w.store.object id).cls.key name = some (owner, .field)) (v : Value) :
    (id < w.store.objects.size →
        World.read { w with store := w.store.setField id name v } (.field id name) = v) ∧
      ∀ c, w.Declares p c → c ≠ .field id name →
        World.read { w with store := w.store.setField id name v } c = w.read c := by
  refine ⟨fun hid => w.store.field_setField_self hid name v, fun c hc hne => ?_⟩
  cases c with
  | field id' name' =>
    refine w.store.field_setField_of_ne (fun hsame hname => hne ?_) v
    rw [hsame, hname]
  | static owner' name' =>
    unfold read
    dsimp only
    cases hother : w.statics.lookup owner' with
    | none => rfl
    | some id' =>
      -- The instance would be the static object of its class, and the name a field and static.
      refine w.store.field_setField_of_ne (fun hsame hname => ?_) v
      have hstatic : p.findMember? owner' name' = some (owner', .static) := hc
      rw [← hsame, (h.object_cls hother).2, Program.classRef_key, ← hname, hstatic] at hfield
      cases hfield

end Reading

/-- The class whose members a value gives access to: that of an instance, of a static object, of a
class value or of a type. -/
def classOf? (w : World) : Value → Option Text
  | .object id | .static id => some (w.store.object id).cls.key
  | .cls c => some c.key
  | .type t =>
    match t.target with
    | .cls => some t.name
    | _ => none
  | _ => none

/-- The cell that a member of a value stands for, none where it stands for none. -/
def cellOf? (p : Program) (w : World) (receiver : Value) (name : Text) : Option Cell :=
  match w.classOf? receiver with
  | none => none
  | some key =>
    match p.findMember? key name with
    | some (owner, .static) => some (.static owner name)
    | some (_, .field) =>
      match receiver with
      | .object id => some (.field id name)
      | _ => none
    | _ => none

section Access

variable {here : Place} {receiver : Value} {name : Text} {c : Cell}

theorem cellOf?_of_eq (objects : w'.store.objects = w.store.objects) (receiver : Value) (name : Text) :
    w'.cellOf? p receiver name = w.cellOf? p receiver name := by
  have hclass : w'.classOf? receiver = w.classOf? receiver := by
    unfold classOf? Store.object
    rw [objects]
  unfold cellOf?
  rw [hclass]

theorem cellOf?_static {key owner : Text} (hclass : w.classOf? receiver = some key)
    (hfind : p.findMember? key name = some (owner, .static)) :
    w.cellOf? p receiver name = some (.static owner name) := by
  unfold cellOf?
  rw [hclass]
  dsimp only
  rw [hfind]

theorem cellOf?_field {id : Nat} {owner : Text}
    (hfind : p.findMember? (w.store.object id).cls.key name = some (owner, .field)) :
    w.cellOf? p (.object id) name = some (.field id name) := by
  unfold cellOf? classOf?
  dsimp only
  rw [hfind]

/-- How a value stands for a cell. -/
theorem cellOf?_cases (h : w.cellOf? p receiver name = some c) :
    (∃ key owner, w.classOf? receiver = some key ∧
        p.findMember? key name = some (owner, .static) ∧ c = .static owner name) ∨
      ∃ id owner, receiver = .object id ∧
        p.findMember? (w.store.object id).cls.key name = some (owner, .field) ∧
          c = .field id name := by
  unfold cellOf? at h
  split at h
  · cases h
  · next key hclass =>
    split at h
    · next owner hfind =>
      cases h
      exact Or.inl ⟨key, owner, hclass, hfind, rfl⟩
    · next owner hfind =>
      split at h
      · next id =>
        cases h
        cases hclass
        exact Or.inr ⟨id, owner, rfl, hfind, rfl⟩
      · cases h
    · cases h

theorem lookup_staticObject (w : World) (key : Text) :
    (w.staticObject p key).2.statics.lookup key = some (w.staticObject p key).1 := by
  cases hlookup : w.statics.lookup key with
  | some id =>
    rw [staticObject_of_lookup hlookup]
    exact hlookup
  | none =>
    rw [staticObject_of_none hlookup]
    exact (lookup_cons_eq key _ _).trans (if_pos rfl)

theorem staticMember_static {key owner : Text}
    (hfind : p.findMember? key name = some (owner, .static)) :
    (w.staticMember p here key name).1 = .ok (w.read (.static owner name)) := by
  have hcell : (w.staticObject p owner).2.store.field (w.staticObject p owner).1 name =
      w.read (.static owner name) := by
    rw [← read_static_of_lookup (lookup_staticObject w owner) name]
    exact w.read_staticObject owner _
  unfold staticMember
  rw [hfind]
  exact congrArg Except.ok hcell

theorem setStaticMember_static {key owner : Text}
    (hfind : p.findMember? key name = some (owner, .static)) (v : Value) :
    w.setStaticMember p key name v = (.ok (),
      { (w.staticObject p owner).2 with
        store := (w.staticObject p owner).2.store.setField (w.staticObject p owner).1 name v }) := by
  unfold setStaticMember
  rw [hfind]

/-- Every route to a cell loads what it holds. -/
theorem loadMember_of_cell (hc : w.cellOf? p receiver name = some c) :
    (w.loadMember p here receiver name).1 = .ok (w.read c) := by
  rcases cellOf?_cases hc with ⟨key, owner, hclass, hfind, rfl⟩ | ⟨id, owner, rfl, hfind, rfl⟩
  · have hstatic : (w.staticMember p here key name).1 = .ok (w.read (.static owner name)) :=
      staticMember_static hfind
    cases receiver with
    | object id =>
      cases hclass
      change (w.instanceMember p here id name).1 = _
      unfold instanceMember
      dsimp only
      rw [hfind]
      -- The class that declares the field finds it in itself.
      exact staticMember_static (Program.findMember?_owner hfind)
    | static id =>
      cases hclass
      exact hstatic
    | cls k =>
      cases hclass
      exact hstatic
    | type t =>
      obtain ⟨typeName, target⟩ := t
      cases target with
      | cls =>
        cases hclass
        exact hstatic
      | enum => cases hclass
      | builtin k => cases hclass
    | _ => cases hclass
  · change (w.instanceMember p here id name).1 = _
    unfold instanceMember
    dsimp only
    rw [hfind]
    rfl

/-- A store through any route goes to the object of the class that declares the field. -/
theorem storeMember_static {key owner : Text} (hclass : w.classOf? receiver = some key)
    (hfind : p.findMember? key name = some (owner, .static)) (v : Value) :
    w.storeMember p receiver name v = (.ok (),
      { (w.staticObject p owner).2 with
        store := (w.staticObject p owner).2.store.setField (w.staticObject p owner).1 name v }) := by
  have hset := setStaticMember_static (w := w) hfind v
  cases receiver with
  | object id =>
    cases hclass
    change w.setInstanceMember p id name v = _
    unfold setInstanceMember
    dsimp only
    rw [hfind]
  | static id =>
    cases hclass
    exact hset
  | cls k =>
    cases hclass
    exact hset
  | type t =>
    obtain ⟨typeName, target⟩ := t
    cases target with
    | cls =>
      cases hclass
      exact hset
    | enum => cases hclass
    | builtin k => cases hclass
  | _ => cases hclass

theorem storeMember_field {id : Nat} {owner : Text}
    (hfind : p.findMember? (w.store.object id).cls.key name = some (owner, .field)) (v : Value) :
    w.storeMember p (.object id) name v =
      (.ok (), { w with store := w.store.setField id name v }) := by
  change w.setInstanceMember p id name v = _
  unfold setInstanceMember
  dsimp only
  rw [hfind]

/-- Every route to a cell sets it, and no other cell. -/
theorem storeMember_of_cell (h : w.Arranged p) (hc : w.cellOf? p receiver name = some c) (v : Value) :
    (w.storeMember p receiver name v).1 = .ok () ∧
      ((w.storeMember p receiver name v).2.Declares p c →
        w.Declares p c ∧ (w.storeMember p receiver name v).2.read c = v) ∧
      ∀ c', (w.storeMember p receiver name v).2.Declares p c' → c' ≠ c →
        (w.storeMember p receiver name v).2.read c' = w.read c' := by
  rcases cellOf?_cases hc with ⟨key, owner, hclass, hfind, rfl⟩ | ⟨id, owner, rfl, hfind, rfl⟩
  · have howner := Program.findMember?_owner hfind
    have hset := read_setField_static (h.staticObject owner) (lookup_staticObject w owner) howner v
    rw [storeMember_static hclass hfind]
    refine ⟨rfl, fun _ => ⟨howner, hset.1⟩, fun c' hc' hne => ?_⟩
    exact (hset.2 c' (declares_of_setField hc') hne).trans (w.read_staticObject owner c')
  · have hset := read_setField_field h hfind v
    rw [storeMember_field hfind]
    refine ⟨rfl, fun hc => ?_, fun c' hc' hne => hset.2 c' (declares_of_setField hc') hne⟩
    have hbefore := declares_of_setField hc
    exact ⟨hbefore, hset.1 hbefore.1⟩

/-- A store that stands for no cell sets none. -/
theorem storeMember_of_none (hc : w.cellOf? p receiver name = none) (v : Value) :
    w.Works p writes (w.storeMember p receiver name v).2 := by
  have hstatic {key : Text} (hclass : w.classOf? receiver = some key) :
      w.Works p writes (w.setStaticMember p key name v).2 := by
    unfold cellOf? at hc
    rw [hclass] at hc
    dsimp only at hc
    unfold setStaticMember
    split
    · next hfind =>
      rw [hfind] at hc
      cases hc
    all_goals exact .refl w
  cases receiver with
  | object id =>
    unfold cellOf? classOf? at hc
    dsimp only at hc
    change w.Works p writes (w.setInstanceMember p id name v).2
    unfold setInstanceMember
    dsimp only
    split
    · next hfind =>
      rw [hfind] at hc
      cases hc
    · next hfind =>
      rw [hfind] at hc
      cases hc
    all_goals exact .refl w
  | static id => exact hstatic rfl
  | cls k => exact hstatic rfl
  | type t =>
    obtain ⟨typeName, target⟩ := t
    cases target with
    | cls => exact hstatic rfl
    | enum => exact .refl w
    | builtin k => exact .refl w
  | _ => exact .aside rfl

theorem indexSet_of_none {idx : Value}
    (hc : ∀ name, idx = .string name → w.cellOf? p receiver name = none) (v : Value) :
    w.Works p writes (w.indexSet p receiver idx v).2 := by
  unfold indexSet
  split
  · split <;> exact .aside rfl
  · exact .aside rfl
  · exact .refl w
  iterate 4
    · split
      · exact storeMember_of_none (hc _ rfl) v
      · exact .refl w
  · exact .refl w

/-- A value that stands for a cell by a name is indexed by the name. -/
theorem indexSet_of_cell (hc : w.cellOf? p receiver name = some c) (v : Value) :
    w.indexSet p receiver (.string name) v = w.storeMember p receiver name v := by
  cases receiver with
  | object | static | cls | type => rfl
  | _ => cases hc

theorem indexGet_of_cell (hc : w.cellOf? p receiver name = some c) :
    w.indexGet p here receiver (.string name) = w.loadMember p here receiver name := by
  cases receiver with
  | object | static | cls | type => rfl
  | _ => cases hc

end Access

end World

end BytecodeMachine
