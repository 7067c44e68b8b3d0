import BytecodeMachine.Machine.World

/-!
Members of values: fields and methods of objects, static members of classes, members of enums,
intrinsic methods of built-in values, keys of dictionaries.
-/
namespace BytecodeMachine

/-- What a class declares under a name. -/
inductive Member where
  | field
  | method (function : Text)
  | static
  | staticMethod (function : Text)
deriving DecidableEq

namespace Program

def classRef (p : Program) (key : Text) : ClassRef :=
  match p.classes.get? key with
  | some c => ⟨key, c.name⟩
  | none => ⟨key, []⟩

/-- What a class itself declares under a name; a method without a function counts as none. -/
def declared? (c : ClassInfo) (name : Text) : Option Member :=
  if c.fields.contains name then some .field
  else match c.methods.get? name with
    | some (b :: fn) => some (.method (b :: fn))
    | _ =>
      if c.statics.contains name then some .static
      else match c.staticMethods.get? name with
        | some (b :: fn) => some (.staticMethod (b :: fn))
        | _ => none

/-- The first class from `key` on through its bases that declares a name. `n` bounds the bases. -/
def findMemberFrom (p : Program) (name : Text) : (n : Nat) → (key : Text) → Option (Text × Member)
  | 0, _ => none
  | n + 1, key =>
    match p.classes.get? key with
    | none => none
    | some c =>
      match declared? c name with
      | some m => some (key, m)
      | none => if c.base.isEmpty then none else p.findMemberFrom name n c.base

def findMember? (p : Program) (key name : Text) : Option (Text × Member) :=
  p.findMemberFrom name p.classes.size key

def isSubclassFrom (p : Program) (other : Text) : (n : Nat) → (key : Text) → Bool
  | 0, _ => false
  | n + 1, key =>
    if key = other then true
    else match p.classes.get? key with
      | none => false
      | some c => if c.base.isEmpty then false else p.isSubclassFrom other n c.base

/-- Whether a class is another one or inherits from it. -/
def isSubclass (p : Program) (key other : Text) : Bool :=
  p.isSubclassFrom other p.classes.size key

def builtinType? (name : Text) : Option Kind :=
  if name = Text.ofString "Array" then some .array
  else if name = Text.ofString "Dict" then some .dict
  else if name = Text.ofString "String" then some .string
  else if name = Text.ofString "File" then some .file
  else none

/-- The class, enum or built-in kind of a name, in this order. -/
def resolveType? (p : Program) (name : Text) : Option TypeRef :=
  if p.classes.contains name then some ⟨name, .cls⟩
  else if p.enums.contains name then some ⟨name, .enum⟩
  else (builtinType? name).map fun k => ⟨name, .builtin k⟩

end Program

namespace World

variable (p : Program) (here : Place)

/-- The object that holds the static fields of a class, made when it is first needed. -/
def staticObject (w : World) (key : Text) : Nat × World :=
  match w.statics.lookup key with
  | some id => (id, w)
  | none =>
    let (id, s) := w.store.newObject (p.classRef key)
    (id, { w with store := s, statics := (key, id) :: w.statics })

/-- A method bound to its receiver. -/
def bindMethod (w : World) (function : Text) (receiver : Value) : Reply Value :=
  match w.functionClosure p here function with
  | (.error e, w) => (.error e, w)
  | (.ok c, w) =>
    let (ref, w) := w.newRef
    (.ok (.boundMethod ref c receiver), w)

def bindIntrinsic (w : World) (m : Intrinsic) (receiver : Value) : Reply Value :=
  let (ref, w) := w.newRef
  (.ok (.boundIntrinsic ref m receiver), w)

/-- A static field or a static method, bound to the object of the class that declares it. -/
def staticMember (w : World) (key name : Text) : Reply Value :=
  match p.findMember? key name with
  | some (owner, .static) =>
    let (id, w) := w.staticObject p owner
    w.give (w.store.field id name)
  | some (owner, .staticMethod fn) =>
    match w.functionClosure p here fn with
    | (.error e, w) => (.error e, w)
    | (.ok c, w) =>
      let (id, w) := w.staticObject p owner
      let (ref, w) := w.newRef
      w.give (.boundMethod ref c (.static id))
  | some (owner, _) => w.fail (.instanceMember name (p.classRef owner).name)
  | none => w.fail (.noStaticMember (p.classRef key).name name)

def setStaticMember (w : World) (key name : Text) (v : Value) : Reply Unit :=
  match p.findMember? key name with
  | some (owner, .static) =>
    let (id, w) := w.staticObject p owner
    (.ok (), { w with store := w.store.setField id name v })
  | some (owner, .staticMethod _) => w.fail (.assignStaticMethod name (p.classRef owner).name)
  | some (owner, _) => w.fail (.instanceMember name (p.classRef owner).name)
  | none => w.fail (.noStaticMember (p.classRef key).name name)

def instanceMember (w : World) (id : Nat) (name : Text) : Reply Value :=
  let cls := (w.store.object id).cls
  match p.findMember? cls.key name with
  | some (_, .field) => w.give (w.store.field id name)
  | some (_, .method fn) => w.bindMethod p here fn (.object id)
  | some (owner, _) => w.staticMember p here owner name
  | none => w.fail (.noMember cls.name name)

def setInstanceMember (w : World) (id : Nat) (name : Text) (v : Value) : Reply Unit :=
  let cls := (w.store.object id).cls
  match p.findMember? cls.key name with
  | some (_, .field) => (.ok (), { w with store := w.store.setField id name v })
  | some (owner, .static) =>
    let (sid, w) := w.staticObject p owner
    (.ok (), { w with store := w.store.setField sid name v })
  | some (_, _) => w.fail (.assignMethod name cls.name)
  | none => w.fail (.noMember cls.name name)

/-- The position of the first member of a name. -/
def enumOrdinal? (members : List Text) (name : Text) : Option Nat := members.findIdx? (· = name)

def enumMember (w : World) (enum name : Text) : Reply Value :=
  match enumOrdinal? (p.enumMembers enum) name with
  | some i => w.give (.enum ⟨enum, name, Int64.ofNat i⟩)
  | none => w.fail (.noEnumMember enum name)

/-- A member by the name of a type. -/
def typeMember (w : World) (t : TypeRef) (name : Text) : Reply Value :=
  match t.target with
  | .cls => w.staticMember p here t.name name
  | .enum => w.enumMember p t.name name
  | .builtin k =>
    match Intrinsic.find? k name with
    | some m => w.give (.intrinsic m)
    | none => w.fail (.noMember t.name name)

/-- What a program can ask of an exception. -/
def exceptionMember? (e : Exception) (name : Text) : Option Value :=
  if name = Text.ofString "kind" then some (.string e.kind)
  else if name = Text.ofString "message" then some (.string e.message)
  else if name = Text.ofString "file" then some (.string e.file)
  else if name = Text.ofString "line" then some (.int e.line)
  else if name = Text.ofString "col" then some (.int e.col)
  else if name = Text.ofString "trace" then some (.string e.trace)
  else if name = Text.ofString "payload" then some e.payload
  else none

/-- The member of a name of any value. The names of intrinsic methods hide keys of dictionaries. -/
def loadMember (w : World) (receiver : Value) (name : Text) : Reply Value :=
  match receiver with
  | .object id => w.instanceMember p here id name
  | .static id => w.staticMember p here (w.store.object id).cls.key name
  | .cls c => w.staticMember p here c.key name
  | .type t => w.typeMember p here t name
  | .exception id =>
    match exceptionMember? (w.store.exception id) name with
    | some v => w.give v
    | none => w.fail (.noMember "exception" name)
  | .dict id =>
    match Intrinsic.find? .dict name with
    | some m => w.bindIntrinsic m receiver
    | none => w.give (((w.store.dict id).get? (.string name)).getD .null)
  | _ =>
    match Intrinsic.find? receiver.kind name with
    | some m => w.bindIntrinsic m receiver
    | none => w.fail (.noMember receiver.kind.name name)

/-- Sets the member of a name of any value. -/
def storeMember (w : World) (receiver : Value) (name : Text) (v : Value) : Reply Unit :=
  match receiver with
  | .object id => w.setInstanceMember p id name v
  | .static id => w.setStaticMember p (w.store.object id).cls.key name v
  | .cls c => w.setStaticMember p c.key name v
  | .type t =>
    match t.target with
    | .cls => w.setStaticMember p t.name name v
    | _ => w.fail (.assignMember name t.name)
  | .dict id =>
    (.ok (), { w with store := w.store.modifyDict id fun d => d.insert (.string name) v })
  | _ => w.fail (.assignMember name receiver.kind.name)

end World

end BytecodeMachine
