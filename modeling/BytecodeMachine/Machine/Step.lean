import BytecodeMachine.Machine.Call

/-!
What each instruction does.
-/
namespace BytecodeMachine.Machine

variable (s : Setup)

/-- Goes on with the answer of native code. -/
def reply {α : Type} (m : Machine) (r : Reply α) (k : α → Machine → Effect) : Effect :=
  match r with
  | (.ok a, w) => k a { m with world := w }
  | (.error f, w) => .failed f { m with world := w }

/-- Pushes the answer of native code. -/
def pushReply (m : Machine) (r : Reply Value) : Effect := m.reply r fun v m => .next (m.push v)

def pushResult (m : Machine) (r : Except ErrorCause Value) : Effect :=
  match r with
  | .ok v => .next (m.push v)
  | .error e => .failed (.of e) m

def raise (m : Machine) (e : ErrorCause) : Effect := .failed (.of e) m

/-- Takes two values off the stack; the first one given was pushed first. -/
def pop2 (m : Machine) (k : Value → Value → Machine → Effect) : Effect :=
  m.pop s fun b m => m.pop s fun a m => k a b m

def pop3 (m : Machine) (k : Value → Value → Value → Machine → Effect) : Effect :=
  m.pop s fun c m => m.pop s fun b m => m.pop s fun a m => k a b c m

/-- The value of a constant. -/
def literal : Option Literal → Except FaultCause Value
  | none => .error .missingLiteral
  | some l =>
    match LiteralKind.ofCode? l.kind with
    | some .null => .ok .null
    | some .bool => .ok (.bool (l.int ≠ 0))
    | some .int => .ok (.int l.int)
    | some .int32 => .ok (.int32 l.int.toInt32)
    | some .float32 => .ok (.float32 l.float.toSingle)
    | some .float => .ok (.float l.float)
    | some .decimal =>
      match Decimal.read? l.str with
      | some d => .ok (.decimal d)
      | none => .error (.badDecimal l.str)
    | some .str => .ok (.string l.str)
    | some .char => .ok (.char l.int.toInt32)
    | none => .error (.unknownLiteral l.kind)

/-- Joins strings and arrays, adds numbers. A string takes anything beside it as text. -/
def add (m : Machine) (a b : Value) : Effect :=
  match a, b with
  | .string _, _ | _, .string _ =>
    .next (m.push (.string (m.world.text a ++ m.world.text b)))
  | .array x, .array y =>
    m.pushReply (m.world.newArray (m.world.store.array x ++ m.world.store.array y))
  | _, _ => m.pushResult (a.arith .add b)

def arithmetic (m : Machine) (op : ArithOp) : Effect :=
  m.pop2 s fun a b m => if op = .add then m.add a b else m.pushResult (a.arith op b)

def comparison (m : Machine) (op : CompareOp) : Effect :=
  m.pop2 s fun a b m => m.pushResult ((a.compare op b).map .bool)

/-- Jumps where the truth of the top value is `sense`. -/
def branch (m : Machine) (sense : Bool) (target : Int) : Effect :=
  m.pop s fun v m => .next (if m.world.store.truthy v = sense then { m with ip := target } else m)

def declare (m : Machine) (name : Text) (v : Value) : Machine :=
  let scopes := m.world.store.scopes.declare name v m.scope
  { m with world := { m.world with store := { m.world.store with scopes := scopes } } }

def assign (m : Machine) (name : Text) (v : Value) : Effect :=
  match m.world.store.scopes.assign? name v m.scope with
  | some scopes =>
    .next { m with world := { m.world with store := { m.world.store with scopes := scopes } } }
  | none => m.raise (.undeclaredVariable name)

def lookup? (m : Machine) (name : Text) : Option Value := m.world.store.scopes.lookup name m.scope

/-- A function of the table as a value. -/
def tableFunction (m : Machine) (name : Text) : Reply Value :=
  match m.world.functionClosure s.program (m.place s) name with
  | (.ok c, w) => w.give (.closure c)
  | (.error f, w) => (.error f, w)

/-- A function of the host or a standard one. -/
def outsideFunction (m : Machine) (name : Text) : Reply Value :=
  match s.builtin? name with
  | some b => m.world.give (.builtin b)
  | none => m.world.fail (.undefinedName name)

/-- What a name stands for as a value: a variable, a function of the table, or one from outside. -/
def valueOfName (m : Machine) (name : Text) : Reply Value :=
  match m.lookup? name with
  | some v => m.world.give v
  | none =>
    if s.program.functions.contains name then m.tableFunction s name else m.outsideFunction s name

/-- What a name stands for in a call: a function of the table comes before a variable. -/
def calleeOfName (m : Machine) (name : Text) : Reply Value :=
  if s.program.functions.contains name then m.tableFunction s name
  else match m.lookup? name with
    | some v => m.world.give v
    | none => m.outsideFunction s name

/-- A function of the table as a new closure over the current scope. -/
def pushClosure (m : Machine) (name : Text) : Effect :=
  match s.program.functions.get? name with
  | none => .failed (m.fault s (.undefinedFunction name)) m
  | some fn =>
    let (ref, w) := m.world.newRef
    let c : Closure :=
      { ref := ref, name := fn.name, entry := fn.address.toInt, params := fn.params
        scope := m.scope }
    .next ({ m with world := w }.push (.closure c))

/-- Keys and values in turn as pairs. -/
def pairs : List Value → List (Value × Value)
  | k :: v :: rest => (k, v) :: pairs rest
  | _ => []

def makeArray (m : Machine) (n : Int) : Effect :=
  m.popMany s n fun vs m => m.pushReply (m.world.newArray vs)

/-- Makes a dictionary of `n` pairs; their number is doubled in words of 64 bits. -/
def makeDict (m : Machine) (n : Int64) : Effect :=
  m.popMany s (2 * n).toInt fun vs m =>
    let (v, w) := m.world.newDict (Dict.ofPairs (pairs vs))
    .next ({ m with world := w }.push v)

def newObject (m : Machine) (name : Text) : Effect :=
  if s.program.classes.contains name then
    let (id, store) := m.world.store.newObject (s.program.classRef name)
    .next ({ m with world := { m.world with store := store } }.push (.object id))
  else .failed (m.fault s (.undefinedClass name)) m

/-- Goes on with the type of a name. -/
def withType (m : Machine) (name : Text) (k : TypeRef → Effect) : Effect :=
  match s.program.resolveType? name with
  | some t => k t
  | none => .failed (m.fault s (.undefinedType name)) m

def popScope (m : Machine) : Effect :=
  if m.scopeDepth ≤ m.scopeFloor then .failed (m.fault s .scopeUnderflow) m
  else .next m.leaveScope

def popHandler (m : Machine) : Effect :=
  match m.handlers with
  | [] => .failed (m.fault s .tryPopWithoutHandler) m
  | _ :: rest => .next { m with handlers := rest }

/-- The failure that throwing a value is; a value that is no exception is carried by a new one. -/
def thrown (m : Machine) : Value → Failure
  | .exception id => .rethrow id
  | v => .raise (.thrown (m.world.text v)) v

def print (m : Machine) (v : Value) : Effect :=
  match m.world.output.write? (m.world.text v ++ [10]) with
  | some o => .next { m with world := { m.world with output := o } }
  | none => .failed (.output "vm: print: output limit") m

def indexSet (m : Machine) : Effect :=
  m.pop3 s fun obj idx v m =>
    m.reply (m.world.indexSet s.program obj idx v) fun _ m => .next m

def storeMember (m : Machine) (receiver : Value) (name : Text) (v : Value) : Effect :=
  m.reply (m.world.storeMember s.program receiver name v) fun _ m => .next m

/-- The effect of an instruction of a known opcode. -/
def perform (m : Machine) (o : Operand) : Opcode → Effect
  | .nop => .next m
  | .pop => m.pop s fun _ m => .next m
  | .dup => m.peek s 0 fun v => .next (m.push v)
  | .swap => m.pop2 s fun a b m => .next ((m.push b).push a)
  | .pushConst =>
    match literal o.lit with
    | .ok v => .next (m.push v)
    | .error c => .failed (m.fault s c) m
  | .pushNull => .next (m.push .null)
  | .pushTrue => .next (m.push (.bool true))
  | .pushFalse => .next (m.push (.bool false))
  | .varDecl => m.pop s fun v m => .next (m.declare o.name v)
  | .loadVar => m.pushReply (m.valueOfName s o.name)
  | .storeVar => m.pop s fun v m => m.assign o.name v
  | .pushScope => .next m.pushScope
  | .popScope => m.popScope s
  | .add => m.arithmetic s .add
  | .sub => m.arithmetic s .sub
  | .mul => m.arithmetic s .mul
  | .div => m.arithmetic s .div
  | .mod => m.arithmetic s .mod
  | .neg => m.pop s fun v m => m.pushResult v.negate
  | .not => m.pop s fun v m => .next (m.push (.bool (!m.world.store.truthy v)))
  | .eq => m.pop2 s fun a b m => .next (m.push (.bool (a.equal b)))
  | .ne => m.pop2 s fun a b m => .next (m.push (.bool (!a.equal b)))
  | .lt => m.comparison s .lt
  | .le => m.comparison s .le
  | .gt => m.comparison s .gt
  | .ge => m.comparison s .ge
  | .jump => .next { m with ip := o.int.toInt }
  | .jumpIfFalse => m.branch s false o.int.toInt
  | .jumpIfTrue => m.branch s true o.int.toInt
  | .leave => leaveTo s m o.int.toInt o.int2.toInt
  | .halt => .failed (.halt .null) m
  | .call => m.reply (m.calleeOfName s o.name) fun callee m => m.call s callee o.int.toInt 0
  | .callIndirect => m.peek s o.int.toInt fun callee => m.call s callee o.int.toInt 1
  | .callMethod =>
    m.peek s o.int.toInt fun receiver =>
      m.reply (m.world.loadMember s.program (m.place s) receiver o.name) fun callee m =>
        m.call s callee o.int.toInt 1
  | .pushClosure => m.pushClosure s o.name
  | .ret => m.pop s fun v m => m.giveBack v
  | .makeArray => m.makeArray s o.int.toInt
  | .makeDict => m.makeDict s o.int
  | .indexGet =>
    m.pop2 s fun obj idx m => m.pushReply (m.world.indexGet s.program (m.place s) obj idx)
  | .indexSet => m.indexSet s
  | .sliceGet => m.pop3 s fun obj start stop m => m.pushReply (m.world.sliceGet obj start stop)
  | .newObject => m.newObject s o.name
  | .loadMember =>
    m.pop s fun v m => m.pushReply (m.world.loadMember s.program (m.place s) v o.name)
  | .storeMember => m.pop2 s fun obj v m => m.storeMember s obj o.name v
  | .loadStatic =>
    m.withType s o.name fun t => m.pushReply (m.world.typeMember s.program (m.place s) t o.member)
  | .storeStatic =>
    m.withType s o.name fun t => m.pop s fun v m => m.storeMember s (.type t) o.member v
  | .pushType => m.withType s o.name fun t => .next (m.push (.type t))
  | .tryPush => .next (m.pushHandler s o.int.toInt o.int2.toInt)
  | .tryPop => m.popHandler s
  | .throw => m.pop s fun v m => .failed (m.thrown v) m
  | .endFinally => endFinally s m
  | .print => m.pop s fun v m => m.print v

/-- Executes one instruction. -/
def step (m : Machine) (ins : Instruction) : Effect :=
  match Opcode.ofCode? ins.op with
  | some op => m.perform s ins.operand op
  | none => .failed (m.fault s (.unknownOpcode ins.op)) m

end BytecodeMachine.Machine
