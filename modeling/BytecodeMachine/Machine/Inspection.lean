import BytecodeMachine.Machine.Host

/-!
A host whose functions let a program look at the machine it runs on, and fail or arrive in every way
a host function can.
-/
namespace BytecodeMachine.Inspection

def numbers (d : Depths) : List Value := [d.scopes, d.calls, d.handlers, d.stack].map .ofNat

def subclassOf (view : HostView) : List Value → HostReply
  | [.cls a, .cls b] => .value (.bool (view.program.isSubclass a.key b.key))
  | _ => .failure (.of (.custom "TypeError" "isSubclass expects classes"))

def textOf (view : HostView) (args : List Value) : Text :=
  match args with
  | v :: _ => view.store.text v
  | [] => []

def raised (view : HostView) : List Value → HostReply
  | [kind, message] => .failure (.of (.custom (view.store.text kind) (view.store.text message)))
  | _ => .value .null

/-- Settles a deferred once for each character: `v` resolves it with the position, all else rejects
it. -/
def settled (marks : List Rune) : Deferred :=
  marks.zipIdx.foldl (fun d e =>
    if e.1.char = 'v' then d.resolve (.ofNat e.2)
    else d.reject (.host ("rejected " ++ Text.ofNat e.2))) .pending

/-- The address that an injected fault names. -/
def faultAddress : Int := 4660

def functions : List HostFunction :=
  [ { name := "state", arity := ⟨0, none⟩, call := fun view _ => .newArray (numbers view.depths) },
    { name := "repr", arity := .exactly 1
      call := fun view args => .value (.string (view.store.repr (args.headD .null))) },
    { name := "truthy", arity := .exactly 1
      call := fun view args => .value (.bool (view.store.truthy (args.headD .null))) },
    { name := "isSubclass", arity := .exactly 2, call := subclassOf },
    { name := "hostError", arity := .exactly 1
      call := fun view args => .failure (.host (textOf view args)) },
    { name := "hostRaise", arity := .exactly 2, call := raised },
    { name := "hostFault", arity := .exactly 1
      call := fun view args => .failure (.fault ⟨faultAddress, [], .custom (textOf view args)⟩) },
    { name := "hostCancel", arity := .exactly 0, call := fun _ _ => .cancel },
    { name := "hostCanceled", arity := .exactly 0
      call := fun _ _ => .failure (.stopped .cancelled) },
    { name := "hostNil", arity := .exactly 0, call := fun _ _ => .wait none },
    { name := "hostResolved", arity := .exactly 1
      call := fun _ args => .wait (some (.settled (.ok (args.headD .null)))) },
    { name := "hostSettle", arity := .exactly 1
      call := fun view args => .wait (some (settled (textOf view args).runes)) } ]

end BytecodeMachine.Inspection
