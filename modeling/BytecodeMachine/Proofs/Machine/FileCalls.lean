import BytecodeMachine.Proofs.Machine.Handles
import BytecodeMachine.Proofs.Machine.Invocations

/-! The calls of files that the steps of a machine make. A step that opens a file or calls a method of
one does to the files what that call does, and any other step leaves them as they are. -/
namespace BytecodeMachine

/-- The handles, the disk and the table of open files. -/
def World.files (w : World) : Array FileHandle × Disk × List Nat :=
  (w.store.handles, w.disk, w.openFiles)

theorem World.files_of_records {w w' : World} (same : w'.records = w.records) :
    w'.files = w.files := congrArg Prod.snd same

namespace FileCall

/-- What opening a file with some arguments asks for. -/
def ofOpen? : List Value → Option FileCall
  | [] => none
  | path :: mode =>
    match path.toText "open", optionalText "open" "r" mode with
    | .ok path, .ok mode => some (.open path mode)
    | _, _ => none

/-- What a method of an open file asks for. -/
def ofMethod? (w : World) (id : Nat) : Intrinsic → List Value → Option FileCall
  | .fileWrite, [v] => some (.write id (w.text v))
  | .fileWriteLine, [v] => some (.write id (w.text v ++ [10]))
  | .fileFlush, _ => some (.flush id)
  | .fileClose, _ => some (.close id)
  | .fileReadLine, _ => some (.readLine id)
  | .fileReadAll, _ => some (.readAll id)
  | _, _ => none

/-- What a call asks of files. -/
def of? (w : World) (callee : Value) (args : List Value) : Option FileCall :=
  match Target.of callee args with
  | .builtin (.standard .openFile) => ofOpen? args
  | .method im (.file id) args => ofMethod? w id im args
  | _ => none

theorem standard_openFile (w : World) (bufferSize : Nat) (args : List Value) :
    (∃ call, ofOpen? args = some call ∧
      w.standard bufferSize .openFile args = call.reply bufferSize w) ∨
    ofOpen? args = none ∧ (w.standard bufferSize .openFile args).2 = w := by
  cases args with
  | nil => exact .inr ⟨rfl, rfl⟩
  | cons path mode =>
    unfold World.standard ofOpen?
    dsimp only
    cases path.toText "open" with
    | error e => exact .inr ⟨rfl, rfl⟩
    | ok path =>
      cases optionalText "open" "r" mode with
      | error e => exact .inr ⟨rfl, rfl⟩
      | ok mode => exact .inl ⟨.open path mode, rfl, rfl⟩

theorem fileMethod_eq (bufferSize : Nat) (w : World) (id : Nat) (im : Intrinsic) (args : List Value) :
    (∃ call, ofMethod? w id im args = some call ∧ Machine.loopOf? [] im args = none ∧
      w.fileMethod im id args = call.reply bufferSize w) ∨
    ofMethod? w id im args = none ∧ (w.fileMethod im id args).2 = w := by
  unfold ofMethod?
  split
  · exact .inl ⟨_, rfl, rfl, rfl⟩
  · exact .inl ⟨_, rfl, rfl, rfl⟩
  · exact .inl ⟨_, rfl, rfl, rfl⟩
  · exact .inl ⟨_, rfl, rfl, rfl⟩
  · exact .inl ⟨_, rfl, rfl, rfl⟩
  · exact .inl ⟨_, rfl, rfl, rfl⟩
  · refine .inr ⟨rfl, ?_⟩
    unfold World.fileMethod
    split <;> first | rfl | simp_all

/-- A call does the same to the files in any world that has them. -/
theorem files_perform_congr {w w' : World} (same : w'.files = w.files) (bufferSize : Nat)
    (call : FileCall) : (call.perform bufferSize w').files = (call.perform bufferSize w).files := by
  have hsame := same
  simp only [World.files, Prod.mk.injEq] at same
  obtain ⟨handles, disk, openFiles⟩ := same
  have hhandle (id : Nat) : w'.store.handle id = w.store.handle id := by
    unfold Store.handle
    rw [handles]
  have hkeep (id : Nat) (h : FileHandle) (d : Disk) :
      (w'.keepHandle id h d).files = (w.keepHandle id h d).files := by
    unfold World.keepHandle World.files Store.setHandle
    rw [handles, openFiles]
  cases call with
  | «open» path mode =>
    rw [World.performs_open, World.performs_open]
    unfold World.openFile
    rw [disk]
    split
    · exact hsame
    · split
      · exact hsame
      · next h d _ =>
        change (w'.store.handles.push h, d, w'.store.handles.size :: w'.openFiles) = _
        rw [handles, openFiles]
        rfl
  | close id =>
    have hopen (v v' : World) (hv : v'.files = v.files) :
        { v' with openFiles := w'.openFiles.filter (· ≠ id) }.files =
          { v with openFiles := w.openFiles.filter (· ≠ id) }.files := by
      simp only [World.files, Prod.mk.injEq] at hv ⊢
      exact ⟨hv.1, hv.2.1, by rw [openFiles]⟩
    rw [World.performs_close, World.performs_close, World.closeFile_fst, World.closeFile_fst]
    refine hopen _ _ ?_
    rw [hhandle, disk]
    split
    · exact hsame
    · exact hkeep _ _ _
  | write id t =>
    change (w'.writeText id t).2.files = (w.writeText id t).2.files
    unfold World.writeText
    rw [hhandle, disk]
    dsimp only
    split
    · exact hsame
    · rw [World.afterWrite_snd, World.afterWrite_snd, hkeep]
  | flush id =>
    change (w'.flushFile id).2.files = (w.flushFile id).2.files
    unfold World.flushFile
    rw [hhandle, disk]
    dsimp only
    split
    · exact hsame
    · rw [World.afterWrite_snd, World.afterWrite_snd, hkeep]
  | readLine id =>
    change (w'.readLine id).2.files = (w.readLine id).2.files
    unfold World.readLine
    rw [hhandle, disk]
    dsimp only
    split
    · exact hsame
    · split
      · exact hkeep _ _ _
      · split <;> exact hkeep _ _ _
  | readAll id =>
    change (w'.readAll id).2.files = (w.readAll id).2.files
    unfold World.readAll
    rw [hhandle, disk]
    dsimp only
    split
    · exact hsame
    · split <;> exact hkeep _ _ _

end FileCall

namespace Machine

variable {s : Setup} {m : Machine}

/-- A native call that asks something of files gives the answer. -/
theorem callNative_of_fileCall {callee : Value} {args : List Value} {call : FileCall}
    (hcall : FileCall.of? m.world callee args = some call) (nested : Bool) :
    callNative s m nested callee args =
      m.answer callee.calleeName (call.reply s.bufferSize m.world) := by
  unfold FileCall.of? at hcall
  unfold callNative
  split at hcall
  · next ht =>
    obtain ⟨call', hopen, hreply⟩ | ⟨hnone, -⟩ :=
      FileCall.standard_openFile m.world s.bufferSize args
    · obtain rfl : call' = call := Option.some.inj (hopen.symm.trans hcall)
      rw [ht, ← hreply]
      rfl
    · cases hnone.symm.trans hcall
  · next im id args' ht =>
    obtain ⟨call', hmethod, hloop, hreply⟩ | ⟨hnone, -⟩ :=
      FileCall.fileMethod_eq s.bufferSize m.world id im args'
    · obtain rfl : call' = call := Option.some.inj (hmethod.symm.trans hcall)
      have hname : callee.calleeName = im.name := by
        unfold Target.of at ht
        split at ht <;> cases ht <;> rfl
      rw [ht, hname, ← hreply]
      dsimp only
      unfold callMethod
      dsimp only
      rw [hloop]
      rfl
    · cases hnone.symm.trans hcall
  · cases hcall

/-- Any other call makes an exception, or it leaves the exceptions and the files as they are. -/
theorem callNative_of_none {callee : Value} {args : List Value}
    (hcall : FileCall.of? m.world callee args = none) (nested : Bool) :
    (∃ name kind message payload, callNative s m nested callee args =
        m.answer name (m.world.makeException kind message payload)) ∨
      (callNative s m nested callee args).machine.world.records = m.world.records := by
  unfold FileCall.of? at hcall
  unfold callNative
  cases ht : Target.of callee args with
  | function c self => exact .inr rfl
  | nobody => exact .inr rfl
  | builtin b =>
    rw [ht] at hcall
    have hstays (h : (callBuiltin s m b args).2.records = m.world.records) :
        (m.answer callee.calleeName (callBuiltin s m b args)).machine.world.records =
          m.world.records := h
    cases b with
    | host name =>
      refine .inr (hstays ?_)
      unfold callBuiltin
      dsimp only
      split
      · exact World.records_carryOut _ _
      · rfl
    | standard f =>
      by_cases hopen : f = .openFile
      · subst hopen
        obtain ⟨call, hopen, -⟩ | ⟨-, hsame⟩ :=
          FileCall.standard_openFile m.world s.bufferSize args
        · cases hopen.symm.trans hcall
        · exact .inr (hstays (congrArg World.records hsame))
      · by_cases hexception : f = .exception
        · subst hexception
          obtain ⟨kind, message, payload, hmade⟩ | hsame :=
            World.standard_exception m.world s.bufferSize args
          · exact .inl ⟨_, kind, message, payload, congrArg (m.answer _) hmade⟩
          · exact .inr (hstays (congrArg World.records hsame))
        · exact .inr (hstays (World.records_standard _ _ hexception hopen _))
  | method im receiver args' =>
    rw [ht] at hcall
    right
    dsimp only
    unfold callMethod
    dsimp only
    split
    · rfl
    · rfl
    · change (m.world.method s.program (m.place s) im receiver args').2.records = m.world.records
      by_cases hfile : ∃ id, receiver = .file id
      · obtain ⟨id, rfl⟩ := hfile
        obtain ⟨call, hmethod, -⟩ | ⟨-, hsame⟩ :=
          FileCall.fileMethod_eq s.bufferSize m.world id im args'
        · cases hmethod.symm.trans hcall
        · exact congrArg World.records hsame
      · refine World.records_method _ _ ?_ _
        exact fun id hid => hfile ⟨id, hid⟩

/-- What a call does to the files. -/
theorem files_callNative (callee : Value) (args : List Value) (nested : Bool) :
    (callNative s m nested callee args).machine.world.files =
      ((FileCall.of? m.world callee args).elim m.world
        fun call => call.perform s.bufferSize m.world).files := by
  cases hcall : FileCall.of? m.world callee args with
  | none =>
    obtain ⟨name, kind, message, payload, hmade⟩ | hsame := callNative_of_none hcall nested
    · rw [hmade]
      rfl
    · exact World.files_of_records hsame
  | some call =>
    rw [callNative_of_fileCall hcall nested]
    rfl

/-! Steps. -/

/-- An exception that is made or stamped is no matter of files. -/
theorem files_fail (inside : Bool) (f : Failure) (m : Machine) (loops : List Loop) :
    (fail s inside f m loops).machine.world.files = m.world.files := by
  refine fail_world (R := fun w w' => w'.files = w.files) (fun _ => rfl)
    (fun h h' => h'.trans h) (fun {m q f exc} he => ?_) inside f m loops
  have hmade : q.world.files = m.world.files := by
    unfold exceptionOf at he
    split at he <;> cases he <;> rfl
  rw [← hmade]
  unfold stamp
  dsimp only
  split <;> rfl

theorem files_deliver (m : Machine) (v : Value) :
    (m.deliver v).machine.world.files = m.world.files :=
  congrArg World.files (m.deliver_world v)

theorem files_settle (e : Effect) : (settle s e).machine.world.files = e.machine.world.files := by
  cases e with
  | next n => rfl
  | returned v n => exact files_deliver n v
  | failed f n => exact files_fail true f n n.loops

/-- What the next step of a machine asks of files. -/
def fileCall? (s : Setup) (m : Machine) : Option FileCall :=
  (m.invocation? s).bind fun c => FileCall.of? c.machine.world c.callee c.args

theorem files_elim_congr {w w' : World} (same : w'.files = w.files) (call : Option FileCall) :
    (call.elim w' fun call => call.perform s.bufferSize w').files =
      (call.elim w fun call => call.perform s.bufferSize w).files := by
  cases call with
  | none => exact same
  | some call => exact FileCall.files_perform_congr same s.bufferSize call

theorem files_carryOut (m : Machine) (callee : Value) (args : List Value) :
    (carryOut s m callee args).machine.world.files =
      (callNative s m false callee args).machine.world.files := by
  unfold carryOut
  split
  · next ht =>
    unfold callNative
    rw [ht]
    rfl
  · cases callNative s m false callee args with
    | answered r n => cases r <;> rfl
    | loops l n => rfl

/-- A native loop calls its callee back unless it refuses to. -/
theorem files_callBack (m : Machine) (callee : Value) (args : List Value) :
    (m.callBack s callee args).machine.world.files =
      ((if (callbackRefusal? s callee args).isNone then FileCall.of? m.world callee args
        else none).elim m.world fun call => call.perform s.bufferSize m.world).files := by
  unfold callBack
  cases callbackRefusal? s callee args with
  | some e => exact files_fail false _ m m.loops
  | none =>
    have hcall := files_callNative (s := s) (m := m) callee args true
    rw [if_pos Option.isNone_none]
    dsimp only
    split
    · next c self ht =>
      have hnone : FileCall.of? m.world callee args = none := by
        unfold FileCall.of?
        rw [ht]
      rw [hnone]
      split
      · exact files_fail false _ m m.loops
      · rfl
    · rw [← hcall]
      split
      · next v n heq =>
        rw [heq]
        exact files_deliver n v
      · next f n heq =>
        rw [heq]
        exact files_fail false f n n.loops
      · next heq =>
        rw [heq]
        rfl

/-- A step does to the files what it asks of them, and nothing else. -/
theorem files_advance (m : Machine) :
    (m.advance s).machine.world.files =
      ((m.fileCall? s).elim m.world fun call => call.perform s.bufferSize m.world).files := by
  unfold advance fileCall?
  cases control : m.control with
  | fetch =>
    cases has : s.program.instruction? m.ip with
    | none =>
      have hcall : m.invocation? s = none := by
        unfold invocation?
        rw [control]
        dsimp only
        rw [has]
      unfold fetch
      rw [hcall, has]
      dsimp only
      split
      · exact files_deliver m .null
      · exact files_fail true _ _ _
    | some ins =>
      cases go : m.tick.stopBefore? with
      | some reason =>
        have hcall : m.invocation? s = none := by
          unfold invocation?
          rw [control]
          dsimp only
          rw [has, go]
        unfold fetch
        rw [hcall, has]
        dsimp only
        rw [go]
        exact files_fail true _ _ _
      | none =>
        have hbegun := World.files_of_records (m.records_begun (s := s) ins)
        dsimp only
        rw [fetch_eq_settle has go, files_settle]
        obtain ⟨c, hcall, hby, hstep⟩ | ⟨hcall, hstep⟩ := step_carriesOut control has go
        · have hsame := (World.files_of_records hby.records).trans hbegun
          rw [hcall, hstep, files_carryOut, files_callNative]
          exact files_elim_congr hsame _
        · rw [hcall]
          exact (World.files_of_records hstep.records).trans hbegun
  | iterate =>
    unfold invocation? iterate
    rw [control]
    dsimp only
    cases m.loops with
    | nil => rfl
    | cons l loops =>
      dsimp only
      cases l.rest with
      | nil =>
        have hresult := World.files_of_records (l.records_result m.world)
        unfold endLoop
        dsimp only
        split
        · exact (files_deliver _ _).trans hresult
        · exact hresult
      | cons e rest =>
        dsimp only
        rw [files_callBack]
        split <;> rfl

/-- A native loop goes on with the answer that it gets, or it fails with the error. -/
theorem callBack_of_fileCall {callee : Value} {args : List Value} {call : FileCall}
    (hcall : FileCall.of? m.world callee args = some call)
    (accepted : callbackRefusal? s callee args = none) :
    (∀ v w, call.reply s.bufferSize m.world = (.ok v, w) →
      callBack s m callee args = deliver { m with world := w } v) ∧
    ∀ f w, call.reply s.bufferSize m.world = (.error f, w) → callBack s m callee args =
      fail s false (f.named callee.calleeName) { m with world := w } m.loops := by
  have hnative := callNative_of_fileCall (s := s) hcall true
  unfold callBack
  rw [accepted]
  dsimp only
  split
  · next ht =>
    unfold FileCall.of? at hcall
    rw [ht] at hcall
    cases hcall
  · refine ⟨fun v w hr => ?_, fun f w hr => ?_⟩
    · rw [hnative, hr]
      rfl
    · rw [hnative, hr]
      rfl

/-- A step that asks something of files goes on with the answer, or it fails with the error. -/
theorem advance_of_fileCall {call : FileCall} (hcall : m.fileCall? s = some call) :
    ∃ (n : Machine) (name : Text) (inside : Bool), n.world.files = m.world.files ∧
      (∀ v w, call.reply s.bufferSize n.world = (.ok v, w) →
        m.advance s = .running (push { n with world := w } v) ∨
          m.advance s = deliver { n with world := w } v) ∧
      ∀ f w, call.reply s.bufferSize n.world = (.error f, w) →
        m.advance s = fail s inside (f.named name) { n with world := w } n.loops := by
  obtain ⟨c, hinvocation, hc⟩ := Option.bind_eq_some_iff.1 hcall
  have htarget : ∀ g self, Target.of c.callee c.args ≠ .function g self := by
    intro g self ht
    unfold FileCall.of? at hc
    rw [ht] at hc
    cases hc
  cases control : m.control with
  | fetch =>
    have hstarts : ∃ ins, s.program.instruction? m.ip = some ins ∧ m.tick.stopBefore? = none := by
      unfold invocation? at hinvocation
      rw [control] at hinvocation
      dsimp only at hinvocation
      split at hinvocation
      · next ins has go => exact ⟨ins, has, go⟩
      · cases hinvocation
    obtain ⟨ins, has, go⟩ := hstarts
    obtain ⟨c', hinvocation', hby, hstep⟩ | ⟨hnone, -⟩ := step_carriesOut (s := s) control has go
    · obtain rfl : c' = c := Option.some.inj (hinvocation'.symm.trans hinvocation)
      have hadvance : m.advance s =
          settle s (c'.machine.answer c'.callee.calleeName
            (call.reply s.bufferSize c'.machine.world)).effect := by
        rw [advance_of_fetch control, fetch_eq_settle has go, hstep, carryOut_eq_effect htarget,
          callNative_of_fileCall hc]
      have hsame := World.files_of_records (hby.records.trans (m.records_begun ins))
      refine ⟨c'.machine, c'.callee.calleeName, true, hsame, fun v w hr => ?_, fun f w hr => ?_⟩
      · rw [hadvance, hr]
        exact .inl rfl
      · rw [hadvance, hr]
        rfl
    · cases hnone.symm.trans hinvocation
  | iterate =>
    obtain ⟨hworld, accepted, hadvance⟩ := advance_of_invocation? control hinvocation
    obtain ⟨hok, herror⟩ := callBack_of_fileCall hc accepted
    rw [hadvance]
    exact ⟨c.machine, c.callee.calleeName, false, congrArg World.files hworld,
      fun v w hr => .inr (hok v w hr), herror⟩

end Machine

end BytecodeMachine
