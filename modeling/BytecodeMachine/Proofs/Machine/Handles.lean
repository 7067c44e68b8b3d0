import BytecodeMachine.Machine.Session
import BytecodeMachine.Proofs.Files.Buffered
import BytecodeMachine.Proofs.Files.Lines

/-! The methods of open files. What a program asks of files is one of six calls, each about one handle
and its file. A handle that is in order for writing takes what is written and stays in order whatever
is asked of other handles, unless one of them writes to the same file. -/
namespace BytecodeMachine

/-- What a program asks of files. -/
inductive FileCall where
  | open (path mode : Text)
  | write (id : ℕ) (t : Text)
  | flush (id : ℕ)
  | close (id : ℕ)
  | readLine (id : ℕ)
  | readAll (id : ℕ)
deriving DecidableEq

namespace FileCall

/-- The answer to a call, and the world it leaves. -/
def reply (bufferSize : ℕ) (w : World) : FileCall → Reply Value
  | .open path mode => w.openFile bufferSize path mode
  | .write id t => w.writeText id t
  | .flush id => w.flushFile id
  | .close id => w.fileMethod .fileClose id []
  | .readLine id => w.readLine id
  | .readAll id => w.readAll id

def perform (bufferSize : ℕ) (w : World) (call : FileCall) : World := (call.reply bufferSize w).2

/-- The handle that a call is about; opening makes a new one. -/
def target? : FileCall → Option ℕ
  | .open _ _ => none
  | .write id _ | .flush id | .close id | .readLine id | .readAll id => some id

/-- The bytes that a call writes through a handle, which are none where the handle is closed. -/
def written (w : World) (id : ℕ) : FileCall → Text
  | .write target t => if target = id ∧ (w.store.handle id).closed = false then t else []
  | _ => []

end FileCall

namespace World

variable {w w' : World} {id other node bufferSize : ℕ} {all t : Text} {call : FileCall}

/-- A handle that is in order for writing to a file. Once it is closed nothing is left in its buffer. -/
structure Writes (w : World) (id node : ℕ) (all : Text) : Prop where
  there : id < w.store.handles.size
  node : (w.store.handle id).node = node
  holds : (w.store.handle id).Holds w.disk all
  idle : (w.store.handle id).closed = true → (w.store.handle id).buffer = []

/-- A handle whose file no other open handle can write to. -/
def SoleWriter (w : World) (id node : ℕ) : Prop :=
  ∀ other < w.store.handles.size, other ≠ id → (w.store.handle other).closed = false →
    (w.store.handle other).mode ≠ .read → (w.store.handle other).node ≠ node

/-- What a call about a handle may change: the state of that handle, and its file where the handle
is open and not for reading. Only one call closes the handle. -/
structure Handled (w : World) (id : ℕ) (closes : Bool) (w' : World) : Prop where
  size : w'.store.handles.size = w.store.handles.size
  others : ∀ j, j ≠ id → w'.store.handle j = w.store.handle j
  node : (w'.store.handle id).node = (w.store.handle id).node
  mode : (w'.store.handle id).mode = (w.store.handle id).mode
  closed : id < w.store.handles.size →
    (w'.store.handle id).closed = ((w.store.handle id).closed || closes)
  refused : (w.store.handle id).closed = true → w' = { w with openFiles := w'.openFiles }
  reading : (w.store.handle id).mode = .read → w'.disk = w.disk
  nodes : ∀ j, j ≠ (w.store.handle id).node → w'.disk.node j = w.disk.node j

/-! Handles that are kept. -/

theorem handle_keepHandle (w : World) (id : ℕ) (h : FileHandle) (d : Disk) :
    (w.keepHandle id h d).store.handle id =
      if id < w.store.handles.size then h else w.store.handle id := by
  unfold keepHandle Store.setHandle Store.handle
  dsimp only
  rw [Array.getElem?_setIfInBounds]
  split
  · split
    · rfl
    · next hout => rw [Array.getElem?_eq_none (Nat.le_of_not_lt hout)]
  · next hne => exact absurd rfl hne

theorem handle_keepHandle_of_ne (hne : other ≠ id) (w : World) (h : FileHandle) (d : Disk) :
    (w.keepHandle id h d).store.handle other = w.store.handle other := by
  unfold keepHandle Store.setHandle Store.handle
  dsimp only
  rw [Array.getElem?_setIfInBounds_ne hne.symm]

theorem handled_keepHandle {h : FileHandle} {d : Disk} {closes : Bool}
    (isOpen : (w.store.handle id).closed = false)
    (node : h.node = (w.store.handle id).node) (mode : h.mode = (w.store.handle id).mode)
    (closed : h.closed = closes)
    (reading : (w.store.handle id).mode = .read → d = w.disk)
    (nodes : ∀ j, j ≠ (w.store.handle id).node → d.node j = w.disk.node j) :
    w.Handled id closes (w.keepHandle id h d) where
  size := Array.size_setIfInBounds
  others _ hj := handle_keepHandle_of_ne hj w h d
  node := by
    rw [handle_keepHandle]
    split
    · exact node
    · rfl
  mode := by
    rw [handle_keepHandle]
    split
    · exact mode
    · rfl
  closed there := by
    rw [handle_keepHandle, if_pos there, closed, isOpen]
    rfl
  refused hclosed := by
    rw [isOpen] at hclosed
    cases hclosed
  reading := reading
  nodes := nodes

theorem Handled.refl (w : World) (id : ℕ) : w.Handled id false w :=
  ⟨rfl, fun _ _ => rfl, rfl, rfl, fun _ => (Bool.or_false _).symm, fun _ => rfl, fun _ => rfl,
    fun _ _ => rfl⟩

theorem afterWrite_snd (w : World) (h : FileHandle) : (w.afterWrite h).2 = w := by
  unfold afterWrite
  split <;> rfl

theorem notWritable?_eq_none {h : FileHandle} :
    notWritable? h = none ↔ h.closed = false ∧ h.mode ≠ .read := by
  unfold notWritable?
  cases h.closed <;> simp

theorem notReadable?_eq_none {h : FileHandle} :
    notReadable? h = none ↔ h.closed = false ∧ h.mode = .read := by
  unfold notReadable?
  cases h.closed <;> simp

/-! What a call changes. -/

theorem handled_writeText (w : World) (id : ℕ) (t : Text) : w.Handled id false (w.writeText id t).2 := by
  unfold writeText
  dsimp only
  split
  · exact .refl w id
  · next hok =>
    obtain ⟨isOpen, hmode⟩ := notWritable?_eq_none.1 hok
    have htouch := FileHandle.writeRounds_touches 3 (w.store.handle id) w.disk t
    rw [afterWrite_snd]
    exact handled_keepHandle isOpen htouch.node htouch.mode (htouch.closed.trans isOpen)
      (fun h => absurd h hmode) htouch.others

theorem handled_flushFile (w : World) (id : ℕ) : w.Handled id false (w.flushFile id).2 := by
  unfold flushFile
  dsimp only
  split
  · exact .refl w id
  · next hok =>
    obtain ⟨isOpen, hmode⟩ := notWritable?_eq_none.1 hok
    have htouch := FileHandle.flush_touches (w.store.handle id) w.disk
    rw [afterWrite_snd]
    exact handled_keepHandle isOpen htouch.node htouch.mode (htouch.closed.trans isOpen)
      (fun h => absurd h hmode) htouch.others

theorem handled_readLine (w : World) (id : ℕ) : w.Handled id false (w.readLine id).2 := by
  unfold readLine
  dsimp only
  split
  · exact .refl w id
  · next hok =>
    obtain ⟨isOpen, -⟩ := notReadable?_eq_none.1 hok
    obtain ⟨buffer, offset, hkeeps⟩ := FileHandle.readRounds_keeps
      (2 * (w.disk.content (w.store.handle id).node).length + 4) (w.store.handle id) w.disk []
    have hkept : w.Handled id false (w.keepHandle id ((w.store.handle id).readLine w.disk).2 w.disk) := by
      rw [FileHandle.readLine, hkeeps]
      exact handled_keepHandle isOpen rfl rfl isOpen (fun _ => rfl) fun _ _ => rfl
    split
    · next hread => rwa [hread] at hkept
    · next hread =>
      rw [hread] at hkept
      split <;> exact hkept

theorem handled_readAll (w : World) (id : ℕ) : w.Handled id false (w.readAll id).2 := by
  unfold readAll
  dsimp only
  split
  · exact .refl w id
  · next hok =>
    obtain ⟨isOpen, -⟩ := notReadable?_eq_none.1 hok
    obtain ⟨buffer, offset, hkeeps⟩ := FileHandle.readAll_keeps (w.store.handle id) w.disk
    have hkept : w.Handled id false (w.keepHandle id ((w.store.handle id).readAll w.disk).2 w.disk) := by
      rw [hkeeps]
      exact handled_keepHandle isOpen rfl rfl isOpen (fun _ => rfl) fun _ _ => rfl
    split
    · next hread => rwa [hread] at hkept
    · next hread => rwa [hread] at hkept

/-- A handle taken out of the table of open files, and closed where it is not. -/
theorem closeFile_fst (w : World) (id : ℕ) : (w.closeFile id).1 =
    { (if (w.store.handle id).closed then w
        else w.keepHandle id ((w.store.handle id).close w.disk).1
          ((w.store.handle id).close w.disk).2) with
      openFiles := w.openFiles.filter (· ≠ id) } := by
  unfold closeFile
  dsimp only
  split <;> rfl

theorem Handled.with_openFiles {closes : Bool} (h : w.Handled id closes w') (ids : List ℕ) :
    w.Handled id closes { w' with openFiles := ids } := by
  refine { h with refused := fun hclosed => ?_ }
  rw [h.refused hclosed]

theorem handled_closeFile (w : World) (id : ℕ) : w.Handled id true (w.closeFile id).1 := by
  rw [closeFile_fst]
  refine Handled.with_openFiles ?_ _
  cases isOpen : (w.store.handle id).closed with
  | true =>
    rw [if_pos rfl]
    exact { Handled.refl w id with closed := fun _ => by rw [isOpen]; rfl }
  | false =>
    have htouch := FileHandle.flush_touches (w.store.handle id) w.disk
    unfold FileHandle.close
    rw [isOpen]
    by_cases hmode : (w.store.handle id).mode = .read
    · simp only [hmode, if_true]
      exact handled_keepHandle isOpen rfl hmode.symm rfl (fun _ => rfl) fun _ _ => rfl
    · simp only [hmode, if_false]
      exact handled_keepHandle isOpen htouch.node htouch.mode rfl (fun h => absurd h hmode)
        htouch.others

theorem snd_fileClose (w : World) (id : ℕ) :
    (w.fileMethod .fileClose id []).2 = (w.closeFile id).1 := by
  unfold fileMethod
  dsimp only
  split
  · next hclose => rw [hclose]; rfl
  · next hclose => rw [hclose]; rfl

theorem performs_open (bufferSize : ℕ) (w : World) (path mode : Text) :
    (FileCall.open path mode).perform bufferSize w = (w.openFile bufferSize path mode).2 := rfl

theorem performs_close (bufferSize : ℕ) (w : World) (id : ℕ) :
    (FileCall.close id).perform bufferSize w = (w.closeFile id).1 := snd_fileClose w id

theorem handled_perform (htarget : call.target? = some id) :
    w.Handled id (call = .close id) (call.perform bufferSize w) := by
  cases call with
  | «open» path mode => cases htarget
  | write id' t => cases htarget; exact handled_writeText w id t
  | flush id' => cases htarget; exact handled_flushFile w id
  | close id' =>
    cases htarget
    rw [performs_close, decide_eq_true rfl]
    exact handled_closeFile w id
  | readLine id' => cases htarget; exact handled_readLine w id
  | readAll id' => cases htarget; exact handled_readAll w id

/-! A handle in order. -/

theorem Writes.mode (hw : w.Writes id node all) : (w.store.handle id).mode ≠ .read := by
  obtain ⟨c, -, -, hend⟩ := hw.holds.file
  exact hend.writes

/-- An operation on the handle leaves it in order. -/
theorem Writes.keep {h : FileHandle} {d : Disk} {all' : Text} (hw : w.Writes id node all)
    (hnode : h.node = (w.store.handle id).node) (holds : h.Holds d all')
    (idle : h.closed = true → h.buffer = []) : (w.keepHandle id h d).Writes id node all' := by
  have hhandle : (w.keepHandle id h d).store.handle id = h := by
    rw [handle_keepHandle, if_pos hw.there]
  refine ⟨Array.size_setIfInBounds.symm ▸ hw.there, ?_, ?_, ?_⟩
  all_goals rw [hhandle]
  · exact hnode.trans hw.node
  · exact holds
  · exact idle

theorem Writes.leave {r : FileHandle × Disk} {all' : Text} (hw : w.Writes id node all)
    (isOpen : (w.store.handle id).closed = false)
    (hr : (w.store.handle id).Leaves w.disk all' r) :
    (w.keepHandle id r.1 r.2).Writes id node all' := by
  refine hw.keep (by rw [hr.handle]) hr.holds fun hclosed => ?_
  rw [hr.handle] at hclosed
  cases hclosed.symm.trans isOpen

theorem afterWrite_of_sound {h : FileHandle} (hsound : h.failure = none) (w : World) :
    w.afterWrite h = (.ok .null, w) := by
  unfold afterWrite
  rw [hsound]
  rfl

theorem Writes.writeText_eq (hw : w.Writes id node all)
    (isOpen : (w.store.handle id).closed = false) (t : Text) : w.writeText id t =
      (.ok .null, w.keepHandle id ((w.store.handle id).write w.disk t).1
        ((w.store.handle id).write w.disk t).2) := by
  have hok : World.notWritable? (w.store.handle id) = none :=
    notWritable?_eq_none.2 ⟨isOpen, hw.mode⟩
  unfold World.writeText
  dsimp only
  rw [hok]
  exact afterWrite_of_sound (FileHandle.write_leaves hw.holds t).holds.sound _

theorem Writes.flushFile_eq (hw : w.Writes id node all)
    (isOpen : (w.store.handle id).closed = false) : w.flushFile id =
      (.ok .null, w.keepHandle id ((w.store.handle id).flush w.disk).1
        ((w.store.handle id).flush w.disk).2) := by
  have hok : World.notWritable? (w.store.handle id) = none :=
    notWritable?_eq_none.2 ⟨isOpen, hw.mode⟩
  unfold World.flushFile
  dsimp only
  rw [hok]
  exact afterWrite_of_sound (FileHandle.flush_leaves hw.holds).1.holds.sound _

theorem Writes.closeFile_eq (hw : w.Writes id node all)
    (isOpen : (w.store.handle id).closed = false) : w.closeFile id =
      ({ w.keepHandle id { ((w.store.handle id).flush w.disk).1 with closed := true }
          ((w.store.handle id).flush w.disk).2 with
        openFiles := w.openFiles.filter (· ≠ id) }, none) := by
  have hclose : (w.store.handle id).close w.disk =
      ({ ((w.store.handle id).flush w.disk).1 with closed := true },
        ((w.store.handle id).flush w.disk).2) := by
    unfold FileHandle.close
    rw [isOpen, if_neg nofun, if_neg hw.mode]
  unfold World.closeFile
  dsimp only
  rw [isOpen, hclose]
  exact Prod.ext rfl (FileHandle.flush_leaves hw.holds).1.holds.sound

/-- What is written through an open handle comes after all that has been written. -/
theorem Writes.writeText (hw : w.Writes id node all) (isOpen : (w.store.handle id).closed = false)
    (t : Text) : (w.writeText id t).2.Writes id node (all ++ t) ∧
      w.disk.content node <+: (w.writeText id t).2.disk.content node := by
  have hleaves := FileHandle.write_leaves hw.holds t
  have hgrows := hleaves.grows
  rw [hw.node] at hgrows
  rw [hw.writeText_eq isOpen]
  exact ⟨hw.leave isOpen hleaves, hgrows⟩

/-- After a flush nothing that has been written is missing in the file. -/
theorem Writes.flushFile (hw : w.Writes id node all)
    (isOpen : (w.store.handle id).closed = false) :
    (w.flushFile id).2.Writes id node all ∧ (w.flushFile id).2.disk.content node = all := by
  obtain ⟨hleaves, hbuffer⟩ := FileHandle.flush_leaves hw.holds
  have hcontent := hleaves.holds.content_eq hbuffer
  rw [hleaves.handle] at hcontent
  rw [hw.flushFile_eq isOpen]
  exact ⟨hw.leave isOpen hleaves, hw.node ▸ hcontent⟩

/-- Closing flushes first. -/
theorem Writes.closeFile (hw : w.Writes id node all)
    (isOpen : (w.store.handle id).closed = false) :
    (w.closeFile id).1.Writes id node all ∧ (w.closeFile id).1.disk.content node = all := by
  obtain ⟨hleaves, hbuffer⟩ := FileHandle.flush_leaves hw.holds
  have hcontent := hleaves.holds.content_eq hbuffer
  rw [hleaves.handle] at hcontent
  have hkept : (w.keepHandle id { ((w.store.handle id).flush w.disk).1 with closed := true }
      ((w.store.handle id).flush w.disk).2).Writes id node all :=
    hw.keep (by rw [hleaves.handle]) { hleaves.holds with } fun _ => hbuffer
  rw [hw.closeFile_eq isOpen]
  exact ⟨{ hkept with }, hw.node ▸ hcontent⟩

/-- The file of a handle in order is a file. -/
theorem Writes.file_eq (hw : w.Writes id node all) :
    w.disk.node node = .file (w.disk.content node) := by
  obtain ⟨c, hfile, -⟩ := hw.holds.file
  rw [hw.node] at hfile
  rw [hfile, Disk.content_of_file hfile]

/-- A closed handle has nothing left to write. -/
theorem Writes.content_of_closed (hw : w.Writes id node all)
    (closed : (w.store.handle id).closed = true) : w.disk.content node = all :=
  hw.node ▸ FileHandle.Holds.content_eq (r := (w.store.handle id, w.disk)) hw.holds (hw.idle closed)

/-! What is done to other handles. -/

/-- A handle is in order as long as it and its file are as they were. -/
theorem Writes.spared (hw : w.Writes id node all) (there : id < w'.store.handles.size)
    (hhandle : w'.store.handle id = w.store.handle id)
    (hnode : w'.disk.node node = w.disk.node node) : w'.Writes id node all := by
  refine ⟨there, hhandle ▸ hw.node, ?_, hhandle ▸ hw.idle⟩
  rw [hhandle]
  exact hw.holds.congr (hw.node.symm ▸ hnode)

/-- A call about another handle leaves a file alone that no other handle writes to. -/
theorem Handled.node_eq {closes : Bool} (h : w.Handled other closes w') (hne : other ≠ id)
    (sole : w.SoleWriter id node) : w'.disk.node node = w.disk.node node := by
  by_cases hread : (w.store.handle other).mode = .read
  · rw [h.reading hread]
  cases hclosed : (w.store.handle other).closed with
  | true => rw [h.refused hclosed]
  | false =>
    have hthere : other < w.store.handles.size := by
      by_contra hout
      refine hread ?_
      rw [Store.handle, Array.getElem?_eq_none (Nat.le_of_not_lt hout)]
      rfl
    exact h.nodes node (sole other hthere hne hclosed hread).symm

/-- The world with a new handle in the table of open files. -/
def opened (w : World) (path mode : Text) (h : FileHandle) (d : Disk) : World :=
  { w with
    store := { w.store with handles := w.store.handles.push h }
    disk := d
    openFiles := w.store.handles.size :: w.openFiles
    events := .fileOpened path mode :: w.events }

theorem openFile_of_ok {path mode : Text} {m : FileMode} {h : FileHandle} {d : Disk}
    (hmode : FileMode.ofText? mode = some m)
    (hopen : FileHandle.openFile w.disk path m bufferSize = .ok (h, d)) :
    w.openFile bufferSize path mode =
      (.ok (.file w.store.handles.size), w.opened path mode h d) := by
  unfold openFile
  rw [hmode]
  dsimp only
  rw [hopen]
  rfl

/-- Opening a file leaves the world as it was, or adds one handle. -/
theorem openFile_cases (w : World) (bufferSize : ℕ) (path mode : Text) :
    (∃ f, w.openFile bufferSize path mode = (.error f, w)) ∨ ∃ m h d,
      FileMode.ofText? mode = some m ∧
      FileHandle.openFile w.disk path m bufferSize = .ok (h, d) ∧
      w.openFile bufferSize path mode =
        (.ok (.file w.store.handles.size), w.opened path mode h d) := by
  unfold openFile
  split
  · exact .inl ⟨_, rfl⟩
  · next m hm =>
    split
    · exact .inl ⟨_, rfl⟩
    · next h d hopen => exact .inr ⟨m, h, d, hm, hopen, rfl⟩

/-- A call about no handle opens a file: it is refused, or it adds one handle. -/
theorem perform_of_no_target (bufferSize : ℕ) (w : World) (htarget : call.target? = none) :
    ∃ path mode, call = .open path mode ∧ (call.perform bufferSize w = w ∨ ∃ m h d,
      FileMode.ofText? mode = some m ∧
      FileHandle.openFile w.disk path m bufferSize = .ok (h, d) ∧
      call.perform bufferSize w = w.opened path mode h d) := by
  cases call with
  | «open» path mode =>
    refine ⟨path, mode, rfl, ?_⟩
    rw [performs_open]
    rcases openFile_cases w bufferSize path mode with ⟨f, hrefused⟩ | ⟨m, h, d, hm, hopen, hreply⟩
    · exact .inl (congrArg Prod.snd hrefused)
    · exact .inr ⟨m, h, d, hm, hopen, congrArg Prod.snd hreply⟩
  | _ => cases htarget

theorem handle_opened_of_lt {path mode : Text} {h : FileHandle} {d : Disk}
    (there : id < w.store.handles.size) :
    (w.opened path mode h d).store.handle id = w.store.handle id := by
  unfold opened Store.handle
  dsimp only
  rw [Array.getElem?_push_lt there, Array.getElem?_eq_getElem there]

theorem handle_opened_self {path mode : Text} {h : FileHandle} {d : Disk} :
    (w.opened path mode h d).store.handle w.store.handles.size = h := by
  unfold opened Store.handle
  dsimp only
  rw [Array.getElem?_push_size]
  rfl

theorem size_opened (w : World) (path mode : Text) (h : FileHandle) (d : Disk) :
    (w.opened path mode h d).store.handles.size = w.store.handles.size + 1 := Array.size_push ..

/-- A file that has been opened to write to it is in order. -/
theorem openFile_writes {path mode c : Text} {m : FileMode} (hmode : FileMode.ofText? mode = some m)
    (hwrite : m ≠ .read) (hopen : w.openFile bufferSize path mode = (.ok (.file id), w'))
    (hfile : w'.disk.node (w'.store.handle id).node = .file c) :
    w'.Writes id (w'.store.handle id).node c ∧ (w'.store.handle id).closed = false ∧
      c = (if m = .append then w.disk.content (w'.store.handle id).node else []) ∧
      (w.disk.Closed → w'.disk.Closed ∧ w'.disk.find path = .ok (w'.store.handle id).node) := by
  rcases openFile_cases w bufferSize path mode with ⟨f, hrefused⟩ | ⟨m', h, d, hm, hopened, hreply⟩
  · cases hrefused.symm.trans hopen
  obtain rfl : m' = m := Option.some.inj (hm.symm.trans hmode)
  obtain ⟨hid, rfl⟩ := Prod.ext_iff.1 (hreply.symm.trans hopen)
  obtain rfl : w.store.handles.size = id := Value.file.inj (Except.ok.inj hid)
  have hhandle : (w.opened path mode h d).store.handle w.store.handles.size = h := handle_opened_self
  rw [hhandle] at hfile ⊢
  obtain ⟨-, hclosed⟩ := FileHandle.openFile_fresh hopened
  obtain ⟨hholds, hbase⟩ := FileHandle.openFile_holds hwrite hopened hfile
  refine ⟨⟨?_, ?_, ?_, fun h' => ?_⟩, hclosed, hbase,
    fun closed => FileHandle.openFile_find closed hwrite hopened⟩
  · rw [size_opened]
    exact Nat.lt_succ_self _
  all_goals rw [hhandle] at *
  · exact hholds
  · cases hclosed.symm.trans h'

theorem Writes.perform_open (hw : w.Writes id node all) (path mode : Text)
    (sole' : ((FileCall.open path mode).perform bufferSize w).SoleWriter id node) :
    ((FileCall.open path mode).perform bufferSize w).Writes id node all ∧
      ((FileCall.open path mode).perform bufferSize w).disk.node node = w.disk.node node := by
  rw [performs_open] at sole' ⊢
  rcases openFile_cases w bufferSize path mode with ⟨f, hrefused⟩ | ⟨m, h, d, -, hopen, hreply⟩
  · rw [hrefused]
    exact ⟨hw, rfl⟩
  · rw [hreply] at sole' ⊢
    dsimp only at sole' ⊢
    obtain ⟨c, hfile, -⟩ := hw.holds.file
    rw [hw.node] at hfile
    -- If it could write to the file, the new handle would be a second writer.
    have hrival : h.mode = .read ∨ h.node ≠ node := by
      refine or_iff_not_imp_left.2 fun hmode => ?_
      have hnew := sole' w.store.handles.size (size_opened w path mode h d ▸ Nat.lt_succ_self _)
        hw.there.ne'
      rw [handle_opened_self] at hnew
      exact hnew (FileHandle.openFile_fresh hopen).2 hmode
    have hnode : d.node node = w.disk.node node :=
      (FileHandle.openFile_node hopen hfile hrival).trans hfile.symm
    refine ⟨hw.spared ?_ (handle_opened_of_lt hw.there) hnode, hnode⟩
    rw [size_opened]
    exact hw.there.trans (Nat.lt_succ_self _)

theorem Writes.perform_other (hw : w.Writes id node all) (sole : w.SoleWriter id node)
    (htarget : call.target? = some other) (hne : other ≠ id) :
    (call.perform bufferSize w).Writes id node all ∧
      (call.perform bufferSize w).disk.node node = w.disk.node node := by
  have hcall : w.Handled other (call = .close other) (call.perform bufferSize w) :=
    handled_perform htarget
  have hnode := hcall.node_eq hne sole
  exact ⟨hw.spared (hcall.size ▸ hw.there) (hcall.others id hne.symm) hnode, hnode⟩

/-- A closed handle does nothing more. -/
theorem Writes.perform_closed (hw : w.Writes id node all) (htarget : call.target? = some id)
    (closed : (w.store.handle id).closed = true) :
    (call.perform bufferSize w).Writes id node all ∧ (call.perform bufferSize w).disk = w.disk := by
  have hcall : w.Handled id (call = .close id) (call.perform bufferSize w) := handled_perform htarget
  rw [hcall.refused closed]
  exact ⟨{ hw with }, rfl⟩

theorem Writes.perform_own (hw : w.Writes id node all) (htarget : call.target? = some id)
    (isOpen : (w.store.handle id).closed = false) :
    (call.perform bufferSize w).Writes id node (all ++ call.written w id) ∧
      w.disk.content node <+: (call.perform bufferSize w).disk.content node := by
  -- A handle to write through refuses to read, which leaves it alone.
  have hunreadable : notReadable? (w.store.handle id) ≠ none :=
    fun hok => hw.mode (notReadable?_eq_none.1 hok).2
  obtain ⟨e, he⟩ := Option.ne_none_iff_exists'.1 hunreadable
  have hprefix : w.disk.content node <+: all := hw.node ▸ hw.holds.content_prefix
  cases call with
  | «open» path mode => cases htarget
  | write id' t =>
    cases htarget
    rw [FileCall.written, if_pos ⟨rfl, isOpen⟩]
    exact hw.writeText isOpen t
  | flush id' =>
    cases htarget
    obtain ⟨hflushed, hcontent⟩ := hw.flushFile isOpen
    exact ⟨(List.append_nil all).symm ▸ hflushed, hcontent.symm ▸ hprefix⟩
  | close id' =>
    cases htarget
    obtain ⟨hclosed, hcontent⟩ := hw.closeFile isOpen
    rw [performs_close]
    exact ⟨(List.append_nil all).symm ▸ hclosed, hcontent.symm ▸ hprefix⟩
  | readLine id' =>
    cases htarget
    have hread : (w.readLine id).2 = w := by
      unfold readLine
      dsimp only
      rw [he]
      rfl
    unfold FileCall.perform FileCall.reply
    rw [hread]
    exact ⟨(List.append_nil all).symm ▸ hw, List.prefix_rfl⟩
  | readAll id' =>
    cases htarget
    have hread : (w.readAll id).2 = w := by
      unfold readAll
      dsimp only
      rw [he]
      rfl
    unfold FileCall.perform FileCall.reply
    rw [hread]
    exact ⟨(List.append_nil all).symm ▸ hw, List.prefix_rfl⟩

/-- Whatever is asked of files, what has been written through a handle in order stays, and only a call
that writes through it adds to it, as long as no other handle writes to its file. -/
theorem Writes.perform (hw : w.Writes id node all) (sole : w.SoleWriter id node)
    (sole' : (call.perform bufferSize w).SoleWriter id node) :
    (call.perform bufferSize w).Writes id node (all ++ call.written w id) ∧
      w.disk.content node <+: (call.perform bufferSize w).disk.content node := by
  have hprefix {d : Disk} (hnode : d.node node = w.disk.node node) :
      w.disk.content node <+: d.content node := by
    have hsame : d.content node = w.disk.content node := by
      unfold Disk.content
      rw [hnode]
    exact hsame ▸ List.prefix_rfl
  -- A call about another handle writes nothing through this one, nor does any once it is closed.
  have hnothing (hquiet : call.target? ≠ some id ∨ (w.store.handle id).closed = true) :
      all ++ call.written w id = all := by
    cases call with
    | write target t =>
      rw [FileCall.written, if_neg, List.append_nil]
      rintro ⟨rfl, hopen⟩
      rcases hquiet with hne | hclosed
      · exact hne rfl
      · cases hopen.symm.trans hclosed
    | _ => exact List.append_nil all
  cases htarget : call.target? with
  | none =>
    rw [hnothing (.inl (htarget ▸ nofun))]
    cases call with
    | «open» path mode =>
      obtain ⟨hopened, hnode⟩ := hw.perform_open path mode sole'
      exact ⟨hopened, hprefix hnode⟩
    | _ => cases htarget
  | some other =>
    by_cases hid : other = id
    · subst hid
      cases isOpen : (w.store.handle other).closed with
      | false => exact hw.perform_own htarget isOpen
      | true =>
        obtain ⟨hclosed, hdisk⟩ : (call.perform bufferSize w).Writes other node all ∧
            (call.perform bufferSize w).disk = w.disk := hw.perform_closed htarget isOpen
        rw [hnothing (.inr isOpen), hdisk]
        exact ⟨hclosed, List.prefix_rfl⟩
    · rw [hnothing (.inl fun h => hid (Option.some.inj (htarget.symm.trans h)))]
      obtain ⟨hother, hnode⟩ := hw.perform_other sole htarget hid
      exact ⟨hother, hprefix hnode⟩

/-- After a flush or a close of the handle nothing that has been written is missing in the file. -/
theorem Writes.settles (hw : w.Writes id node all) (hcall : call = .flush id ∨ call = .close id) :
    (call.perform bufferSize w).disk.content node = all := by
  cases isOpen : (w.store.handle id).closed with
  | false =>
    rcases hcall with rfl | rfl
    · exact (hw.flushFile isOpen).2
    · rw [performs_close]
      exact (hw.closeFile isOpen).2
  | true =>
    have htarget : call.target? = some id := by rcases hcall with rfl | rfl <;> rfl
    rw [(hw.perform_closed htarget isOpen).2]
    exact hw.content_of_closed isOpen

end World

end BytecodeMachine
