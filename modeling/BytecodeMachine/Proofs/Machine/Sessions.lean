import BytecodeMachine.Proofs.Files.Growing
import BytecodeMachine.Proofs.Machine.FileCalls

/-! Files over a session: any number of runs of one machine, and the closing of all files between
them. What each move asks of files is known, so what becomes of a handle is told by the calls since it
was made. -/
namespace BytecodeMachine

/-- A move of a session, with what it asks of files. A run takes steps; once it has ended, the files
that are open may all be closed, in any order, and the next run may begin. -/
inductive Setup.Moves (s : Setup) : Status → List FileCall → Status → Prop
  | step (m : Machine) : Moves s (.running m) (m.fileCall? s).toList (m.advance s)
  | run (e : Ending) (m : Machine) (o : RunOptions) :
      Moves s (.ended e m) [] (.running { world := m.world.renew o })
  | close (e : Ending) (m : Machine) (ids : List Nat) (all : ids.Perm m.world.openFiles) :
      Moves s (.ended e m) (ids.map .close) (.ended e { m with world := (m.world.closeEach ids).2 })

/-- A session that begins on a disk, with no file open. -/
structure Setup.Session (s : Setup) (d : Disk) where
  state : Nat → Status
  calls : Nat → List FileCall
  starts : ∃ o, state 0 = .running { world := ({ disk := d } : World).renew o }
  moves : ∀ k, s.Moves (state k) (calls k) (state (k + 1))

/-- What some calls make of a world, one after the other. -/
def FileCall.performAll (bufferSize : Nat) (w : World) (calls : List FileCall) : World :=
  calls.foldl (fun w call => call.perform bufferSize w) w

namespace World

variable {w w' : World} {id node bufferSize : Nat} {all : Text} {call : FileCall}
  {calls : List FileCall}

/-- A table that has the handles that are not closed, each once. -/
structure Tabled (w : World) : Prop where
  nodup : w.openFiles.Nodup
  mem_iff : ∀ id, id ∈ w.openFiles ↔
    id < w.store.handles.size ∧ (w.store.handle id).closed = false

/-! Worlds with the same files. -/

theorem handle_of_files (same : w'.files = w.files) (id : Nat) :
    w'.store.handle id = w.store.handle id := by
  unfold Store.handle
  rw [show w'.store.handles = w.store.handles from congrArg Prod.fst same]

theorem size_of_files (same : w'.files = w.files) :
    w'.store.handles.size = w.store.handles.size := congrArg (fun f => f.1.size) same

theorem disk_of_files (same : w'.files = w.files) : w'.disk = w.disk :=
  congrArg (fun f => f.2.1) same

theorem openFiles_of_files (same : w'.files = w.files) : w'.openFiles = w.openFiles :=
  congrArg (fun f => f.2.2) same

theorem Tabled.congr (same : w'.files = w.files) (h : w.Tabled) : w'.Tabled := by
  refine ⟨openFiles_of_files same ▸ h.nodup, fun id => ?_⟩
  rw [openFiles_of_files same, size_of_files same, handle_of_files same]
  exact h.mem_iff id

theorem Writes.congr (same : w'.files = w.files) (h : w.Writes id node all) :
    w'.Writes id node all := by
  refine h.spared ?_ (handle_of_files same id) ?_
  · rw [size_of_files same]
    exact h.there
  · rw [disk_of_files same]

theorem SoleWriter.congr (same : w'.files = w.files) (h : w.SoleWriter id node) :
    w'.SoleWriter id node := by
  unfold SoleWriter
  simp only [size_of_files same, handle_of_files same]
  exact h

/-! What one call does to the table and to the state of a handle. -/

theorem size_le_perform (bufferSize : Nat) (w : World) (call : FileCall) :
    w.store.handles.size ≤ (call.perform bufferSize w).store.handles.size := by
  cases htarget : call.target? with
  | some other => exact (handled_perform htarget).size.ge
  | none =>
    obtain ⟨path, mode, -, hsame | ⟨m, h, d, -, -, hopened⟩⟩ :=
      perform_of_no_target bufferSize w htarget
    · rw [hsame]
    · rw [hopened, size_opened]
      exact Nat.le_succ _

/-- A handle is closed by the call that closes it, and by no other. -/
theorem closed_perform (there : id < w.store.handles.size) (bufferSize : Nat) (call : FileCall) :
    ((call.perform bufferSize w).store.handle id).closed =
      ((w.store.handle id).closed || call = .close id) := by
  cases htarget : call.target? with
  | some other =>
    have hcall : w.Handled other (call = .close other) (call.perform bufferSize w) :=
      handled_perform htarget
    by_cases hid : other = id
    · subst hid
      exact hcall.closed there
    · have hclose : call ≠ .close id := by
        rintro rfl
        exact hid (Option.some.inj htarget).symm
      rw [hcall.others id (Ne.symm hid), decide_eq_false hclose, Bool.or_false]
  | none =>
    obtain ⟨path, mode, rfl, hsame | ⟨m, h, d, -, -, hopened⟩⟩ :=
      perform_of_no_target bufferSize w htarget
    · rw [hsame, decide_eq_false nofun, Bool.or_false]
    · rw [hopened, handle_opened_of_lt there, decide_eq_false nofun, Bool.or_false]

/-- A call about a handle does nothing to the world, or keeps a new state of the handle and of the
disk. Only closing takes a handle out of the table. -/
theorem perform_cases (bufferSize : Nat) (w : World) (htarget : call.target? = some id) :
    ∃ w', (w' = w ∨ ∃ h d, w.disk.Stays d ∧ w' = w.keepHandle id h d) ∧
      call.perform bufferSize w = { w' with
        openFiles := if call = .close id then w.openFiles.filter (· ≠ id) else w.openFiles } := by
  cases call with
  | «open» path mode => cases htarget
  | close id =>
    cases htarget
    rw [performs_close, closeFile_fst, if_pos rfl]
    refine ⟨_, ?_, rfl⟩
    split
    · exact .inl rfl
    · exact .inr ⟨_, _, FileHandle.close_stays _ _, rfl⟩
  | write id t =>
    cases htarget
    rw [if_neg nofun]
    unfold FileCall.perform FileCall.reply writeText
    dsimp only
    split
    · exact ⟨w, .inl rfl, rfl⟩
    · rw [afterWrite_snd]
      exact ⟨_, .inr ⟨_, _, FileHandle.writeRounds_stays 3 _ _ _, rfl⟩, rfl⟩
  | flush id =>
    cases htarget
    rw [if_neg nofun]
    unfold FileCall.perform FileCall.reply flushFile
    dsimp only
    split
    · exact ⟨w, .inl rfl, rfl⟩
    · rw [afterWrite_snd]
      exact ⟨_, .inr ⟨_, _, FileHandle.flush_stays _ _, rfl⟩, rfl⟩
  | readLine id =>
    cases htarget
    rw [if_neg nofun]
    unfold FileCall.perform FileCall.reply readLine
    dsimp only
    split
    · exact ⟨w, .inl rfl, rfl⟩
    · split
      · exact ⟨_, .inr ⟨_, _, .refl _, rfl⟩, rfl⟩
      · split <;> exact ⟨_, .inr ⟨_, _, .refl _, rfl⟩, rfl⟩
  | readAll id =>
    cases htarget
    rw [if_neg nofun]
    unfold FileCall.perform FileCall.reply readAll
    dsimp only
    split
    · exact ⟨w, .inl rfl, rfl⟩
    · split <;> exact ⟨_, .inr ⟨_, _, .refl _, rfl⟩, rfl⟩

theorem Tabled.opened (h : w.Tabled) {path mode : Text} {handle : FileHandle} {d : Disk}
    (isOpen : handle.closed = false) : (w.opened path mode handle d).Tabled := by
  have hmem (id : Nat) (hid : id ∈ w.openFiles) : id < w.store.handles.size :=
    ((h.mem_iff id).1 hid).1
  refine ⟨List.nodup_cons.2 ⟨fun hid => absurd (hmem _ hid) (Nat.lt_irrefl _), h.nodup⟩, fun id => ?_⟩
  change id ∈ w.store.handles.size :: w.openFiles ↔ _
  rw [List.mem_cons, size_opened]
  rcases Nat.lt_trichotomy id w.store.handles.size with hlt | rfl | hgt
  · rw [handle_opened_of_lt hlt, h.mem_iff]
    exact ⟨fun hid => ⟨by omega, (hid.resolve_left (by omega)).2⟩, fun hid => .inr ⟨hlt, hid.2⟩⟩
  · rw [handle_opened_self]
    exact ⟨fun _ => ⟨Nat.lt_succ_self _, isOpen⟩, fun _ => .inl rfl⟩
  · refine ⟨fun hid => ?_, fun hid => absurd hid.1 (by omega)⟩
    rcases hid with rfl | hid
    · omega
    · exact absurd (hmem id hid) (by omega)

/-- Every call keeps the table right. -/
theorem Tabled.perform (h : w.Tabled) (bufferSize : Nat) (call : FileCall) :
    (call.perform bufferSize w).Tabled := by
  cases htarget : call.target? with
  | none =>
    obtain ⟨path, mode, -, hsame | ⟨m, g, d, -, hopen, hopened⟩⟩ :=
      perform_of_no_target bufferSize w htarget
    · rw [hsame]
      exact h
    · rw [hopened]
      exact h.opened (FileHandle.openFile_fresh hopen).2
  | some other =>
    have hsize : (call.perform bufferSize w).store.handles.size = w.store.handles.size :=
      (handled_perform htarget).size
    obtain ⟨w', -, hperform⟩ := perform_cases bufferSize w htarget
    have hopen := congrArg World.openFiles hperform
    dsimp only at hopen
    refine ⟨?_, fun id => ?_⟩
    · rw [hopen]
      split
      · exact h.nodup.filter _
      · exact h.nodup
    · have hiff : id ∈ (call.perform bufferSize w).openFiles ↔
          id ∈ w.openFiles ∧ call ≠ .close id := by
        rw [hopen]
        split
        · next hclose =>
          rw [hclose, List.mem_filter, decide_eq_true_eq]
          refine and_congr_right fun _ => ⟨fun hne hid => ?_, fun hne hid => ?_⟩
          · exact hne (FileCall.close.inj hid).symm
          · exact hne (congrArg FileCall.close hid.symm)
        · next hclose =>
          refine ⟨fun hid => ⟨hid, ?_⟩, fun hid => hid.1⟩
          rintro rfl
          cases htarget
          exact hclose rfl
      rw [hiff, h.mem_iff, hsize]
      constructor
      · rintro ⟨⟨hlt, hclosed⟩, hcall⟩
        refine ⟨hlt, ?_⟩
        rw [closed_perform hlt, hclosed, decide_eq_false hcall]
        rfl
      · rintro ⟨hlt, hclosed⟩
        rw [closed_perform hlt, Bool.or_eq_false_iff, decide_eq_false_iff_not] at hclosed
        exact ⟨⟨hlt, hclosed.1⟩, hclosed.2⟩

/-- No call leads a path astray. -/
theorem perform_stays (bufferSize : Nat) (w : World) (call : FileCall) :
    w.disk.Stays (call.perform bufferSize w).disk := by
  cases htarget : call.target? with
  | none =>
    obtain ⟨path, mode, -, hsame | ⟨m, h, d, -, hopen, hopened⟩⟩ :=
      perform_of_no_target bufferSize w htarget
    · rw [hsame]
      exact .refl _
    · rw [hopened]
      exact FileHandle.openFile_stays hopen
  | some other =>
    obtain ⟨w', hw', hperform⟩ := perform_cases bufferSize w htarget
    rw [hperform]
    rcases hw' with rfl | ⟨h, d, hstays, rfl⟩
    · exact .refl _
    · exact hstays

/-- A closed handle refuses every call but the one to close it, which leaves it alone. -/
theorem reply_of_closed (htarget : call.target? = some id)
    (closed : (w.store.handle id).closed = true) (bufferSize : Nat) :
    call.reply bufferSize w =
      if call = .close id then
        (.ok .null, { w with openFiles := w.openFiles.filter (· ≠ id) })
      else (.error (.of (.fileClosed (w.store.handle id).path)), w) := by
  have hwrite : notWritable? (w.store.handle id) = some (.fileClosed (w.store.handle id).path) :=
    if_pos closed
  have hread : notReadable? (w.store.handle id) = some (.fileClosed (w.store.handle id).path) :=
    if_pos closed
  cases call with
  | «open» path mode => cases htarget
  | close id' =>
    cases htarget
    have hclose : w.closeFile id = ({ w with openFiles := w.openFiles.filter (· ≠ id) }, none) :=
      if_pos closed
    unfold FileCall.reply fileMethod
    rw [if_pos rfl]
    dsimp only
    rw [hclose]
    rfl
  | write id' t =>
    cases htarget
    unfold FileCall.reply writeText
    rw [if_neg nofun]
    dsimp only
    rw [hwrite]
    rfl
  | flush id' =>
    cases htarget
    unfold FileCall.reply flushFile
    rw [if_neg nofun]
    dsimp only
    rw [hwrite]
    rfl
  | readLine id' =>
    cases htarget
    unfold FileCall.reply readLine
    rw [if_neg nofun]
    dsimp only
    rw [hread]
    rfl
  | readAll id' =>
    cases htarget
    unfold FileCall.reply readAll
    rw [if_neg nofun]
    dsimp only
    rw [hread]
    rfl

/-! What several calls do. -/

theorem performAll_cons (bufferSize : Nat) (w : World) (call : FileCall) (calls : List FileCall) :
    FileCall.performAll bufferSize w (call :: calls) =
      FileCall.performAll bufferSize (call.perform bufferSize w) calls := rfl

theorem size_le_performAll (bufferSize : Nat) (w : World) (calls : List FileCall) :
    w.store.handles.size ≤ (FileCall.performAll bufferSize w calls).store.handles.size := by
  induction calls generalizing w with
  | nil => exact Nat.le_refl _
  | cons call calls ih =>
    rw [performAll_cons]
    exact (size_le_perform bufferSize w call).trans (ih _)

theorem size_closes (bufferSize : Nat) (w : World) (ids : List Nat) :
    (FileCall.performAll bufferSize w (ids.map .close)).store.handles.size =
      w.store.handles.size := by
  induction ids generalizing w with
  | nil => rfl
  | cons id ids ih =>
    have hone : w.Handled id (FileCall.close id = .close id)
      ((FileCall.close id).perform bufferSize w) := handled_perform rfl
    exact (ih _).trans hone.size

theorem closed_performAll (there : id < w.store.handles.size) (bufferSize : Nat)
    (calls : List FileCall) :
    ((FileCall.performAll bufferSize w calls).store.handle id).closed =
      ((w.store.handle id).closed || decide (.close id ∈ calls)) := by
  induction calls generalizing w with
  | nil => exact (Bool.or_false _).symm
  | cons call calls ih =>
    have hlater := ih (Nat.lt_of_lt_of_le there (size_le_perform bufferSize w call))
    rw [performAll_cons, hlater, closed_perform there, Bool.or_assoc]
    simp [eq_comm]

theorem Tabled.performAll (h : w.Tabled) (bufferSize : Nat) (calls : List FileCall) :
    (FileCall.performAll bufferSize w calls).Tabled := by
  induction calls generalizing w with
  | nil => exact h
  | cons call calls ih => exact ih (h.perform bufferSize call)

theorem performAll_stays (bufferSize : Nat) (w : World) (calls : List FileCall) :
    w.disk.Stays (FileCall.performAll bufferSize w calls).disk := by
  induction calls generalizing w with
  | nil => exact .refl _
  | cons call calls ih => exact (perform_stays bufferSize w call).trans (ih _)

theorem snd_closeEach (bufferSize : Nat) (w : World) (ids : List Nat) :
    (w.closeEach ids).2 = FileCall.performAll bufferSize w (ids.map .close) := by
  induction ids generalizing w with
  | nil => rfl
  | cons id ids ih =>
    rw [List.map_cons, performAll_cons, performs_close, ← ih]
    rfl

/-- Closing other handles does not make them writers. -/
theorem SoleWriter.close (h : w.SoleWriter id node) (bufferSize other : Nat) :
    ((FileCall.close other).perform bufferSize w).SoleWriter id node := by
  have hclose : w.Handled other (FileCall.close other = .close other)
    ((FileCall.close other).perform bufferSize w) := handled_perform rfl
  intro j hj hne isOpen hmode
  rw [hclose.size] at hj
  by_cases hother : j = other
  · subst hother
    rw [hclose.closed hj, Bool.or_eq_false_iff] at isOpen
    rw [hclose.mode] at hmode
    rw [hclose.node]
    exact h j hj hne isOpen.1 hmode
  · rw [hclose.others j hother] at isOpen hmode ⊢
    exact h j hj hne isOpen hmode

/-- Closing handles loses nothing of what was written through one in order. -/
theorem Writes.closes (hw : w.Writes id node all) (sole : w.SoleWriter id node) (bufferSize : Nat)
    (ids : List Nat) :
    (FileCall.performAll bufferSize w (ids.map .close)).Writes id node all ∧
      w.disk.content node <+:
        (FileCall.performAll bufferSize w (ids.map .close)).disk.content node := by
  induction ids generalizing w with
  | nil => exact ⟨hw, List.prefix_rfl⟩
  | cons other ids ih =>
    have hsole := sole.close bufferSize other
    obtain ⟨hone, hgrows⟩ := hw.perform sole hsole
    have hnothing : FileCall.written w id (.close other) = [] := rfl
    rw [hnothing, List.append_nil] at hone
    obtain ⟨hall, hgrows'⟩ := ih hone hsole
    exact ⟨hall, hgrows.trans hgrows'⟩

end World

namespace Setup.Moves

variable {s : Setup} {st st' : Status} {calls : List FileCall} {id node : Nat} {all : Text}

/-- A move does to the files what it asks of them. -/
theorem files (h : s.Moves st calls st') :
    st'.machine.world.files =
      (FileCall.performAll s.bufferSize st.machine.world calls).files := by
  cases h with
  | step m =>
    refine (Machine.files_advance m).trans ?_
    cases m.fileCall? s <;> rfl
  | run e m o => rfl
  | close e m ids all =>
    rw [← World.snd_closeEach]
    rfl

/-- A move makes one handle or none. -/
theorem size (h : s.Moves st calls st') :
    st'.machine.world.store.handles.size = st.machine.world.store.handles.size ∨
      (∃ path mode, calls = [.open path mode]) ∧
        st'.machine.world.store.handles.size = st.machine.world.store.handles.size + 1 := by
  have hsize := World.size_of_files h.files
  rw [hsize]
  cases h with
  | run e m o => exact .inl rfl
  | close e m ids all =>
    left
    exact World.size_closes s.bufferSize m.world ids
  | step m =>
    change (FileCall.performAll s.bufferSize m.world (m.fileCall? s).toList).store.handles.size =
      m.world.store.handles.size ∨ _
    cases hcall : m.fileCall? s with
    | none => exact .inl rfl
    | some call =>
      cases htarget : call.target? with
      | some other => exact .inl (World.handled_perform htarget).size
      | none =>
        obtain ⟨path, mode, rfl, hsame | ⟨g, h, d, -, -, hopened⟩⟩ :=
          World.perform_of_no_target s.bufferSize m.world htarget
        · exact .inl (congrArg (·.store.handles.size) hsame)
        · refine .inr ⟨⟨path, mode, rfl⟩, ?_⟩
          exact (congrArg (·.store.handles.size) hopened).trans (World.size_opened _ _ _ _ _)

/-- A move loses nothing of what was written through a handle in order, and adds what it writes
through it; once it has flushed or closed the handle, the file has all that was written. -/
theorem writes (h : s.Moves st calls st') (hw : st.machine.world.Writes id node all)
    (sole : st.machine.world.SoleWriter id node) (sole' : st'.machine.world.SoleWriter id node) :
    st'.machine.world.Writes id node
        (all ++ calls.flatMap (FileCall.written st.machine.world id)) ∧
      st.machine.world.disk.content node <+: st'.machine.world.disk.content node ∧
      (.flush id ∈ calls ∨ .close id ∈ calls → st'.machine.world.disk.content node =
        all ++ calls.flatMap (FileCall.written st.machine.world id)) := by
  have hfiles := h.files
  have hdisk := World.disk_of_files hfiles
  rw [hdisk]
  have hsole := World.SoleWriter.congr hfiles.symm sole'
  -- The calls of the move do all that happens to the files, so it is enough to look at them.
  suffices hall : (FileCall.performAll s.bufferSize st.machine.world calls).Writes id node
        (all ++ calls.flatMap (FileCall.written st.machine.world id)) ∧
      st.machine.world.disk.content node <+:
        (FileCall.performAll s.bufferSize st.machine.world calls).disk.content node ∧
      (.flush id ∈ calls ∨ .close id ∈ calls →
        (FileCall.performAll s.bufferSize st.machine.world calls).disk.content node =
          all ++ calls.flatMap (FileCall.written st.machine.world id)) from
    ⟨hall.1.congr hfiles, hall.2⟩
  cases h with
  | run e m o => exact ⟨(List.append_nil all).symm ▸ hw, List.prefix_rfl, by simp⟩
  | step m =>
    cases hcall : m.fileCall? s with
    | none => exact ⟨(List.append_nil all).symm ▸ hw, List.prefix_rfl, by simp⟩
    | some call =>
      rw [hcall] at hsole
      obtain ⟨hone, hgrows⟩ := hw.perform sole hsole
      rw [Option.toList_some, List.flatMap_singleton]
      refine ⟨hone, hgrows, fun hsettles => ?_⟩
      have hends : call = .flush id ∨ call = .close id := by
        rcases hsettles with hmem | hmem
        · exact .inl (List.mem_singleton.1 hmem).symm
        · exact .inr (List.mem_singleton.1 hmem).symm
      have hnothing : FileCall.written (Status.running m).machine.world id call = [] := by
        rcases hends with rfl | rfl <;> rfl
      rw [hnothing, List.append_nil]
      exact hw.settles hends
  | close e m ids perm =>
    obtain ⟨hall, hgrows⟩ := hw.closes sole s.bufferSize ids
    have hnothing : (ids.map FileCall.close).flatMap (FileCall.written m.world id) = [] := by
      rw [List.flatMap_eq_nil_iff]
      intro call hcall
      obtain ⟨other, -, rfl⟩ := List.mem_map.1 hcall
      rfl
    rw [show (Status.ended e m).machine = m from rfl, hnothing, List.append_nil]
    refine ⟨hall, hgrows, fun hsettles => hall.content_of_closed ?_⟩
    have hclose : FileCall.close id ∈ ids.map FileCall.close := by
      refine hsettles.resolve_left fun hflush => ?_
      obtain ⟨other, -, hother⟩ := List.mem_map.1 hflush
      cases hother
    rw [World.closed_performAll hw.there, decide_eq_true hclose, Bool.or_true]

end Setup.Moves

end BytecodeMachine
