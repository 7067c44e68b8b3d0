import BytecodeMachine.Proofs.Machine.Sessions

/-! Files that are written in a session. Whatever its programs ask of files, the table has the handles
that have been opened and not closed, and a file that one handle writes to has the first bytes of what
was there and of all that has been written, in its order; after a flush or a close it has them all. -/
namespace BytecodeMachine

namespace Setup.Session

variable {s : Setup} {d : Disk} (x : s.Session d) {i j k id node : Nat} {path mode c : Text}

def world (k : Nat) : World := (x.state k).machine.world

/-- Whether a move opens a file and makes a certain handle for it. -/
structure Opens (k id : Nat) (path mode : Text) : Prop where
  call : x.calls k = [.open path mode]
  fresh : id = (x.world k).store.handles.size
  made : id < (x.world (k + 1)).store.handles.size

/-- What the moves from one on to before another write through a handle. -/
def written (i k id : Nat) : Text :=
  (List.range' i (k - i)).flatMap fun j => (x.calls j).flatMap (FileCall.written (x.world j) id)

variable {x}

theorem written_self (i id : Nat) : x.written i i id = [] := by
  unfold written
  rw [Nat.sub_self]
  rfl

theorem written_succ (h : i ≤ k) (id : Nat) : x.written i (k + 1) id =
    x.written i k id ++ (x.calls k).flatMap (FileCall.written (x.world k) id) := by
  unfold written
  rw [Nat.succ_sub h, List.range'_1_concat, List.flatMap_append, List.flatMap_singleton,
    Nat.add_sub_cancel' h]

theorem written_append (hij : i ≤ j) (hjk : j ≤ k) (id : Nat) :
    x.written i k id = x.written i j id ++ x.written j k id := by
  induction k, hjk using Nat.le_induction with
  | base => rw [written_self, List.append_nil]
  | succ k hjk ih => rw [written_succ (hij.trans hjk), written_succ hjk, ih, List.append_assoc]

/-! The table. -/

theorem files_succ (k : Nat) : (x.world (k + 1)).files =
    (FileCall.performAll s.bufferSize (x.world k) (x.calls k)).files := (x.moves k).files

theorem world_zero : (x.world 0).files = (#[], d, []) := by
  obtain ⟨o, ho⟩ := x.starts
  unfold world
  rw [ho]
  rfl

theorem tabled (k : Nat) : (x.world k).Tabled := by
  induction k with
  | zero =>
    have hempty : ({ disk := d } : World).Tabled := ⟨List.nodup_nil, by simp [Store.handle]⟩
    exact hempty.congr world_zero
  | succ k ih => exact (ih.performAll s.bufferSize (x.calls k)).congr (files_succ k)

theorem size_mono (h : i ≤ k) :
    (x.world i).store.handles.size ≤ (x.world k).store.handles.size := by
  induction k, h using Nat.le_induction with
  | base => exact Nat.le_refl _
  | succ k _ ih =>
    rw [World.size_of_files (files_succ k)]
    exact ih.trans (World.size_le_performAll _ _ _)

theorem lt_size_iff : id < (x.world k).store.handles.size ↔
    ∃ i < k, ∃ path mode, x.Opens i id path mode := by
  constructor
  · intro h
    induction k with
    | zero =>
      have hnone : (x.world 0).store.handles.size = 0 := congrArg (fun f => f.1.size) x.world_zero
      exact absurd (hnone ▸ h) (Nat.not_lt_zero id)
    | succ k ih =>
      by_cases hbefore : id < (x.world k).store.handles.size
      · obtain ⟨i, hi, hopens⟩ := ih hbefore
        exact ⟨i, by omega, hopens⟩
      · rcases (x.moves k).size with hsame | ⟨⟨path, mode, hcalls⟩, hmore⟩
        · exact absurd (hsame ▸ h) hbefore
        · have hid : id = (x.world k).store.handles.size := by
            have hlt : id < (x.world k).store.handles.size + 1 := hmore ▸ h
            omega
          exact ⟨k, Nat.lt_succ_self k, path, mode, hcalls, hid, h⟩
  · rintro ⟨i, hi, path, mode, hopens⟩
    exact Nat.lt_of_lt_of_le hopens.made (size_mono hi)

/-- The world in which a move has opened a file. -/
theorem Opens.opened (h : x.Opens k id path mode) : ∃ m g d', FileMode.ofText? mode = some m ∧
    FileHandle.openFile (x.world k).disk path m s.bufferSize = .ok (g, d') ∧
    (x.world (k + 1)).files = ((x.world k).opened path mode g d').files := by
  have hfiles := x.files_succ k
  rw [h.call, World.performAll_cons] at hfiles
  have hnone : (FileCall.open path mode).target? = none := rfl
  obtain ⟨path', mode', hcall, hsame | ⟨m, g, d', hm, hopen, hopened⟩⟩ :=
    World.perform_of_no_target s.bufferSize (x.world k) hnone
  · rw [hsame] at hfiles
    have hmade := h.made
    rw [World.size_of_files hfiles, h.fresh] at hmade
    exact absurd hmade (Nat.lt_irrefl _)
  · obtain ⟨rfl, rfl⟩ := FileCall.open.inj hcall
    rw [hopened] at hfiles
    exact ⟨m, g, d', hm, hopen, hfiles⟩

/-- A handle is closed once it has been closed, and not before. -/
theorem Opens.closed_iff (h : x.Opens i id path mode) (hik : i < k) :
    ((x.world k).store.handle id).closed = true ↔ ∃ j, i < j ∧ j < k ∧ .close id ∈ x.calls j := by
  induction k, hik using Nat.le_induction with
  | base =>
    obtain ⟨m, g, d', -, hopen, hfiles⟩ := h.opened
    rw [World.handle_of_files hfiles, h.fresh, World.handle_opened_self,
      (FileHandle.openFile_fresh hopen).2]
    refine ⟨nofun, ?_⟩
    rintro ⟨j, hij, hj, -⟩
    omega
  | succ k hik ih =>
    have there : id < (x.world k).store.handles.size := lt_size_iff.2 ⟨i, hik, path, mode, h⟩
    rw [World.handle_of_files (files_succ k), World.closed_performAll there, Bool.or_eq_true, ih,
      decide_eq_true_eq]
    constructor
    · rintro (⟨j, hij, hjk, hclose⟩ | hclose)
      · exact ⟨j, hij, by omega, hclose⟩
      · exact ⟨k, hik, Nat.lt_succ_self k, hclose⟩
    · rintro ⟨j, hij, hjk, hclose⟩
      rcases Nat.lt_succ_iff_lt_or_eq.1 hjk with hlt | rfl
      · exact .inl ⟨j, hij, hlt, hclose⟩
      · exact .inr hclose

theorem mem_openFiles_iff : id ∈ (x.world k).openFiles ↔
    ∃ i < k, (∃ path mode, x.Opens i id path mode) ∧
      ∀ j, i < j → j < k → .close id ∉ x.calls j := by
  rw [(tabled k).mem_iff]
  constructor
  · rintro ⟨there, isOpen⟩
    obtain ⟨i, hik, path, mode, hopens⟩ := lt_size_iff.1 there
    refine ⟨i, hik, ⟨path, mode, hopens⟩, fun j hij hjk hclose => ?_⟩
    have hclosed := (hopens.closed_iff hik).2 ⟨j, hij, hjk, hclose⟩
    cases isOpen.symm.trans hclosed
  · rintro ⟨i, hik, ⟨path, mode, hopens⟩, hnever⟩
    refine ⟨lt_size_iff.2 ⟨i, hik, path, mode, hopens⟩, ?_⟩
    rw [Bool.eq_false_iff]
    intro hclosed
    obtain ⟨j, hij, hjk, hclose⟩ := (hopens.closed_iff hik).1 hclosed
    exact hnever j hij hjk hclose

/-! Writing. -/

theorem stays (h : i ≤ k) : (x.world i).disk.Stays (x.world k).disk := by
  induction k, h using Nat.le_induction with
  | base => exact .refl _
  | succ k _ ih =>
    refine ih.trans ?_
    rw [World.disk_of_files (files_succ k)]
    exact World.performAll_stays _ _ _

theorem grows (h : i ≤ k) (hstep : ∀ j, i ≤ j → j < k →
    (x.world j).disk.content node <+: (x.world (j + 1)).disk.content node) :
    (x.world i).disk.content node <+: (x.world k).disk.content node := by
  induction k, h using Nat.le_induction with
  | base => exact List.prefix_rfl
  | succ k hik ih =>
    exact (ih fun j hij hjk => hstep j hij (by omega)).trans (hstep k hik (Nat.lt_succ_self k))

/-- A handle that is opened for writing is in order as long as no other handle writes to its file. -/
theorem Opens.writes (h : x.Opens i id path mode) {m : FileMode}
    (hmode : FileMode.ofText? mode = some m) (hwrite : m ≠ .read)
    (hfile : (x.world (i + 1)).disk.node ((x.world (i + 1)).store.handle id).node = .file c)
    (hnode : ((x.world (i + 1)).store.handle id).node = node) (hik : i < k)
    (sole : ∀ j, i < j → j ≤ k → (x.world j).SoleWriter id node) :
    (x.world k).Writes id node (c ++ x.written (i + 1) k id) := by
  induction k, hik using Nat.le_induction with
  | base =>
    obtain ⟨m', g, d', hm', hopen, hfiles⟩ := h.opened
    rw [World.disk_of_files hfiles, World.handle_of_files hfiles] at hfile
    rw [World.handle_of_files hfiles] at hnode
    have hreply := World.openFile_of_ok hm' hopen
    rw [← h.fresh] at hreply
    obtain ⟨hwrites, -⟩ := World.openFile_writes hmode hwrite hreply hfile
    rw [written_self, List.append_nil, ← hnode]
    exact hwrites.congr hfiles
  | succ k hik ih =>
    have hk := ih fun j hij hjk => sole j hij (by omega)
    have hmove := ((x.moves k).writes hk (sole k hik (by omega)) (sole (k + 1) (by omega) le_rfl)).1
    have hnext : x.written (i + 1) (k + 1) id = _ := written_succ hik id
    rw [hnext, ← List.append_assoc]
    exact hmove

/-- What a file has in it when it is opened for writing: nothing, or what it had where the mode is to
append to it. -/
theorem Opens.content (h : x.Opens i id path mode) {m : FileMode}
    (hmode : FileMode.ofText? mode = some m) (hwrite : m ≠ .read)
    (hfile : (x.world (i + 1)).disk.node ((x.world (i + 1)).store.handle id).node = .file c) :
    c = if m = .append then ((x.world i).disk.read path).toOption.getD [] else [] := by
  obtain ⟨m', g, d', hm', hopen, hfiles⟩ := h.opened
  obtain rfl : m' = m := Option.some.inj (hm'.symm.trans hmode)
  rw [World.disk_of_files hfiles, World.handle_of_files hfiles, h.fresh,
    World.handle_opened_self] at hfile
  split
  · next happend =>
    subst happend
    exact FileHandle.openFile_append hopen hfile
  · next hother =>
    have hbase := (FileHandle.openFile_holds hwrite hopen hfile).2
    rwa [if_neg hother] at hbase

/-- The path that a file has been opened with leads to it ever after. -/
theorem Opens.find (h : x.Opens i id path mode) {m : FileMode}
    (hmode : FileMode.ofText? mode = some m) (hwrite : m ≠ .read) (closed : d.Closed) (hik : i < k) :
    (x.world k).disk.find path = .ok ((x.world (i + 1)).store.handle id).node := by
  have hbegin : (x.world 0).disk = d := World.disk_of_files (w := { disk := d }) world_zero
  have hclosed : (x.world i).disk.Closed := (stays (Nat.zero_le i) (hbegin.symm ▸ closed)).1
  obtain ⟨m', g, d', hm', hopen, hfiles⟩ := h.opened
  obtain rfl : m' = m := Option.some.inj (hm'.symm.trans hmode)
  obtain ⟨hclosed', hfind⟩ := FileHandle.openFile_find hclosed hwrite hopen
  have hdisk : (x.world (i + 1)).disk = d' := World.disk_of_files hfiles
  rw [World.handle_of_files hfiles, h.fresh, World.handle_opened_self]
  obtain ⟨-, hgrows⟩ := stays (x := x) (Nat.succ_le_of_lt hik) (hdisk.symm ▸ hclosed')
  rw [hdisk] at hgrows
  exact Disk.find_of_grows hgrows hclosed' hfind

/-- A file that one handle writes to reads as the first bytes of what was there and what has been
written; all of them, once the handle is closed or flushed and nothing more has been written. -/
theorem Opens.reads (h : x.Opens i id path mode) {m : FileMode}
    (hmode : FileMode.ofText? mode = some m) (hwrite : m ≠ .read) (closed : d.Closed)
    (hfile : (x.world (i + 1)).disk.node ((x.world (i + 1)).store.handle id).node = .file c)
    (hik : i < k) (sole : ∀ j, i < j → j ≤ k →
      (x.world j).SoleWriter id ((x.world (i + 1)).store.handle id).node) :
    ∃ bytes, (x.world k).disk.read path = .ok bytes ∧
      bytes <+: c ++ x.written (i + 1) k id ∧
      ∀ j, i < j → j < k → .close id ∈ x.calls j ∨
          .flush id ∈ x.calls j ∧ x.written (j + 1) k id = [] →
        bytes = c ++ x.written (i + 1) k id := by
  have hwrites {j : Nat} (hij : i < j) (hjk : j ≤ k) :=
    h.writes hmode hwrite hfile rfl hij fun j' hij' hj' => sole j' hij' (hj'.trans hjk)
  have hk := hwrites hik le_rfl
  have hprefix := hk.holds.content_prefix
  rw [hk.node] at hprefix
  refine ⟨_, Disk.read_of_find (h.find hmode hwrite closed hik) hk.file_eq, hprefix, ?_⟩
  rintro j hij hjk (hclose | ⟨hflush, hnothing⟩)
  · exact hk.content_of_closed ((h.closed_iff hik).2 ⟨j, hij, hjk, hclose⟩)
  · -- What the flush has left in the file is whole, and from there on the file has only grown.
    have hmove := (x.moves j).writes (hwrites hij hjk.le) (sole j hij hjk.le)
      (sole (j + 1) (by omega) hjk)
    have hwhole := hmove.2.2 (.inl hflush)
    have hsame : c ++ x.written (i + 1) k id = (x.world (j + 1)).disk.content
        ((x.world (i + 1)).store.handle id).node := by
      have hnext : x.written (i + 1) (j + 1) id = _ := written_succ hij id
      rw [written_append (Nat.succ_le_succ hij.le) hjk, hnothing, List.append_nil, hnext,
        ← List.append_assoc]
      exact hwhole.symm
    have hgrows : (x.world (j + 1)).disk.content _ <+: (x.world k).disk.content _ :=
      grows hjk fun j' hj hj' => ((x.moves j').writes (hwrites (by omega) hj'.le)
        (sole j' (by omega) hj'.le) (sole (j' + 1) (by omega) hj')).2.1
    rw [hsame] at hprefix ⊢
    exact hprefix.eq_of_length (Nat.le_antisymm hprefix.length_le hgrows.length_le)

/-- Closing all files closes each that is open. -/
theorem closes_all {e e' : Ending} {m m' : Machine} (hk : x.state k = .ended e m)
    (hk' : x.state (k + 1) = .ended e' m') :
    (∀ id ∈ (x.world k).openFiles, .close id ∈ x.calls k) ∧ (x.world (k + 1)).openFiles = [] := by
  have hcalls : ∃ ids : List Nat, ids.Perm (x.world k).openFiles ∧ x.calls k = ids.map .close := by
    have hmove := x.moves k
    unfold world
    rw [hk, hk'] at hmove
    rw [hk]
    generalize x.calls k = calls at hmove
    cases hmove with
    | close e m ids all => exact ⟨ids, all, rfl⟩
  obtain ⟨ids, hperm, hcalls⟩ := hcalls
  have hall : ∀ id ∈ (x.world k).openFiles, .close id ∈ x.calls k := by
    intro id hid
    rw [hcalls]
    exact List.mem_map_of_mem (hperm.symm.subset hid)
  refine ⟨hall, List.eq_nil_iff_forall_not_mem.2 fun id hid => ?_⟩
  obtain ⟨i, hi, ⟨path, mode, hopens⟩, hnever⟩ := mem_openFiles_iff.1 hid
  rcases Nat.lt_succ_iff_lt_or_eq.1 hi with hik | rfl
  · refine hnever k hik (Nat.lt_succ_self k) (hall id ?_)
    refine mem_openFiles_iff.2 ⟨i, hik, ⟨path, mode, hopens⟩, fun j hij hjk => ?_⟩
    exact hnever j hij (by omega)
  · -- A move that closes files has opened none.
    have hopen : FileCall.open path mode ∈ ids.map FileCall.close := by
      rw [← hcalls, hopens.call]
      exact List.mem_singleton_self _
    obtain ⟨other, -, hother⟩ := List.mem_map.1 hopen
    cases hother

theorem of_running {m : Machine} (hk : x.state k = .running m) :
    x.calls k = (m.fileCall? s).toList ∧ x.state (k + 1) = m.advance s := by
  have hmove := x.moves k
  rw [hk] at hmove
  generalize x.calls k = calls, x.state (k + 1) = st at hmove
  cases hmove
  exact ⟨rfl, rfl⟩

/-- A handle that is closed refuses every call but the one to close it again. None of them does
anything to the files. -/
theorem closed_refuses {m : Machine} {call : FileCall} (hk : x.state k = .running m)
    (hcall : m.fileCall? s = some call) (htarget : call.target? = some id)
    (hclosed : ((x.world k).store.handle id).closed = true) :
    (x.world (k + 1)).files = (x.world k).files ∧
      if call = .close id then
        ∃ n : Machine, x.state (k + 1) = .running (n.push .null) ∨ x.state (k + 1) = n.deliver .null
      else ∃ (inside : Bool) (n : Machine), x.state (k + 1) = Machine.fail s inside
        (.of (.fileClosed ((x.world k).store.handle id).path)) n n.loops := by
  have hworld : x.world k = m.world := by
    unfold world
    rw [hk]
    rfl
  obtain ⟨hcalls, hnext⟩ := of_running hk
  have hreply := World.reply_of_closed htarget hclosed s.bufferSize
  refine ⟨?_, ?_⟩
  · have hperform : (call.perform s.bufferSize (x.world k)).files = (x.world k).files := by
      unfold FileCall.perform
      rw [hreply]
      split
      · have hout : id ∉ (x.world k).openFiles := by
          rw [(x.tabled k).mem_iff, hclosed]
          exact fun h => Bool.noConfusion h.2
        have hfilter : (x.world k).openFiles.filter (· ≠ id) = (x.world k).openFiles :=
          List.filter_eq_self.2 fun j hj => decide_eq_true fun hid => hout (hid ▸ hj)
        rw [hfilter]
      · rfl
    rw [files_succ, hcalls, hcall]
    exact hperform
  · obtain ⟨n, name, inside, hfiles, hgives, hfails⟩ := Machine.advance_of_fileCall hcall
    have hhandle := World.handle_of_files hfiles id
    rw [hworld] at hclosed ⊢
    have hanswer := World.reply_of_closed htarget (hhandle ▸ hclosed) s.bufferSize
    rw [hnext]
    split
    · next hclose =>
      rw [if_pos hclose] at hanswer
      exact ⟨_, hgives _ _ hanswer⟩
    · next hclose =>
      rw [if_neg hclose] at hanswer
      rw [← hhandle]
      exact ⟨inside, _, hfails _ _ hanswer⟩

end Setup.Session

/-- In a session on a sound disk, whatever programs run in it and however large the buffers are:

* the table has the handles that were opened and not closed since, each once, and none when all files
  have been closed, which closes each that was open;
* a file that is written to through one handle alone reads as the first bytes of what was there, for
  appending, and of all that has been written, in order; as all of them once the handle has been
  closed, or flushed and not written to since;
* a closed handle refuses every use with an error of files, but for closing it again, which gives
  null, and nothing of this does anything to the files. -/
theorem Setup.Session.no_write_is_lost {s : Setup} {d : Disk} (x : s.Session d) (sound : d.Closed) :
    (∀ k, (x.world k).openFiles.Nodup ∧ ∀ id, id ∈ (x.world k).openFiles ↔
      ∃ i < k, (∃ path mode, x.Opens i id path mode) ∧
        ∀ j, i < j → j < k → .close id ∉ x.calls j) ∧
    (∀ k e e' m m', x.state k = .ended e m → x.state (k + 1) = .ended e' m' →
      (∀ id ∈ (x.world k).openFiles, .close id ∈ x.calls k) ∧ (x.world (k + 1)).openFiles = []) ∧
    (∀ i k id path mode m c, i < k → x.Opens i id path mode → FileMode.ofText? mode = some m →
      m ≠ .read →
      (x.world (i + 1)).disk.node ((x.world (i + 1)).store.handle id).node = .file c →
      (∀ j, i < j → j ≤ k →
        (x.world j).SoleWriter id ((x.world (i + 1)).store.handle id).node) →
      ∃ before bytes,
        before = (if m = .append then ((x.world i).disk.read path).toOption.getD [] else []) ∧
        (x.world k).disk.read path = .ok bytes ∧
        bytes <+: before ++ x.written (i + 1) k id ∧
        ∀ j, i < j → j < k → .close id ∈ x.calls j ∨
            .flush id ∈ x.calls j ∧ x.written (j + 1) k id = [] →
          bytes = before ++ x.written (i + 1) k id) ∧
    ∀ k m id call, x.state k = .running m → m.fileCall? s = some call → call.target? = some id →
      id < (x.world k).store.handles.size → id ∉ (x.world k).openFiles →
      (x.world (k + 1)).files = (x.world k).files ∧
        if call = .close id then
          ∃ n : Machine, x.state (k + 1) = .running (n.push .null) ∨
            x.state (k + 1) = n.deliver .null
        else ∃ (inside : Bool) (n : Machine) (e : ErrorCause), e.kind = Text.ofString "IOError" ∧
          x.state (k + 1) = Machine.fail s inside (.of e) n n.loops := by
  refine ⟨fun k => ⟨(x.tabled k).nodup, fun id => mem_openFiles_iff⟩,
    fun k e e' m m' hk hk' => closes_all hk hk', ?_, ?_⟩
  · intro i k id path mode m c hik hopens hmode hwrite hfile sole
    obtain ⟨bytes, hread, hprefix, hwhole⟩ := hopens.reads hmode hwrite sound hfile hik sole
    exact ⟨c, bytes, hopens.content hmode hwrite hfile, hread, hprefix, hwhole⟩
  · intro k m id call hk hcall htarget there hout
    have hclosed : ((x.world k).store.handle id).closed = true := by
      rw [(x.tabled k).mem_iff, not_and, Bool.not_eq_false] at hout
      exact hout there
    obtain ⟨hfiles, hanswer⟩ := closed_refuses hk hcall htarget hclosed
    refine ⟨hfiles, ?_⟩
    split
    · next hclose =>
      rw [if_pos hclose] at hanswer
      exact hanswer
    · next hclose =>
      rw [if_neg hclose] at hanswer
      obtain ⟨inside, n, hfail⟩ := hanswer
      exact ⟨inside, n, _, rfl, hfail⟩

/-- The session in which a program is run over and over, with all files closed between its runs. -/
def Setup.move (s : Setup) (o : RunOptions) : Status → List FileCall × Status
  | .running m => ((m.fileCall? s).toList, m.advance s)
  | .ended e m =>
    if m.world.openFiles.isEmpty then ([], .running { world := m.world.renew o })
    else (m.world.openFiles.reverse.map .close, .ended e { m with world := m.world.closeAll.2 })

theorem Setup.moves_move (s : Setup) (o : RunOptions) (st : Status) :
    s.Moves st (s.move o st).1 (s.move o st).2 := by
  cases st with
  | running m => exact .step m
  | ended e m =>
    unfold move
    cases hopen : m.world.openFiles.isEmpty with
    | true =>
      simp only [hopen, if_true]
      exact .run e m o
    | false =>
      simp only [hopen, Bool.false_eq_true, if_false]
      exact .close e m _ (List.reverse_perm _)

def Setup.turn (s : Setup) (d : Disk) (o : RunOptions) : Nat → Status
  | 0 => .running { world := ({ disk := d } : World).renew o }
  | k + 1 => (s.move o (s.turn d o k)).2

def Setup.cycle (s : Setup) (d : Disk) (o : RunOptions) : s.Session d where
  state := s.turn d o
  calls k := (s.move o (s.turn d o k)).1
  starts := ⟨o, rfl⟩
  moves k := s.moves_move o (s.turn d o k)

/-- Writes two texts to a file that it does not close; the buffer has room for the first. -/
def Setup.noting : Setup where
  program :=
    { code? := some #[
        { op := Opcode.pushConst.code, operand := { lit := some (Literal.ofText "note") } },
        { op := Opcode.pushConst.code, operand := { lit := some (Literal.ofText "w") } },
        { op := Opcode.call.code, operand := { name := "open", int := 2 } },
        { op := Opcode.dup.code },
        { op := Opcode.pushConst.code, operand := { lit := some (Literal.ofText "abc") } },
        { op := Opcode.callMethod.code, operand := { name := "write", int := 1 } },
        { op := Opcode.pop.code },
        { op := Opcode.pushConst.code, operand := { lit := some (Literal.ofText "de") } },
        { op := Opcode.callMethod.code, operand := { name := "writeLine", int := 1 } }] }
  bufferSize := 4
  regionEnds := #[]

/-- What a program has written and left in the buffer is in the file when all files are closed. -/
theorem Setup.Session.note_is_whole_once_closed :
    (Disk.new "/").Closed ∧
      ((Setup.noting.cycle (Disk.new "/") {}).world 11).disk.read "note" = .ok "abcde\n" := by
  refine ⟨Disk.closed_new "/", ?_⟩
  let x := Setup.noting.cycle (Disk.new "/") {}
  obtain ⟨-, -, hwriting, -⟩ := x.no_write_is_lost (Disk.closed_new "/")
  have hone : (x.world 11).store.handles.size = 1 := rfl
  have hsole : ∀ j, 2 < j → j ≤ 11 →
      (x.world j).SoleWriter 0 ((x.world 3).store.handle 0).node := by
    intro j _ hj other hother hne
    have hmono := size_mono (x := x) hj
    omega
  obtain ⟨before, bytes, hbefore, hread, -, hwhole⟩ :=
    hwriting 2 11 0 "note" "w" .write [] (by omega) ⟨rfl, rfl, by decide⟩ rfl nofun rfl hsole
  have hbytes := hwhole 10 (by omega) (by omega) (.inl (List.mem_singleton_self _))
  rw [if_neg nofun] at hbefore
  rw [hbefore] at hbytes
  exact hread.trans (congrArg Except.ok hbytes)

end BytecodeMachine
