import BytecodeMachine.Files.Handle
import BytecodeMachine.Proofs.Files.Disk

/-! Writing through a buffer. The bytes of a file and those in the buffer of its handle are together
what has been written, in its order: a write appends to the two, and a flush moves the boundary
between them to the end. -/
namespace BytecodeMachine

namespace Disk

variable {d : Disk} {id : ℕ} {c : Text} {n : DiskNode}

theorem lt_size_of_file (h : d.node id = .file c) : id < d.nodes.size := by
  by_contra hout
  rw [node, Array.getElem?_eq_none (Nat.le_of_not_lt hout)] at h
  cases h

theorem content_of_file (h : d.node id = .file c) : d.content id = c := by rw [content, h]

theorem setNode_self (h : id < d.nodes.size) (hnode : d.node id = n) : d.setNode id n = d := by
  have hget : d.nodes[id] = n := by
    rw [← hnode, node, Array.getElem?_eq_getElem h]
    rfl
  have hnodes : d.nodes.setIfInBounds id n = d.nodes := by
    refine Array.ext_getElem? fun j => ?_
    rw [Array.getElem?_setIfInBounds]
    split
    · next hj =>
      subst hj
      rw [Array.getElem?_eq_getElem h, hget]
    · rfl
  unfold setNode
  rw [hnodes]

theorem setNode_setNode (d : Disk) (id : ℕ) (n n' : DiskNode) :
    (d.setNode id n).setNode id n' = d.setNode id n' := by
  unfold setNode
  simp

theorem splice_end (c data : Text) : splice c data c.length = c ++ data := by simp [splice]

end Disk

namespace FileHandle

variable {h : FileHandle} {d : Disk} {c all data : Text}

/-- Whether the next bytes that a handle gives to its file come after those that are there. -/
def AtEnd (h : FileHandle) (c : Text) : Prop :=
  h.mode = .append ∨ h.mode = .write ∧ h.offset = c.length

/-- A handle in order for writing: no write to its file has failed, and the file has all that has been
written but for what is in the buffer. -/
structure Holds (h : FileHandle) (d : Disk) (all : Text) : Prop where
  sound : h.failure = none
  file : ∃ c, d.node h.node = .file c ∧ c ++ h.buffer = all ∧ h.AtEnd c

/-- What an operation leaves of a handle in order. The bytes that were in the file are still at its
front, and but for the file and the state of the handle nothing has changed. -/
structure Leaves (h : FileHandle) (d : Disk) (all : Text) (r : FileHandle × Disk) : Prop where
  handle : r.1 = { h with buffer := r.1.buffer, offset := r.1.offset }
  disk : r.2 = d.setNode h.node (r.2.node h.node)
  holds : r.1.Holds r.2 all
  grows : d.content h.node <+: r.2.content h.node

theorem AtEnd.offset (hend : h.AtEnd c) :
    (if h.mode = .append then c.length else h.offset) = c.length := by
  rcases hend with hmode | ⟨hmode, hoffset⟩
  · exact if_pos hmode
  · rw [hmode, if_neg nofun, hoffset]

theorem AtEnd.writes (hend : h.AtEnd c) : h.mode ≠ .read := by
  rcases hend with hmode | ⟨hmode, -⟩
  · rw [hmode]
    exact nofun
  · rw [hmode]
    exact nofun

/-- What is given to the file comes after what is there. -/
theorem put_of_file (hfile : d.node h.node = .file c) (hend : h.AtEnd c) (data : Text) :
    h.put d data = ({ h with offset := c.length + data.length },
      d.setNode h.node (.file (c ++ data))) := by
  unfold put
  rw [Disk.content_of_file hfile, hend.offset]
  unfold Disk.write
  rw [hfile]
  dsimp only
  rw [Disk.splice_end]

namespace Leaves

theorem refl (hh : h.Holds d all) : h.Leaves d all (h, d) := by
  obtain ⟨c, hfile, -⟩ := hh.file
  refine ⟨rfl, ?_, hh, List.prefix_rfl⟩
  exact (Disk.setNode_self (Disk.lt_size_of_file hfile) rfl).symm

theorem trans {r r' : FileHandle × Disk} {all' : Text} (h₁ : h.Leaves d all r)
    (h₂ : r.1.Leaves r.2 all' r') : h.Leaves d all' r' := by
  have hnode : r.1.node = h.node := by rw [h₁.handle]
  obtain ⟨hhandle, hdisk, hholds, hgrows⟩ := h₂
  rw [hnode] at hdisk hgrows
  refine ⟨?_, ?_, hholds, h₁.grows.trans hgrows⟩
  · rw [hhandle, h₁.handle]
  · calc r'.2 = r.2.setNode h.node (r'.2.node h.node) := hdisk
      _ = (d.setNode h.node (r.2.node h.node)).setNode h.node (r'.2.node h.node) := by
        rw [← h₁.disk]
      _ = d.setNode h.node (r'.2.node h.node) := Disk.setNode_setNode ..

/-- Bytes are put at the end of the buffer. -/
theorem buffered (hh : h.Holds d all) (s : Text) :
    h.Leaves d (all ++ s) ({ h with buffer := h.buffer ++ s }, d) := by
  obtain ⟨c, hfile, hall, hend⟩ := hh.file
  refine ⟨rfl, (refl hh).disk, ⟨hh.sound, c, hfile, ?_, hend⟩, List.prefix_rfl⟩
  rw [← List.append_assoc, hall]

/-- Bytes are put at the end of the file, and the buffer is empty. -/
theorem placed (sound : h.failure = none) (hfile : d.node h.node = .file c) (hend : h.AtEnd c)
    (data : Text) : h.Leaves d (c ++ data) ({ h with buffer := [], offset := c.length + data.length },
      d.setNode h.node (.file (c ++ data))) := by
  have hafter : (d.setNode h.node (.file (c ++ data))).node h.node = .file (c ++ data) :=
    Disk.node_setNode_self (Disk.lt_size_of_file hfile) _
  refine ⟨rfl, by rw [hafter], ⟨sound, c ++ data, hafter, List.append_nil _, ?_⟩, ?_⟩
  · rcases hend with hmode | ⟨hmode, -⟩
    · exact .inl hmode
    · exact .inr ⟨hmode, List.length_append.symm⟩
  · rw [Disk.content_of_file hfile, Disk.content_of_file hafter]
    exact List.prefix_append _ _

end Leaves

/-- After a flush the file has all that has been written. -/
theorem flush_leaves (hh : h.Holds d all) :
    h.Leaves d all (h.flush d) ∧ (h.flush d).1.buffer = [] := by
  obtain ⟨c, hfile, hall, hend⟩ := hh.file
  by_cases hempty : h.buffer = []
  · have hflush : h.flush d = (h, d) := by simp [flush, hempty]
    rw [hflush]
    exact ⟨Leaves.refl hh, hempty⟩
  · have hflush : h.flush d = ({ h with buffer := [], offset := c.length + h.buffer.length },
        d.setNode h.node (.file (c ++ h.buffer))) := by
      simp [flush, hempty, put_of_file hfile hend, hh.sound]
    rw [hflush, ← hall]
    exact ⟨Leaves.placed hh.sound hfile hend h.buffer, rfl⟩

/-- With an empty buffer one round is enough. -/
theorem writeRounds_of_empty (hh : h.Holds d all) (hbuffer : h.buffer = []) (n : ℕ) (s : Text) :
    h.Leaves d (all ++ s) (h.writeRounds (n + 1) d s) := by
  obtain ⟨c, hfile, hall, hend⟩ := hh.file
  have hc : c = all := by rw [← hall, hbuffer, List.append_nil]
  subst hc
  by_cases hroom : s.length ≤ h.capacity
  · have hwrite : h.writeRounds (n + 1) d s = ({ h with buffer := h.buffer ++ s }, d) := by
      simp [writeRounds, hh.sound, hbuffer, hroom]
    rw [hwrite]
    exact Leaves.buffered hh s
  · have hwrite : h.writeRounds (n + 1) d s = ({ h with buffer := [], offset := c.length + s.length },
        d.setNode h.node (.file (c ++ s))) := by
      simp [writeRounds, hh.sound, hbuffer, hroom, put_of_file hfile hend]
    rw [hwrite]
    exact Leaves.placed hh.sound hfile hend s

/-- What is written comes after all that has been written before, however long it is and however
large the buffer. -/
theorem write_leaves (hh : h.Holds d all) (s : Text) : h.Leaves d (all ++ s) (h.write d s) := by
  by_cases hempty : h.buffer = []
  · exact writeRounds_of_empty hh hempty 2 s
  by_cases hroom : s.length ≤ h.capacity - h.buffer.length
  · have hwrite : h.write d s = ({ h with buffer := h.buffer ++ s }, d) := by
      simp [write, writeRounds, hh.sound, hroom]
    rw [hwrite]
    exact Leaves.buffered hh s
  -- The buffer is filled and flushed, and the rest is written with an empty one.
  let room := h.capacity - h.buffer.length
  have hfilled := Leaves.buffered hh (s.take room)
  obtain ⟨hflushed, hbuffer⟩ := flush_leaves hfilled.holds
  let r := FileHandle.flush { h with buffer := h.buffer ++ s.take room } d
  have hwrite : h.write d s = r.1.writeRounds 2 r.2 (s.drop room) := by
    simp [write, writeRounds, hh.sound, hroom, hempty, r, room]
  have hrest := writeRounds_of_empty hflushed.holds hbuffer 1 (s.drop room)
  rw [List.append_assoc, List.take_append_drop] at hrest
  rw [hwrite]
  exact (hfilled.trans hflushed).trans hrest

/-- What a flush or a close leaves is whole. -/
theorem Holds.content_eq {r : FileHandle × Disk} (hh : r.1.Holds r.2 all) (hbuffer : r.1.buffer = []) :
    r.2.content r.1.node = all := by
  obtain ⟨c, hfile, hall, -⟩ := hh.file
  rw [Disk.content_of_file hfile, ← hall, hbuffer, List.append_nil]

/-- The file has the first bytes of what has been written. -/
theorem Holds.content_prefix (hh : h.Holds d all) : d.content h.node <+: all := by
  obtain ⟨c, hfile, hall, -⟩ := hh.file
  rw [Disk.content_of_file hfile, ← hall]
  exact List.prefix_append _ _

/-- A handle stays in order as long as its file does. -/
theorem Holds.congr {d' : Disk} (hh : h.Holds d all) (hnode : d'.node h.node = d.node h.node) :
    h.Holds d' all := by
  obtain ⟨c, hfile, hrest⟩ := hh.file
  exact ⟨hh.sound, c, hnode.trans hfile, hrest⟩

end FileHandle

/-- Every path still leads where it led. -/
theorem FileHandle.Leaves.extends {h : FileHandle} {d : Disk} {before all : Text}
    {r : FileHandle × Disk} (hr : h.Leaves d all r) (hh : h.Holds d before) : Disk.Grows d r.2 := by
  obtain ⟨c, hfile, -⟩ := hh.file
  rw [hr.disk]
  refine Disk.grows_setNode (fun parent entries hdir => ?_) _
  cases hdir.symm.trans hfile

/-! What a handle does to others, in order or not. -/

namespace FileHandle

/-- What an operation on a handle may touch: its buffer, its place, its failure, and the node of its
file. -/
structure Touches (h : FileHandle) (d : Disk) (r : FileHandle × Disk) : Prop where
  node : r.1.node = h.node
  mode : r.1.mode = h.mode
  path : r.1.path = h.path
  closed : r.1.closed = h.closed
  others : ∀ j, j ≠ h.node → r.2.node j = d.node j

variable {h : FileHandle} {d : Disk} {r r' : FileHandle × Disk}

theorem Touches.refl (h : FileHandle) (d : Disk) : h.Touches d (h, d) :=
  ⟨rfl, rfl, rfl, rfl, fun _ _ => rfl⟩

theorem Touches.trans (h₁ : h.Touches d r) (h₂ : r.1.Touches r.2 r') : h.Touches d r' :=
  ⟨h₂.node.trans h₁.node, h₂.mode.trans h₁.mode, h₂.path.trans h₁.path, h₂.closed.trans h₁.closed,
    fun j hj => (h₂.others j (h₁.node ▸ hj)).trans (h₁.others j hj)⟩

theorem write_others {d' : Disk} {node offset j : ℕ} {data : Text}
    (hwrite : d.write node offset data = .ok d') (hj : j ≠ node) : d'.node j = d.node j := by
  unfold Disk.write at hwrite
  split at hwrite
  · cases hwrite
    rw [Disk.node_setNode, if_neg (fun h => hj h.1.symm)]
  · cases hwrite
    rfl
  · split at hwrite
    · cases hwrite
      rfl
    · cases hwrite
  · cases hwrite

theorem put_touches (h : FileHandle) (d : Disk) (data : Text) : h.Touches d (h.put d data) := by
  unfold put
  dsimp only
  split
  · next d' hwrite => exact ⟨rfl, rfl, rfl, rfl, fun j hj => write_others hwrite hj⟩
  · exact ⟨rfl, rfl, rfl, rfl, fun _ _ => rfl⟩

theorem flush_touches (h : FileHandle) (d : Disk) : h.Touches d (h.flush d) := by
  unfold flush
  split
  · exact .refl h d
  · have hput := put_touches h d h.buffer
    dsimp only
    split
    · exact hput
    · exact { hput with }

theorem writeRounds_touches (n : ℕ) (h : FileHandle) (d : Disk) (t : Text) :
    h.Touches d (h.writeRounds n d t) := by
  induction n generalizing h d t with
  | zero => exact .refl h d
  | succ n ih =>
    unfold writeRounds
    split
    · exact .refl h d
    · dsimp only
      split
      · exact ⟨rfl, rfl, rfl, rfl, fun _ _ => rfl⟩
      · split
        · exact put_touches h d t
        · have hflush := flush_touches
            { h with buffer := h.buffer ++ t.take (h.capacity - h.buffer.length) } d
          exact Touches.trans { hflush with } (ih _ _ _)

end FileHandle

/-! Opening. -/

namespace Disk

variable {d d' : Disk} {id dir j : ℕ} {name path c : Text}

/-- A path that is opened for writing leads to a node that was there, or to a new one. -/
theorem create_cases (h : d.create path = .ok (id, d')) :
    d' = d ∨ ∃ dir name, d.attach dir name (.file []) = (id, d') := by
  unfold create at h
  split at h
  · split at h
    · cases h
    · cases h
      exact .inl rfl
  · split at h
    · cases h
    · next name _ =>
      split at h
      · cases h
      · split at h
        · cases h
        · next dir _ =>
          split at h
          · split at h
            · cases h
            · exact .inr ⟨dir, name, Except.ok.inj h⟩
          · cases h
  · cases h

theorem node_push_self (d : Disk) (n : DiskNode) :
    ({ d with nodes := d.nodes.push n } : Disk).node d.nodes.size = n := by
  unfold node
  rw [Array.getElem?_push_size]
  rfl

theorem node_push_of_lt (h : j < d.nodes.size) (n : DiskNode) :
    ({ d with nodes := d.nodes.push n } : Disk).node j = d.node j := by
  unfold node
  rw [Array.getElem?_push_lt h, Array.getElem?_eq_getElem h]

/-- A new node changes no file. -/
theorem node_attach_of_file (h : d.node j = .file c) (dir : ℕ) (name : Text) (n : DiskNode) :
    (d.attach dir name n).2.node j = .file c := by
  have hlt := lt_size_of_file h
  have hpush : ({ d with nodes := d.nodes.push n } : Disk).node j = .file c :=
    (node_push_of_lt hlt n).trans h
  unfold attach
  dsimp only
  split
  · next parent entries hdir =>
    rw [node_setNode, if_neg, hpush]
    rintro ⟨rfl, -⟩
    cases hdir.symm.trans hpush
  · exact hpush

/-- A new file is empty. -/
theorem content_attach (h : d.attach dir name (.file []) = (id, d')) (hfile : d'.node id = .file c) :
    c = [] ∧ d.content id = [] := by
  have hid : d.nodes.size = id := by
    unfold attach at h
    dsimp only at h
    split at h <;> exact congrArg Prod.fst h
  subst hid
  have hout : d.node d.nodes.size = default := by
    rw [node, Array.getElem?_eq_none le_rfl]
    rfl
  refine ⟨?_, by rw [content, hout]; rfl⟩
  unfold attach at h
  dsimp only at h
  split at h
  · obtain rfl := congrArg Prod.snd h
    dsimp only at hfile
    rw [node_setNode] at hfile
    split at hfile
    · cases hfile
    · exact (DiskNode.file.inj ((node_push_self d _).symm.trans hfile)).symm
  · obtain rfl := congrArg Prod.snd h
    exact (DiskNode.file.inj ((node_push_self d _).symm.trans hfile)).symm

theorem node_truncate (d : Disk) (id : ℕ) (hfile : (d.truncate id).node id = .file c) : c = [] := by
  unfold truncate at hfile
  split at hfile
  · next c' hnode =>
    rw [node_setNode_self (lt_size_of_file hnode)] at hfile
    exact (DiskNode.file.inj hfile).symm
  · next hnode => exact absurd hfile (hnode c)

end Disk

namespace FileHandle

variable {h : FileHandle} {d d' : Disk} {path c : Text} {mode : FileMode} {capacity : ℕ}

/-- A file that was opened to write to it has nothing in it but what was there, where it is appended
to. -/
theorem openFile_holds (hmode : mode ≠ .read) (hopen : openFile d path mode capacity = .ok (h, d'))
    (hfile : d'.node h.node = .file c) :
    h.Holds d' c ∧ c = if mode = .append then d.content h.node else [] := by
  unfold openFile at hopen
  cases mode with
  | read => exact absurd rfl hmode
  | write =>
    dsimp only at hopen
    split at hopen
    · cases hopen
    · next id d₁ hcreate =>
      cases hopen
      obtain rfl : c = [] := Disk.node_truncate d₁ id hfile
      exact ⟨⟨rfl, [], hfile, rfl, .inr ⟨rfl, rfl⟩⟩, rfl⟩
  | append =>
    dsimp only at hopen
    split at hopen
    · cases hopen
    · next id d₁ hcreate =>
      cases hopen
      refine ⟨⟨rfl, c, hfile, List.append_nil c, .inl rfl⟩, ?_⟩
      rw [if_pos rfl]
      rcases Disk.create_cases hcreate with hsame | ⟨dir, name, hattach⟩
      · rw [← hsame]
        exact (Disk.content_of_file hfile).symm
      · obtain ⟨hc, hnone⟩ := Disk.content_attach hattach hfile
        rw [hc, hnone]

/-- Opening a file changes no other file, and none at all where it is to be read. -/
theorem openFile_node {j : ℕ} (hopen : openFile d path mode capacity = .ok (h, d'))
    (hj : d.node j = .file c) (hrival : h.mode = .read ∨ h.node ≠ j) : d'.node j = .file c := by
  have hcreated {id : ℕ} {d₁ : Disk} (hcreate : d.create path = .ok (id, d₁)) :
      d₁.node j = .file c := by
    rcases Disk.create_cases hcreate with rfl | ⟨dir, name, hattach⟩
    · exact hj
    · rw [← show (d.attach dir name (.file [])).2 = d₁ from congrArg Prod.snd hattach]
      exact Disk.node_attach_of_file hj dir name _
  unfold openFile at hopen
  cases mode with
  | read =>
    dsimp only at hopen
    split at hopen
    · cases hopen
    · cases hopen
      exact hj
  | write =>
    dsimp only at hopen
    split at hopen
    · cases hopen
    · next id d₁ hcreate =>
      cases hopen
      have hne : id ≠ j := hrival.resolve_left nofun
      rw [if_pos rfl, Disk.truncate]
      split
      · rw [Disk.node_setNode, if_neg (fun h => hne h.1)]
        exact hcreated hcreate
      · exact hcreated hcreate
  | append =>
    dsimp only at hopen
    split at hopen
    · cases hopen
    · next id d₁ hcreate =>
      cases hopen
      exact hcreated hcreate

/-- A handle starts open, in the mode it was asked for. -/
theorem openFile_fresh (hopen : openFile d path mode capacity = .ok (h, d')) :
    h.mode = mode ∧ h.closed = false := by
  unfold openFile at hopen
  cases mode
  all_goals
    dsimp only at hopen
    split at hopen
    · cases hopen
    · cases hopen
      exact ⟨rfl, rfl⟩

/-- The path of a file that was opened to write to it leads to that file. -/
theorem openFile_find (closed : d.Closed) (hmode : mode ≠ .read)
    (hopen : openFile d path mode capacity = .ok (h, d')) :
    d'.Closed ∧ d'.find path = .ok h.node := by
  have hcreated : ∃ id d₁, d.create path = .ok (id, d₁) ∧ h.node = id ∧
      d' = if mode = .write then d₁.truncate id else d₁ := by
    unfold openFile at hopen
    cases mode with
    | read => exact absurd rfl hmode
    | _ =>
      dsimp only at hopen
      split at hopen
      · cases hopen
      · next id d₁ hcreate =>
        cases hopen
        exact ⟨id, d₁, hcreate, rfl, rfl⟩
  obtain ⟨id, d₁, hcreate, hnode, rfl⟩ := hcreated
  obtain ⟨hclosed, hfind, -⟩ := Disk.create_spec closed hcreate
  rw [hnode]
  split
  · unfold Disk.truncate
    split
    · next hfile =>
      have hgrows : Disk.Grows d₁ (d₁.setNode id (.file [])) :=
        Disk.grows_setNode (fun parent entries hdir => by cases hdir.symm.trans hfile) _
      exact ⟨Disk.closed_setNode hclosed nofun, Disk.find_of_grows hgrows hclosed hfind⟩
    · exact ⟨hclosed, hfind⟩
  · exact ⟨hclosed, hfind⟩

end FileHandle

end BytecodeMachine
