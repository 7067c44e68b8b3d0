import BytecodeMachine.Files.Disk
import Mathlib.Data.List.Basic
import Mathlib.Order.Nat

/-!
Files read back after they are written. A disk only grows: making a file adds a node and a name for
it, and every path that led somewhere before still leads there.
-/
namespace BytecodeMachine.Disk

variable {d d' d'' : Disk} {id dir : ℕ} {name path data : Text}

/-- A disk with a root whose directories lead to nodes that are there. -/
structure Closed (d : Disk) : Prop where
  root : 0 < d.nodes.size
  links : ∀ id < d.nodes.size, ∀ parent entries, d.node id = .directory parent entries →
    parent < d.nodes.size ∧ ∀ e ∈ entries, e.2 < d.nodes.size

/-- A disk that has all directories of another one, which may have got further entries. -/
structure Grows (d d' : Disk) : Prop where
  cwd : d'.cwd = d.cwd
  size : d.nodes.size ≤ d'.nodes.size
  directory : ∀ id < d.nodes.size, ∀ parent entries, d.node id = .directory parent entries →
    ∃ more, d'.node id = .directory parent (entries ++ more)

theorem Grows.refl (d : Disk) : Grows d d :=
  ⟨rfl, le_rfl, fun _ _ _ entries h => ⟨[], by rw [h, List.append_nil]⟩⟩

theorem Grows.trans (h : Grows d d') (h' : Grows d' d'') : Grows d d'' where
  cwd := h'.cwd.trans h.cwd
  size := h.size.trans h'.size
  directory := by
    intro id hid parent entries hnode
    obtain ⟨more, hmore⟩ := h.directory id hid parent entries hnode
    obtain ⟨yet, hyet⟩ := h'.directory id (hid.trans_le h.size) parent _ hmore
    exact ⟨more ++ yet, by rw [hyet, List.append_assoc]⟩

section Nodes

theorem size_setNode (d : Disk) (id : ℕ) (n : DiskNode) :
    (d.setNode id n).nodes.size = d.nodes.size := Array.size_setIfInBounds

theorem node_setNode (d : Disk) (id : ℕ) (n : DiskNode) (j : ℕ) :
    (d.setNode id n).node j = if id = j ∧ j < d.nodes.size then n else d.node j := by
  unfold node setNode
  dsimp only
  rw [Array.getElem?_setIfInBounds]
  by_cases hj : id = j
  · subst hj
    by_cases hlt : id < d.nodes.size
    · simp [hlt]
    · simp [hlt]
  · simp [hj]

theorem node_setNode_self (hid : id < d.nodes.size) (n : DiskNode) :
    (d.setNode id n).node id = n := by
  rw [node_setNode, if_pos ⟨rfl, hid⟩]

/-- Writing into a node that is no directory changes no directory. -/
theorem grows_setNode (h : ∀ parent entries, d.node id ≠ .directory parent entries) (n : DiskNode) :
    Grows d (d.setNode id n) where
  cwd := rfl
  size := (size_setNode d id n).ge
  directory := by
    intro j _ parent entries hj
    refine ⟨[], ?_⟩
    rw [node_setNode, if_neg, hj, List.append_nil]
    rintro ⟨rfl, -⟩
    exact h parent entries hj

variable {parent : ℕ} {entries : List (Text × ℕ)}

theorem attach_eq (hlt : dir < d.nodes.size) (hdir : d.node dir = .directory parent entries)
    (name : Text) (n : DiskNode) : d.attach dir name n =
      (d.nodes.size, ({ d with nodes := d.nodes.push n } : Disk).setNode dir
        (.directory parent (entries ++ [(name, d.nodes.size)]))) := by
  have hnode : ({ d with nodes := d.nodes.push n } : Disk).node dir = .directory parent entries := by
    rw [← hdir]
    unfold node
    dsimp only
    rw [Array.getElem?_push_lt hlt, Array.getElem?_eq_getElem hlt]
  unfold attach
  dsimp only
  rw [hnode]

theorem size_attach (hlt : dir < d.nodes.size) (hdir : d.node dir = .directory parent entries)
    (name : Text) (n : DiskNode) : (d.attach dir name n).2.nodes.size = d.nodes.size + 1 := by
  rw [attach_eq hlt hdir, size_setNode, Array.size_push]

/-- The nodes of a disk with a new node in a directory. -/
theorem node_attach (hlt : dir < d.nodes.size) (hdir : d.node dir = .directory parent entries)
    (name : Text) (n : DiskNode) (j : ℕ) : (d.attach dir name n).2.node j =
      if dir = j then .directory parent (entries ++ [(name, d.nodes.size)])
      else if j = d.nodes.size then n else d.node j := by
  rw [attach_eq hlt hdir, node_setNode]
  dsimp only
  rw [Array.size_push]
  by_cases hj : dir = j
  · rw [if_pos ⟨hj, by omega⟩, if_pos hj]
  · rw [if_neg (fun h => hj h.1), if_neg hj]
    unfold node
    rw [Array.getElem?_push]
    split <;> rfl

theorem grows_attach (hlt : dir < d.nodes.size) (hdir : d.node dir = .directory parent entries)
    (name : Text) (n : DiskNode) : Grows d (d.attach dir name n).2 where
  cwd := by rw [attach_eq hlt hdir]; rfl
  size := by rw [size_attach hlt hdir]; exact Nat.le_succ _
  directory := by
    intro j hj p es hnode
    rw [node_attach hlt hdir]
    by_cases hdj : dir = j
    · subst hdj
      rw [hdir] at hnode
      cases hnode
      exact ⟨_, by rw [if_pos rfl]⟩
    · exact ⟨[], by rw [if_neg hdj, if_neg hj.ne, hnode, List.append_nil]⟩

/-- A node that a disk may have: a directory leads to nodes that are there. -/
theorem closed_setNode (closed : d.Closed) {n : DiskNode}
    (hn : ∀ p es, n = .directory p es → p < d.nodes.size ∧ ∀ e ∈ es, e.2 < d.nodes.size) :
    (d.setNode id n).Closed where
  root := by rw [size_setNode]; exact closed.root
  links := by
    intro j hj p es hnode
    rw [size_setNode] at hj ⊢
    rw [node_setNode] at hnode
    split at hnode
    · exact hn p es hnode
    · exact closed.links j hj p es hnode

theorem closed_push (closed : d.Closed) {n : DiskNode}
    (hn : ∀ p es, n = .directory p es → p < d.nodes.size ∧ es = []) :
    ({ d with nodes := d.nodes.push n } : Disk).Closed := by
  refine ⟨?_, fun j hj p es hnode => ?_⟩
  · rw [Array.size_push]
    exact Nat.succ_pos _
  · rw [Array.size_push] at hj ⊢
    unfold node at hnode
    rw [Array.getElem?_push] at hnode
    split at hnode
    · obtain ⟨hp, rfl⟩ := hn p es hnode
      exact ⟨hp.trans (Nat.lt_succ_self _), nofun⟩
    · obtain ⟨hp, hes⟩ := closed.links j (by omega) p es hnode
      exact ⟨hp.trans (Nat.lt_succ_self _), fun e he => (hes e he).trans (Nat.lt_succ_self _)⟩

/-- A new node is a file, or a directory without entries. -/
theorem closed_attach (closed : d.Closed) (hlt : dir < d.nodes.size) {n : DiskNode}
    (hn : ∀ p es, n = .directory p es → p < d.nodes.size ∧ es = []) (name : Text) :
    (d.attach dir name n).2.Closed := by
  have hpush := closed_push closed hn
  unfold attach
  dsimp only
  split
  · next parent entries hdir =>
    refine closed_setNode hpush fun p es h => ?_
    cases h
    obtain ⟨hp, hes⟩ := hpush.links dir (by rw [Array.size_push]; omega) _ _ hdir
    refine ⟨hp, fun e he => ?_⟩
    rcases List.mem_append.1 he with he | he
    · exact hes e he
    · rw [List.mem_singleton.1 he, Array.size_push]
      exact Nat.lt_succ_self _
  · exact hpush

end Nodes

section Paths

theorem enter_lt (closed : d.Closed) (hdir : dir < d.nodes.size)
    (h : d.enter dir name = .ok id) : id < d.nodes.size := by
  unfold enter at h
  split at h
  · next hnode =>
    split at h
    · cases h
      exact hdir
    · split at h
      · cases h
        exact (closed.links dir hdir _ _ hnode).1
      · split at h
        · cases h
        · split at h
          · next hlookup =>
            cases h
            obtain ⟨before, after, rfl, -⟩ := List.lookup_eq_some_iff.1 hlookup
            exact (closed.links dir hdir _ _ hnode).2 (name, id) (by simp)
          · cases h
  · cases h

theorem walk_lt (closed : d.Closed) {cs : List Text} (hdir : dir < d.nodes.size)
    (h : d.walk dir cs = .ok id) : id < d.nodes.size := by
  induction cs generalizing dir with
  | nil =>
    cases h
    exact hdir
  | cons c cs ih =>
    rw [walk] at h
    split at h
    · next next hnext => exact ih (enter_lt closed hdir hnext) h
    · cases h

theorem enter_of_grows (h : Grows d d') (hdir : dir < d.nodes.size)
    (hid : d.enter dir name = .ok id) : d'.enter dir name = .ok id := by
  unfold enter at hid ⊢
  split at hid
  · next parent entries hnode =>
    obtain ⟨more, hmore⟩ := h.directory dir hdir parent entries hnode
    rw [hmore]
    dsimp only
    split at hid
    · next hdot => rw [if_pos hdot]; exact hid
    · next hdot =>
      rw [if_neg hdot]
      split at hid
      · next hup => rw [if_pos hup]; exact hid
      · next hup =>
        rw [if_neg hup]
        split at hid
        · cases hid
        · next hlong =>
          rw [if_neg hlong]
          split at hid
          -- New entries stand behind the old ones, and the first one of a name counts.
          · next hlookup => rw [List.lookup_append, hlookup]; exact hid
          · cases hid
  · cases hid

theorem walk_of_grows (h : Grows d d') (closed : d.Closed) {cs : List Text}
    (hdir : dir < d.nodes.size) (hid : d.walk dir cs = .ok id) : d'.walk dir cs = .ok id := by
  induction cs generalizing dir with
  | nil => exact hid
  | cons c cs ih =>
    rw [walk] at hid ⊢
    split at hid
    · next next hnext =>
      rw [enter_of_grows h hdir hnext]
      exact ih (enter_lt closed hdir hnext) hid
    · cases hid

theorem walk_append (d : Disk) (from_ : ℕ) (cs : List Text) (name : Text) :
    d.walk from_ (cs ++ [name]) = (d.walk from_ cs).bind fun dir => d.enter dir name := by
  induction cs generalizing from_ with
  | nil =>
    show d.walk from_ [name] = d.enter from_ name
    rw [walk]
    cases d.enter from_ name <;> rfl
  | cons c cs ih =>
    rw [List.cons_append, walk, walk]
    cases d.enter from_ c with
    | error e => rfl
    | ok next => exact ih next

theorem fromRoot_of_grows (h : Grows d d') (path : Text) : d'.fromRoot path = d.fromRoot path := by
  rw [fromRoot, fromRoot, h.cwd]

theorem find_lt (closed : d.Closed) (h : d.find path = .ok id) : id < d.nodes.size := by
  unfold find at h
  split at h
  · cases h
  · split at h
    · cases h
    · split at h
      · cases h
      · next hwalk =>
        have hlt := walk_lt closed closed.root hwalk
        split at h
        · split at h
          · cases h
            exact hlt
          · cases h
        · cases h
          exact hlt

/-- A path still leads where it led before. -/
theorem find_of_grows (h : Grows d d') (closed : d.Closed) (hid : d.find path = .ok id) :
    d'.find path = .ok id := by
  unfold find at hid ⊢
  split at hid
  · cases hid
  · next hempty =>
    rw [if_neg hempty]
    split at hid
    · cases hid
    · next hzero =>
      rw [if_neg hzero, fromRoot_of_grows h]
      split at hid
      · cases hid
      · next there hwalk =>
        have hlt := walk_lt closed closed.root hwalk
        rw [walk_of_grows h closed closed.root hwalk]
        dsimp only
        split at hid
        · next hslash =>
          rw [if_pos hslash]
          split at hid
          · next parent entries hnode =>
            obtain ⟨more, hmore⟩ := h.directory there hlt parent entries hnode
            rw [hmore]
            exact hid
          · cases hid
        · next hslash =>
          rw [if_neg hslash]
          exact hid

end Paths

section Writing

/-- A name that is missing in a directory leads to the node that is attached under it. -/
theorem enter_attach {parent : ℕ} {entries : List (Text × ℕ)} (hlt : dir < d.nodes.size)
    (hdir : d.node dir = .directory parent entries) (hmissing : d.enter dir name = .error .notFound)
    (n : DiskNode) : (d.attach dir name n).2.enter dir name = .ok d.nodes.size := by
  unfold enter at hmissing ⊢
  rw [hdir] at hmissing
  rw [node_attach hlt hdir, if_pos rfl]
  dsimp only at hmissing ⊢
  split at hmissing
  · cases hmissing
  · next hdot =>
    rw [if_neg hdot]
    split at hmissing
    · cases hmissing
    · next hup =>
      rw [if_neg hup]
      split at hmissing
      · cases hmissing
      · next hlong =>
        rw [if_neg hlong]
        split at hmissing
        · cases hmissing
        · next hlookup =>
          rw [List.lookup_append, hlookup]
          simp

theorem find_eq_of_walk {path : Text} (hempty : path.isEmpty = false) (hzero : path.contains 0 = false)
    (hslash : asksDirectory path = false) (hwalk : d.walk 0 (d.fromRoot path) = .ok id) :
    d.find path = .ok id := by
  unfold find
  rw [hempty, hzero, hwalk, hslash]
  rfl

theorem walk_of_find_eq_notFound (hempty : ¬path.isEmpty = true)
    (h : d.find path = .error .notFound) :
    path.contains 0 = false ∧ d.walk 0 (d.fromRoot path) = .error .notFound := by
  unfold find at h
  rw [if_neg hempty] at h
  split at h
  · cases h
  · next hzero =>
    refine ⟨Bool.eq_false_iff.2 hzero, ?_⟩
    split at h
    · next e hwalk =>
      cases h
      exact hwalk
    · split at h
      · split at h <;> cases h
      · cases h

/-- A path of which only the last name is missing leads to the node that is attached under it. -/
theorem find_attach {parent : ℕ} {entries : List (Text × ℕ)} (closed : d.Closed)
    (hfind : d.find path = .error .notFound) (hempty : ¬path.isEmpty = true)
    (hslash : ¬asksDirectory path = true) (hlast : (d.fromRoot path).getLast? = some name)
    (hwalk : d.walk 0 (d.fromRoot path).dropLast = .ok dir)
    (hdir : d.node dir = .directory parent entries) (n : DiskNode) :
    (d.attach dir name n).2.find path = .ok d.nodes.size := by
  have hlt : dir < d.nodes.size := walk_lt closed closed.root hwalk
  have hgrows := grows_attach hlt hdir name n
  have hsplit : d.fromRoot path = (d.fromRoot path).dropLast ++ [name] :=
    (List.dropLast_append_getLast? name hlast).symm
  obtain ⟨hzero, hmissing⟩ := walk_of_find_eq_notFound hempty hfind
  rw [hsplit, walk_append, hwalk] at hmissing
  refine find_eq_of_walk (Bool.eq_false_iff.2 hempty) hzero (Bool.eq_false_iff.2 hslash) ?_
  -- The walk to the directory is the one on the old disk; only its last step is new.
  rw [fromRoot_of_grows hgrows, hsplit, walk_append,
    walk_of_grows hgrows closed closed.root hwalk]
  exact enter_attach hlt hdir hmissing n

/-- A path that is opened for writing leads to a node that is no directory, and that is an empty file
unless it was there before. -/
theorem create_spec (closed : d.Closed) (h : d.create path = .ok (id, d')) :
    d'.Closed ∧ d'.find path = .ok id ∧ id < d'.nodes.size ∧
      (∀ parent entries, d'.node id ≠ .directory parent entries) ∧
      (d.find path = .ok id ∧ d' = d ∨ d'.node id = .file []) := by
  unfold create at h
  split at h
  · next there hfind =>
    split at h
    · cases h
    · next hnode =>
      cases h
      exact ⟨closed, hfind, find_lt closed hfind, hnode, .inl ⟨hfind, rfl⟩⟩
  · next hfind =>
    split at h
    · cases h
    · next name hlast =>
      split at h
      · cases h
      · next hempty =>
        split at h
        · cases h
        · next dir hwalk =>
          split at h
          · next parent entries hdir =>
            split at h
            · cases h
            · next hslash =>
              have hlt : dir < d.nodes.size := walk_lt closed closed.root hwalk
              have hattach := Except.ok.inj h
              have hid : d.nodes.size = id := by
                rw [attach_eq hlt hdir] at hattach
                exact congrArg Prod.fst hattach
              have hdisk : (d.attach dir name (.file [])).2 = d' := congrArg Prod.snd hattach
              have hnode : d'.node id = .file [] := by
                rw [← hdisk, ← hid, node_attach hlt hdir, if_neg hlt.ne, if_pos rfl]
              refine ⟨?_, ?_, ?_, ?_, .inr hnode⟩
              · rw [← hdisk]
                exact closed_attach closed hlt (n := .file []) nofun name
              · rw [← hdisk, ← hid]
                exact find_attach closed hfind hempty hslash hlast hwalk hdir _
              · rw [← hdisk, ← hid, size_attach hlt hdir]
                exact Nat.lt_succ_self _
              · rw [hnode]
                exact nofun
          · cases h
  · cases h

theorem splice_nil (data : Text) : splice [] data 0 = data := by simp [splice]

/-- A file that is emptied and written holds what is written. -/
theorem read_write {c : Text} (closed : d.Closed) (hfind : d.find path = .ok id)
    (hlt : id < d.nodes.size) (hnode : d.node id = .file c)
    (h : (d.truncate id).write id 0 data = .ok d') : d'.read path = .ok data := by
  have hafter : (d.setNode id (.file [])).setNode id (.file data) = d' := by
    rw [truncate, hnode] at h
    dsimp only at h
    rw [write, node_setNode_self hlt] at h
    dsimp only at h
    rw [splice_nil] at h
    exact Except.ok.inj h
  have hfile (parent entries) : d.node id ≠ .directory parent entries := by
    rw [hnode]
    exact nofun
  have hempty (parent entries) : (d.setNode id (.file [])).node id ≠ .directory parent entries := by
    rw [node_setNode_self hlt]
    exact nofun
  have hgrows : Grows d d' := hafter ▸ (grows_setNode hfile _).trans (grows_setNode hempty _)
  have hcontent : d'.node id = .file data := by
    rw [← hafter, node_setNode_self (by rw [size_setNode]; exact hlt)]
  rw [read, find_of_grows hgrows closed hfind]
  dsimp only
  rw [content, hcontent]

/-- What is written into a file is read from it, unless it is a device that swallows it. -/
theorem read_writeFile (closed : d.Closed) (hdata : data ≠ [])
    (hfree : ∀ id, d.find path = .ok id → d.node id ≠ .nullDevice)
    (h : d.writeFile path data = .ok d') : d'.read path = .ok data := by
  unfold writeFile at h
  split at h
  · cases h
  · next id there hcreate =>
    obtain ⟨hclosed, hfind, hlt, hnodir, hold⟩ := create_spec closed hcreate
    split at h
    · next after hwrite =>
      cases h
      cases hnode : there.node id with
      | directory parent entries => exact absurd hnode (hnodir parent entries)
      | nullDevice =>
        -- A device is never made by opening a path, so it was there before.
        rcases hold with ⟨hthere, rfl⟩ | hfile
        · exact absurd hnode (hfree id hthere)
        · rw [hnode] at hfile
          cases hfile
      | fullDevice =>
        rw [truncate, hnode] at hwrite
        dsimp only at hwrite
        rw [write, hnode] at hwrite
        dsimp only at hwrite
        rw [if_neg (by simpa using hdata)] at hwrite
        cases hwrite
      | file c => exact read_write hclosed hfind hlt hnode hwrite
    · cases h

end Writing

section Making

theorem lt_size_attach (d : Disk) (dir : ℕ) (name : Text) (n : DiskNode) :
    d.nodes.size < (d.attach dir name n).2.nodes.size := by
  unfold attach
  dsimp only
  split
  · rw [size_setNode, Array.size_push]
    exact Nat.lt_succ_self _
  · rw [Array.size_push]
    exact Nat.lt_succ_self _

theorem fst_attach_lt (d : Disk) (dir : ℕ) (name : Text) (n : DiskNode) :
    (d.attach dir name n).1 < (d.attach dir name n).2.nodes.size := by
  have hfst : (d.attach dir name n).1 = d.nodes.size := by
    unfold attach
    dsimp only
    split <;> rfl
  rw [hfst]
  exact lt_size_attach d dir name n

theorem closed_makeDirectories (closed : d.Closed) (hid : id < d.nodes.size) (cs : List Text) :
    (d.makeDirectories id cs).2.Closed ∧
      (d.makeDirectories id cs).1 < (d.makeDirectories id cs).2.nodes.size := by
  induction cs generalizing d id with
  | nil => exact ⟨closed, hid⟩
  | cons c cs ih =>
    rw [makeDirectories]
    split
    · next next hnext => exact ih closed (enter_lt closed hid hnext)
    · have hattach : (d.attach id c (.directory id [])).2.Closed := by
        refine closed_attach closed hid (fun p es h => ?_) c
        cases h
        exact ⟨hid, rfl⟩
      exact ih hattach (fst_attach_lt d id c _)

theorem closed_place (closed : d.Closed) (path data : Text) : (d.place path data).Closed := by
  obtain ⟨hclosed, hlt⟩ := closed_makeDirectories closed closed.root (Path.components (Path.dir path))
  unfold place
  dsimp only
  split
  · next name hlast => exact closed_attach hclosed hlt (n := .file data) nofun name
  · exact hclosed

/-- A disk with nothing but devices and a working directory is closed. -/
theorem closed_new (cwd : Text) : (Disk.new cwd).Closed := by
  have hroot : Closed { cwd := cwd } := by
    refine ⟨Nat.one_pos, fun id hid p es hnode => ?_⟩
    obtain rfl : id = 0 := Nat.lt_one_iff.1 hid
    cases hnode
    exact ⟨Nat.one_pos, nofun⟩
  have hempty {d : Disk} (closed : d.Closed) (p : ℕ) (es : List (Text × ℕ))
      (h : DiskNode.directory 0 [] = .directory p es) : p < d.nodes.size ∧ es = [] := by
    cases h
    exact ⟨closed.root, rfl⟩
  have hdev := closed_attach hroot hroot.root (hempty hroot) "dev"
  have hlt := fst_attach_lt { cwd := cwd } 0 "dev" (.directory 0 [])
  have hnull := closed_attach hdev hlt (n := .nullDevice) nofun "null"
  have hfull := closed_attach hnull (hlt.trans (lt_size_attach _ _ _ _)) (n := .fullDevice) nofun "full"
  exact (closed_makeDirectories hfull hfull.root (Path.components cwd)).1

end Making

end BytecodeMachine.Disk
