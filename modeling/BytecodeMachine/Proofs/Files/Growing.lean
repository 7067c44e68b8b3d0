import BytecodeMachine.Proofs.Files.Buffered

/-! Disks under open files. Whatever is done through handles, no directory loses an entry, so a path
that leads to a node leads there ever after. -/
namespace BytecodeMachine

namespace Disk

variable {d d' d'' : Disk} {id j : ℕ} {path data : Text}

/-- A change after which every path that led somewhere still leads there. -/
def Stays (d d' : Disk) : Prop := d.Closed → d'.Closed ∧ Grows d d'

theorem Stays.refl (d : Disk) : d.Stays d := fun closed => ⟨closed, Grows.refl d⟩

theorem Stays.trans (h : d.Stays d') (h' : d'.Stays d'') : d.Stays d'' := by
  intro closed
  obtain ⟨closed', hgrows⟩ := h closed
  obtain ⟨closed'', hgrows'⟩ := h' closed'
  exact ⟨closed'', hgrows.trans hgrows'⟩

theorem stays_setFile {c c' : Text} (h : d.node id = .file c) : d.Stays (d.setNode id (.file c')) :=
  fun closed => ⟨closed_setNode closed nofun, grows_setNode (fun _ _ hdir => by
    cases hdir.symm.trans h) _⟩

theorem truncate_stays (d : Disk) (id : ℕ) : d.Stays (d.truncate id) := by
  unfold truncate
  split
  · next hfile => exact stays_setFile hfile
  · exact .refl d

theorem write_stays {offset : ℕ} (h : d.write id offset data = .ok d') : d.Stays d' := by
  unfold write at h
  split at h
  · next hfile =>
    cases h
    exact stays_setFile hfile
  · cases h
    exact .refl d
  · split at h
    · cases h
      exact .refl d
    · cases h
  · cases h

theorem create_stays (h : d.create path = .ok (id, d')) : d.Stays d' := by
  intro closed
  refine ⟨(create_spec closed h).1, ?_⟩
  unfold create at h
  split at h
  · split at h
    · cases h
    · cases h
      exact Grows.refl d
  · split at h
    · cases h
    · next name _ =>
      split at h
      · cases h
      · split at h
        · cases h
        · next dir hwalk =>
          split at h
          · next parent entries hdir =>
            split at h
            · cases h
            · have hgrows := grows_attach (walk_lt closed closed.root hwalk) hdir name (.file [])
              rwa [Except.ok.inj h] at hgrows
          · cases h
  · cases h

/-- What an existing path gives is what its node holds. -/
theorem read_of_find {c : Text} (hfind : d.find path = .ok id) (hfile : d.node id = .file c) :
    d.read path = .ok c := by
  unfold read
  rw [hfind]
  dsimp only
  rw [hfile, content_of_file hfile]

/-- A path that has just been made for writing leads to an empty file, or to what was there. -/
theorem content_create {c : Text} (h : d.create path = .ok (id, d')) (hfile : d'.node id = .file c) :
    c = ((d.read path).toOption).getD [] := by
  unfold create at h
  unfold read
  split at h
  · next there hfind =>
    split at h
    · cases h
    · cases h
      rw [hfind]
      dsimp only
      rw [hfile, content_of_file hfile]
      rfl
  · next hfind =>
    rw [hfind]
    split at h
    · cases h
    · next name _ =>
      split at h
      · cases h
      · split at h
        · cases h
        · next dir _ =>
          split at h
          · split at h
            · cases h
            · exact (content_attach (Except.ok.inj h) hfile).1
          · cases h
  · cases h

end Disk

namespace FileHandle

variable {h : FileHandle} {d d' : Disk} {path c : Text} {mode : FileMode} {capacity : ℕ}

theorem put_stays (h : FileHandle) (d : Disk) (data : Text) : d.Stays (h.put d data).2 := by
  unfold put
  dsimp only
  split
  · next hwrite => exact Disk.write_stays hwrite
  · exact .refl d

theorem flush_stays (h : FileHandle) (d : Disk) : d.Stays (h.flush d).2 := by
  unfold flush
  split
  · exact .refl d
  · exact put_stays h d h.buffer

theorem writeRounds_stays (n : ℕ) (h : FileHandle) (d : Disk) (t : Text) :
    d.Stays (h.writeRounds n d t).2 := by
  induction n generalizing h d t with
  | zero => exact .refl d
  | succ n ih =>
    unfold writeRounds
    split
    · exact .refl d
    · dsimp only
      split
      · exact .refl d
      · split
        · exact put_stays h d t
        · exact (flush_stays _ d).trans (ih _ _ _)

theorem close_stays (h : FileHandle) (d : Disk) : d.Stays (h.close d).2 := by
  unfold close
  split
  · exact .refl d
  · dsimp only
    split
    · exact .refl d
    · exact flush_stays h d

theorem openFile_stays (hopen : openFile d path mode capacity = .ok (h, d')) : d.Stays d' := by
  unfold openFile at hopen
  cases mode
  all_goals
    dsimp only at hopen
    split at hopen
    · cases hopen
  · cases hopen
    exact .refl d
  · next hcreate =>
    cases hopen
    exact (Disk.create_stays hcreate).trans (Disk.truncate_stays _ _)
  · next hcreate =>
    cases hopen
    exact Disk.create_stays hcreate

/-- A file that is appended to has in it what its path gave before. -/
theorem openFile_append (hopen : openFile d path .append capacity = .ok (h, d'))
    (hfile : d'.node h.node = .file c) : c = ((d.read path).toOption).getD [] := by
  unfold openFile at hopen
  dsimp only at hopen
  split at hopen
  · cases hopen
  · next id d₁ hcreate =>
    cases hopen
    exact Disk.content_create hcreate hfile

end FileHandle

end BytecodeMachine
