import BytecodeMachine.Proofs.Machine.Handles

/-! Files read line by line. Each line of a file is given once and in its order, whatever the size of
the buffer, and what is then left is the bytes after these lines. A line loses its newline and a
carriage return before it; so does the last line that ends in a carriage return and no newline, which
loses a byte of its own. -/
namespace BytecodeMachine

/-- A line without the newline that ends it, or the carriage return and the newline. -/
def Text.withoutTerminator (line : Text) : Text :=
  if Text.endsWith line [13, 10] then Text.dropEnd [13, 10] line else Text.dropEnd [10] line

/-- What reading a line answers: the line, or null after the last one. -/
def lineValue : Option Text → Value
  | some line => .string (World.lineText line)
  | none => .null

namespace World

variable {w w' : World} {id node : ℕ} {ahead c path : Text}

/-- A handle that is open for reading a file, with these bytes ahead of it. -/
structure Reads (w : World) (id node : ℕ) (ahead : Text) : Prop where
  there : id < w.store.handles.size
  isOpen : (w.store.handle id).closed = false
  mode : (w.store.handle id).mode = .read
  node : (w.store.handle id).node = node
  ahead : (w.store.handle id).Ahead w.disk ahead

/-- The worlds after a number of calls that read a line, between which anything may happen that
leaves the handle and its file as they are. -/
inductive AfterLines (w : World) (id node : ℕ) : ℕ → World → Prop where
  | opened : AfterLines w id node 0 w
  | line {k : ℕ} {w' : World} (h : AfterLines w id node k w') :
    AfterLines w id node (k + 1) (w'.fileMethod .fileReadLine id []).2
  | meanwhile {k : ℕ} {w' w'' : World} (h : AfterLines w id node k w')
    (handle : w''.store.handles[id]? = w'.store.handles[id]?)
    (file : w''.disk.node node = w'.disk.node node) : AfterLines w id node k w''

/-- What a handle answers after any number of lines: to a call that reads a line, and to one that
reads all that is left. -/
def GivesLines (w : World) (id node : ℕ) (line : ℕ → Value) (rest : ℕ → Text) : Prop :=
  ∀ k w', AfterLines w id node k w' →
    (w'.fileMethod .fileReadLine id []).1 = .ok (line k) ∧
      (w'.fileMethod .fileReadAll id []).1 = .ok (.string (rest k))

/-- Strings written as lines, one after the other. -/
def writeLines (w : World) (id : ℕ) (lines : List Text) : World :=
  lines.foldl (fun w t => (w.fileMethod .fileWriteLine id [.string t]).2) w

/-! Reading. -/

theorem Reads.notReadable? (hr : w.Reads id node ahead) :
    World.notReadable? (w.store.handle id) = none := notReadable?_eq_none.2 ⟨hr.isOpen, hr.mode⟩

theorem Reads.keep {buffer after : Text} {offset : ℕ} (hr : w.Reads id node ahead)
    (hafter : ({ w.store.handle id with buffer := buffer, offset := offset } : FileHandle).Ahead
      w.disk after) :
    (w.keepHandle id { w.store.handle id with buffer := buffer, offset := offset } w.disk).Reads
      id node after := by
  have hhandle := handle_keepHandle w id
    { w.store.handle id with buffer := buffer, offset := offset } w.disk
  rw [if_pos hr.there] at hhandle
  refine ⟨Array.size_setIfInBounds.symm ▸ hr.there, ?_, ?_, ?_, ?_⟩
  all_goals rw [hhandle]
  · exact hr.isOpen
  · exact hr.mode
  · exact hr.node
  · exact hafter

/-- Reading a line gives the first of those ahead, and the others are ahead after it. -/
theorem Reads.readLine (hr : w.Reads id node ahead) :
    (w.readLine id).1 = .ok (lineValue (Text.lines ahead).head?) ∧ ∃ after,
      (w.readLine id).2.Reads id node after ∧ Text.lines after = (Text.lines ahead).tail := by
  obtain ⟨line, after, buffer, offset, hread, hline, hafter⟩ := hr.ahead.readLine
  have hkept := hr.keep hafter
  have hnothing := hline.nothing_iff
  unfold World.readLine
  dsimp only
  rw [hr.notReadable?]
  dsimp only
  rw [hread]
  dsimp only
  by_cases hahead : ahead = []
  · subst hahead
    rw [if_pos (hnothing.2 rfl)]
    obtain rfl : after = [] := hline.after_nil rfl
    exact ⟨rfl, [], hkept, rfl⟩
  · rw [if_neg fun h => hahead (hnothing.1 h), hline.lines hahead]
    exact ⟨rfl, after, hkept, rfl⟩

theorem Reads.readAll (hr : w.Reads id node ahead) : (w.readAll id).1 = .ok (.string ahead) := by
  obtain ⟨offset, hread, -⟩ := hr.ahead.readAll
  unfold World.readAll
  dsimp only
  rw [hr.notReadable?]
  dsimp only
  rw [hread]
  rfl

/-- A handle reads on as long as it and its file are as they were. -/
theorem Reads.meanwhile (hr : w.Reads id node ahead)
    (handle : w'.store.handles[id]? = w.store.handles[id]?)
    (file : w'.disk.node node = w.disk.node node) : w'.Reads id node ahead := by
  have hsame : w'.store.handle id = w.store.handle id := congrArg (Option.getD · default) handle
  have there : id < w'.store.handles.size := by
    by_contra hout
    rw [Array.getElem?_eq_none (Nat.le_of_not_lt hout), Array.getElem?_eq_getElem hr.there] at handle
    cases handle
  refine ⟨there, ?_, ?_, ?_, ?_⟩
  all_goals rw [hsame]
  · exact hr.isOpen
  · exact hr.mode
  · exact hr.node
  · exact hr.ahead.congr (hr.node.symm ▸ file)

/-- After a number of lines the lines after them are ahead. -/
theorem AfterLines.reads {k : ℕ} (h : AfterLines w id node k w') (hr : w.Reads id node c) :
    ∃ ahead, w'.Reads id node ahead ∧ Text.lines ahead = (Text.lines c).drop k := by
  induction h with
  | opened => exact ⟨c, hr, rfl⟩
  | line h ih =>
    obtain ⟨ahead, hr', hlines⟩ := ih
    obtain ⟨-, after, hafter, htail⟩ := hr'.readLine
    refine ⟨after, hafter, ?_⟩
    rw [htail, hlines, List.tail_drop]
  | meanwhile h handle file ih =>
    obtain ⟨ahead, hr', hlines⟩ := ih
    exact ⟨ahead, hr'.meanwhile handle file, hlines⟩

/-- A handle that has all of a text ahead answers with its lines. -/
theorem Reads.answers (hr : w.Reads id node c) :
    w.GivesLines id node (fun k => lineValue (Text.lines c)[k]?)
      fun k => ((Text.lines c).drop k).flatten := by
  intro k w' h
  obtain ⟨ahead, hr', hlines⟩ := h.reads hr
  have hfirst : (Text.lines ahead).head? = (Text.lines c)[k]? := by
    rw [hlines, List.head?_drop]
  have hrest : ahead = ((Text.lines c).drop k).flatten := by
    rw [← hlines, Text.flatten_lines]
  dsimp only
  rw [← hfirst, ← hrest]
  constructor
  · exact hr'.readLine.1
  · exact hr'.readAll

theorem openFile_reads (hfind : w.disk.find path = .ok node) (hfile : w.disk.node node = .file c)
    (bufferSize : ℕ) : ∃ id w', w.openFile bufferSize path "r" = (.ok (.file id), w') ∧
      w'.disk = w.disk ∧ w'.Reads id node c := by
  obtain ⟨h, hopen, hahead, hmode, hclosed, hnode⟩ :=
    FileHandle.openFile_ahead hfind hfile bufferSize
  have hread : FileMode.ofText? "r" = some .read := by decide
  have hhandle : (w.opened path "r" h w.disk).store.handle w.store.handles.size = h :=
    handle_opened_self
  refine ⟨_, _, openFile_of_ok hread hopen, rfl, ?_, ?_, ?_, ?_, ?_⟩
  · rw [size_opened]
    exact Nat.lt_succ_self _
  all_goals rw [hhandle]
  · exact hclosed
  · exact hmode
  · exact hnode
  · exact hahead

/-! Lines as they are given. -/

theorem dropEnd_append (ending s : Text) : Text.dropEnd ending (s ++ ending) = s := by
  have hends : ending.isSuffixOf (s ++ ending) = true :=
    List.isSuffixOf_iff_suffix.2 (List.suffix_append s ending)
  rw [Text.dropEnd, hends, if_pos rfl, List.length_append, Nat.add_sub_cancel]
  exact List.take_left

theorem dropEnd_of_not_suffix {ending s : Text} (h : ¬ ending <:+ s) : Text.dropEnd ending s = s := by
  rw [Text.dropEnd, if_neg fun hends => h (List.isSuffixOf_iff_suffix.1 hends)]

theorem not_suffix_concat (ending : Text) {s : Text} {b e : UInt8} (hne : e ≠ b) :
    ¬ ending ++ [e] <:+ s ++ [b] := by
  rintro ⟨t, ht⟩
  rw [← List.append_assoc] at ht
  exact hne (List.append_singleton_inj.1 ht).2

/-- A line that ends in a newline is as it should be. -/
theorem lineText_newline (s : Text) : lineText (s ++ [10]) = Text.withoutTerminator (s ++ [10]) := by
  have htext : lineText (s ++ [10]) = Text.dropEnd [13] s := congrArg _ (dropEnd_append [10] s)
  rw [htext, Text.withoutTerminator, Text.endsWith]
  by_cases hreturn : [13] <:+ s
  · obtain ⟨u, rfl⟩ := hreturn
    have hends : List.isSuffixOf [13, 10] (u ++ [13] ++ [10]) = true :=
      List.isSuffixOf_iff_suffix.2 ⟨u, (List.append_assoc u [13] [10]).symm⟩
    have hboth : u ++ [13] ++ [10] = u ++ [13, 10] := List.append_assoc u [13] [10]
    rw [hends, if_pos rfl, dropEnd_append, hboth, dropEnd_append]
  · have hends : ¬ List.isSuffixOf [13, 10] (s ++ [10]) = true := by
      rw [List.isSuffixOf_iff_suffix]
      rintro ⟨u, hu⟩
      have hsplit : u ++ [13] ++ [10] = s ++ [10] := (List.append_assoc u [13] [10]).trans hu
      exact hreturn ⟨u, (List.append_singleton_inj.1 hsplit).1⟩
    rw [if_neg hends, dropEnd_append, dropEnd_of_not_suffix hreturn]

theorem lineText_eq_iff (line : Text) :
    lineText line = line.withoutTerminator ↔ line.getLast? ≠ some 13 := by
  rcases List.eq_nil_or_concat line with rfl | ⟨s, b, rfl⟩
  · exact ⟨fun _ => nofun, fun _ => rfl⟩
  rw [List.concat_eq_append, List.getLast?_concat]
  by_cases hnewline : b = 10
  · subst hnewline
    exact ⟨fun _ => by decide, fun _ => lineText_newline s⟩
  -- Nothing is taken off but a carriage return, which ought to stay.
  have hbare : ¬ [10] <:+ s ++ [b] := not_suffix_concat [] (Ne.symm hnewline)
  have hcrlf : ¬ List.isSuffixOf [13, 10] (s ++ [b]) = true := fun hends =>
    not_suffix_concat [13] (Ne.symm hnewline) (List.isSuffixOf_iff_suffix.1 hends)
  have hspec : Text.withoutTerminator (s ++ [b]) = s ++ [b] := by
    rw [Text.withoutTerminator, Text.endsWith, if_neg hcrlf, dropEnd_of_not_suffix hbare]
  have htext : lineText (s ++ [b]) = Text.dropEnd [13] (s ++ [b]) :=
    congrArg _ (dropEnd_of_not_suffix hbare)
  rw [hspec, htext, ne_eq, Option.some.injEq]
  by_cases hreturn : b = 13
  · subst hreturn
    rw [dropEnd_append]
    exact ⟨fun h => absurd (List.self_eq_append_right.1 h) nofun, fun h => absurd rfl h⟩
  · have hkept : ¬ [13] <:+ s ++ [b] := not_suffix_concat [] (Ne.symm hreturn)
    rw [dropEnd_of_not_suffix hkept]
    exact ⟨fun _ => hreturn, fun _ => rfl⟩

/-- All lines of a text are as they should be unless the last one ends in a bare carriage return. -/
theorem lines_eq_iff (c : Text) :
    (∀ line ∈ Text.lines c, lineText line = line.withoutTerminator) ↔ c.getLast? ≠ some 13 := by
  simp only [lineText_eq_iff]
  obtain ⟨hall, hlast⟩ := Text.getLast?_lines c
  constructor
  · intro h hc
    obtain ⟨line, hline, heq⟩ := hlast (by rintro rfl; cases hc)
    exact h line hline (heq.trans hc)
  · intro hc line hline h
    rcases hall line hline with hnewline | heq
    · cases hnewline.symm.trans h
    · exact hc (heq.symm.trans h)

/-! Writing lines and reading them back. -/

theorem lines_flatten {ls : List Text} (bare : ∀ t ∈ ls, 10 ∉ t) :
    Text.lines (ls.map fun t => t ++ [10]).flatten = ls.map fun t => t ++ [10] := by
  induction ls with
  | nil => rfl
  | cons t ls ih =>
    rw [List.map_cons, List.flatten_cons, List.append_assoc, List.singleton_append,
      Text.lines_newline (bare t List.mem_cons_self),
      ih fun t' ht' => bare t' (List.mem_cons_of_mem _ ht')]

theorem lineText_of_bare {t : Text} (h : t.getLast? ≠ some 13) : lineText (t ++ [10]) = t := by
  have htext : lineText (t ++ [10]) = Text.dropEnd [13] t := congrArg _ (dropEnd_append [10] t)
  have hbare : ¬ [13] <:+ t := by
    rintro ⟨u, rfl⟩
    exact h List.getLast?_concat
  rw [htext, dropEnd_of_not_suffix hbare]

/-- Lines that are written come after all that has been written. -/
theorem Writes.writeLines {all : Text} (hw : w.Writes id node all)
    (isOpen : (w.store.handle id).closed = false) (ls : List Text) :
    (w.writeLines id ls).Writes id node (all ++ (ls.map fun t => t ++ [10]).flatten) ∧
      ((w.writeLines id ls).store.handle id).closed = false := by
  induction ls generalizing w all with
  | nil => exact ⟨(List.append_nil all).symm ▸ hw, isOpen⟩
  | cons t ls ih =>
    obtain ⟨hwritten, -⟩ := hw.writeText isOpen (t ++ [10])
    have hopen : ((w.writeText id (t ++ [10])).2.store.handle id).closed = false := by
      rw [(handled_writeText w id (t ++ [10])).closed hw.there, isOpen]
      rfl
    obtain ⟨hall, hstill⟩ := ih hwritten hopen
    rw [List.map_cons, List.flatten_cons, ← List.append_assoc]
    exact ⟨hall, hstill⟩

/-- Every line is taken, and no path is lost. -/
theorem Writes.writeLines_extends {all : Text} (hw : w.Writes id node all)
    (isOpen : (w.store.handle id).closed = false) (ls : List Text) :
    Disk.Grows w.disk (w.writeLines id ls).disk := by
  induction ls generalizing w all with
  | nil => exact .refl w.disk
  | cons t ls ih =>
    obtain ⟨hone, hstill⟩ := hw.writeLines isOpen [t]
    have hfirst : Disk.Grows w.disk (w.writeLines id [t]).disk := by
      change Disk.Grows w.disk (w.writeText id (t ++ [10])).2.disk
      rw [hw.writeText_eq isOpen]
      exact (FileHandle.write_leaves hw.holds _).extends hw.holds
    exact hfirst.trans (ih hone hstill)

/-- A file that lines were written to and that is closed has these lines, and its path leads to it. -/
theorem writeLines_closed {w₁ : World} {bufferSize : ℕ} (closed : w.disk.Closed)
    (hopen : w.openFile bufferSize path "w" = (.ok (.file id), w₁))
    (hfile : w₁.disk.node (w₁.store.handle id).node = .file c) (ls : List Text) :
    let w₂ := ((w₁.writeLines id ls).fileMethod .fileClose id []).2
    ((w₁.writeLines id ls).fileMethod .fileClose id []).1 = .ok .null ∧
      w₂.disk.find path = .ok (w₁.store.handle id).node ∧
      w₂.disk.node (w₁.store.handle id).node = .file (ls.map fun t => t ++ [10]).flatten := by
  intro w₂
  have hmode : FileMode.ofText? "w" = some .write := by decide
  obtain ⟨hw, isOpen, rfl, hfind⟩ := openFile_writes hmode nofun hopen hfile
  obtain ⟨hdisk, hpath⟩ := hfind closed
  obtain ⟨hlines, hstill⟩ := hw.writeLines isOpen ls
  have hextends := hw.writeLines_extends isOpen ls
  have hflush := FileHandle.flush_leaves hlines.holds
  obtain ⟨hclosed, hcontent⟩ := hlines.closeFile hstill
  have hclose : (w₁.writeLines id ls).fileMethod .fileClose id [] =
      (.ok .null, ((w₁.writeLines id ls).closeFile id).1) := by
    unfold fileMethod
    dsimp only
    rw [hlines.closeFile_eq hstill]
    rfl
  have hworld : w₂ = ((w₁.writeLines id ls).closeFile id).1 := congrArg Prod.snd hclose
  have hgrows : Disk.Grows w₁.disk w₂.disk := by
    refine hextends.trans ?_
    rw [hworld, hlines.closeFile_eq hstill]
    exact hflush.1.extends hlines.holds
  refine ⟨congrArg Prod.fst hclose, Disk.find_of_grows hgrows hdisk hpath, ?_⟩
  rw [hworld, hclosed.file_eq, hcontent]
  rfl

/-- For every file and every size of the buffer, reading lines gives each line of the file once and in
its order, then null, and reading all after any number of lines gives the bytes after them. What is
given is the line without its terminator for all lines just where the file does not end in a carriage
return. So strings without newlines that do not end in one are read back as they were written. -/
theorem files_are_split_into_lines (bufferSize : ℕ) (c : Text) :
    (∀ (w : World) (node : ℕ) (path : Text), w.disk.find path = .ok node →
      w.disk.node node = .file c → ∃ id w₁, w.openFile bufferSize path "r" = (.ok (.file id), w₁) ∧
        w₁.GivesLines id node (fun k => lineValue (Text.lines c)[k]?)
          fun k => ((Text.lines c).drop k).flatten) ∧
    ((∀ line ∈ Text.lines c, lineText line = line.withoutTerminator) ↔
      c.getLast? ≠ some 13) ∧
    ∀ (w w₁ : World) (id writeSize : ℕ) (path c' : Text) (ls : List Text),
      w.disk.Closed → w.openFile writeSize path "w" = (.ok (.file id), w₁) →
      w₁.disk.node (w₁.store.handle id).node = .file c' →
      (∀ t ∈ ls, 10 ∉ t ∧ t.getLast? ≠ some 13) →
      (∀ before t after, ls = before ++ t :: after →
        ((w₁.writeLines id before).fileMethod .fileWriteLine id [.string t]).1 = .ok .null) ∧
      ((w₁.writeLines id ls).fileMethod .fileClose id []).1 = .ok .null ∧
      ∃ id' w₂, ((w₁.writeLines id ls).fileMethod .fileClose id []).2.openFile bufferSize path
          "r" = (.ok (.file id'), w₂) ∧
        w₂.GivesLines id' (w₁.store.handle id).node (fun k => (ls[k]?).elim .null .string)
          fun k => ((ls.map fun t => t ++ [10]).drop k).flatten := by
  refine ⟨fun w node path hfind hfile => ?_, lines_eq_iff c, ?_⟩
  · obtain ⟨id, w₁, hopen, -, hreads⟩ := openFile_reads hfind hfile bufferSize
    exact ⟨id, w₁, hopen, hreads.answers⟩
  intro w w₁ id writeSize path c' ls closed hopen hfile hls
  have hmode : FileMode.ofText? "w" = some .write := by decide
  obtain ⟨hw, isOpen, rfl, -⟩ := openFile_writes hmode nofun hopen hfile
  obtain ⟨hclose, hfind, hnode⟩ := writeLines_closed closed hopen hfile ls
  refine ⟨fun before t after _ => ?_, hclose, ?_⟩
  · obtain ⟨hbefore, hstill⟩ := hw.writeLines isOpen before
    exact congrArg Prod.fst (hbefore.writeText_eq hstill (t ++ [10]))
  obtain ⟨id', w₂, hopen', -, hreads⟩ := openFile_reads hfind hnode bufferSize
  refine ⟨id', w₂, hopen', fun k w' h => ?_⟩
  obtain ⟨hline, hrest⟩ := hreads.answers k w' h
  rw [lines_flatten fun t ht => (hls t ht).1] at hline hrest
  refine ⟨hline.trans ?_, hrest⟩
  dsimp only
  rw [List.getElem?_map]
  cases ht : ls[k]? with
  | none => rfl
  | some t =>
    have hmem : t ∈ ls := List.mem_of_getElem? ht
    exact congrArg (fun t => Except.ok (Value.string t)) (lineText_of_bare (hls t hmem).2)

/-- A disk with one file in its root. -/
def oneFile (c : Text) : Disk := { nodes := #[.directory 0 [("f", 1)], .file c] }

/-- A file with two lines, of which the first ends in a carriage return and a newline; and two strings
that are written as lines and read back, one of them empty. -/
theorem two_lines_are_split :
    (∃ id w₁,
      ({ disk := oneFile [97, 13, 10, 98] } : World).openFile 1 "f" "r" = (.ok (.file id), w₁) ∧
        (w₁.fileMethod .fileReadLine id []).1 = .ok (.string [97]) ∧
        ((w₁.fileMethod .fileReadLine id []).2.fileMethod .fileReadLine id []).1 =
          .ok (.string [98])) ∧
    ∃ id w₁ id' w₂,
      ({ disk := Disk.new "/" } : World).openFile 1 "f" "w" = (.ok (.file id), w₁) ∧
        ((w₁.writeLines id [[97], []]).fileMethod .fileClose id []).2.openFile 1 "f" "r" =
          (.ok (.file id'), w₂) ∧
        (w₂.fileMethod .fileReadLine id' []).1 = .ok (.string [97]) ∧
        ((w₂.fileMethod .fileReadLine id' []).2.fileMethod .fileReadLine id' []).1 =
          .ok (.string []) := by
  obtain ⟨hsplit, -, hwritten⟩ := files_are_split_into_lines 1 [97, 13, 10, 98]
  constructor
  · obtain ⟨id, w₁, hopen, hanswers⟩ :=
      hsplit { disk := oneFile [97, 13, 10, 98] } 1 "f" (by decide) (by decide)
    exact ⟨id, w₁, hopen, (hanswers 0 w₁ .opened).1, (hanswers 1 _ (.line .opened)).1⟩
  · obtain ⟨-, -, id', w₂, hopen, hanswers⟩ := hwritten { disk := Disk.new "/" }
      (({ disk := Disk.new "/" } : World).openFile 1 "f" "w").2 0 1 "f" [] [[97], []]
      (Disk.closed_new "/") rfl rfl (by decide)
    exact ⟨0, _, id', w₂, rfl, hopen, (hanswers 0 w₂ .opened).1, (hanswers 1 _ (.line .opened)).1⟩

/-- The one line of a file that ends in a carriage return is given without it. -/
theorem bare_carriage_return_is_lost :
    ∃ id w₁, ({ disk := oneFile [97, 13] } : World).openFile 4096 "f" "r" = (.ok (.file id), w₁) ∧
      Text.lines [97, 13] = [[97, 13]] ∧ Text.withoutTerminator [97, 13] = [97, 13] ∧
      (w₁.fileMethod .fileReadLine id []).1 ≠ .ok (.string [97, 13]) := by
  have hfind : (oneFile [97, 13]).find "f" = .ok 1 := by decide
  have hfile : (oneFile [97, 13]).node 1 = .file [97, 13] := by decide
  obtain ⟨id, w₁, hopen, -, hreads⟩ : ∃ id w₁, World.openFile { disk := oneFile [97, 13] } 4096 "f"
      "r" = (.ok (.file id), w₁) ∧ w₁.disk = oneFile [97, 13] ∧ w₁.Reads id 1 [97, 13] :=
    openFile_reads hfind hfile 4096
  refine ⟨id, w₁, hopen, by decide, by decide, fun h => ?_⟩
  cases h.symm.trans (hreads.answers 0 w₁ .opened).1

end World

end BytecodeMachine
