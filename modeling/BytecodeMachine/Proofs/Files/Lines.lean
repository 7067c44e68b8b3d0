import BytecodeMachine.Files.Handle
import BytecodeMachine.Proofs.Files.Disk

/-! Reading through a buffer. What a handle for reading has ahead is what it has read ahead and the
rest of its file; reading a line takes the bytes up to the first newline off it, and reading all takes
everything. -/
namespace BytecodeMachine

namespace Text

/-- A text cut after each newline. -/
def lines : Text → List Text
  | [] => []
  | b :: t =>
    if b = 10 then [b] :: lines t
    else match lines t with
      | [] => [[b]]
      | l :: ls => (b :: l) :: ls

variable {t before after : Text}

theorem flatten_lines (t : Text) : (lines t).flatten = t := by
  induction t with
  | nil => rfl
  | cons b t ih =>
    rw [lines]
    split
    · rw [List.flatten_cons, ih, List.singleton_append]
    · cases hlines : lines t with
      | nil =>
        rw [hlines] at ih
        rw [← ih]
        rfl
      | cons l ls =>
        rw [hlines] at ih
        rw [← ih]
        rfl

theorem lines_of_notMem (h : 10 ∉ t) (ht : t ≠ []) : lines t = [t] := by
  induction t with
  | nil => exact absurd rfl ht
  | cons b t ih =>
    obtain ⟨hb, htail⟩ := List.ne_and_not_mem_of_not_mem_cons h
    rw [lines, if_neg (Ne.symm hb)]
    cases t with
    | nil => rfl
    | cons b' t => rw [ih htail (List.cons_ne_nil _ _)]

theorem lines_newline (h : 10 ∉ before) (after : Text) :
    lines (before ++ 10 :: after) = (before ++ [10]) :: lines after := by
  induction before with
  | nil => rfl
  | cons b before ih =>
    obtain ⟨hb, htail⟩ := List.ne_and_not_mem_of_not_mem_cons h
    rw [List.cons_append, lines, if_neg (Ne.symm hb), ih htail]
    rfl

/-- A text is empty, one line without a newline, or a line with its newline and the text after it. -/
theorem cut_induction {P : Text → Prop} (nil : P [])
    (bare : ∀ t, 10 ∉ t → t ≠ [] → P t)
    (newline : ∀ before after, 10 ∉ before → P after → P (before ++ 10 :: after)) (t : Text) : P t := by
  induction hn : t.length using Nat.strongRecOn generalizing t with
  | ind n ih =>
    by_cases hnewline : 10 ∈ t
    · obtain ⟨before, after, rfl, hbare⟩ := List.eq_append_cons_of_mem hnewline
      refine newline before after hbare (ih after.length ?_ after rfl)
      rw [← hn, List.length_append, List.length_cons]
      omega
    · rcases eq_or_ne t [] with rfl | ht
      · exact nil
      · exact bare t hnewline ht

/-- A line ends in a newline or as the whole text does, and some line does the latter. -/
theorem getLast?_lines (t : Text) :
    (∀ line ∈ lines t, line.getLast? = some 10 ∨ line.getLast? = t.getLast?) ∧
      (t ≠ [] → ∃ line ∈ lines t, line.getLast? = t.getLast?) := by
  induction t using cut_induction with
  | nil => exact ⟨nofun, fun h => absurd rfl h⟩
  | bare t hbare ht =>
    rw [lines_of_notMem hbare ht]
    exact ⟨fun line hline => .inr (by rw [List.mem_singleton.1 hline]),
      fun _ => ⟨t, List.mem_singleton.2 rfl, rfl⟩⟩
  | newline before after hbare ih =>
    obtain ⟨ihall, ihlast⟩ := ih
    have hlast (hafter : after ≠ []) : (before ++ 10 :: after).getLast? = after.getLast? := by
      rw [List.getLast?_append_of_ne_nil _ (List.cons_ne_nil _ _), List.getLast?_cons_of_ne_nil hafter]
    rw [lines_newline hbare]
    constructor
    · intro line hline
      rcases List.mem_cons.1 hline with rfl | hline
      · exact .inl List.getLast?_concat
      · have hafter : after ≠ [] := by
          rintro rfl
          cases hline
        rw [hlast hafter]
        exact ihall line hline
    · intro _
      rcases eq_or_ne after [] with rfl | hafter
      · exact ⟨before ++ [10], List.mem_cons_self, rfl⟩
      · obtain ⟨line, hline, heq⟩ := ihlast hafter
        exact ⟨line, List.mem_cons_of_mem _ hline, heq.trans (hlast hafter).symm⟩

end Text

namespace FileHandle

variable {h h' : FileHandle} {d : Disk} {ahead after seen : Text} {line : Line}

/-- The first line of some bytes, and the bytes after it. -/
inductive FirstLine : Text → Line → Text → Prop where
  | last {ahead : Text} (bare : 10 ∉ ahead) : FirstLine ahead ⟨ahead, true⟩ []
  | newline {line : Text} (bare : 10 ∉ line) (after : Text) :
    FirstLine (line ++ 10 :: after) ⟨line ++ [10], false⟩ after

/-- A handle for reading with these bytes ahead of it. -/
structure Ahead (h : FileHandle) (d : Disk) (ahead : Text) : Prop where
  plain : ∀ parent entries, d.node h.node ≠ .directory parent entries
  roomy : 0 < h.capacity
  bytes : h.buffer ++ (d.content h.node).drop h.offset = ahead

/-- How many rounds a line takes at most. -/
def rounds (h : FileHandle) (d : Disk) : ℕ :=
  2 * ((d.content h.node).drop h.offset).length + if h.capacity ≤ h.buffer.length then 2 else 1

theorem rounds_le (h : FileHandle) (d : Disk) :
    h.rounds d ≤ 2 * ((d.content h.node).drop h.offset).length + 2 := by
  unfold rounds
  split <;> omega

theorem FirstLine.prepend {t : Text} (bare : 10 ∉ t) (h : FirstLine ahead line after) :
    FirstLine (t ++ ahead) ⟨t ++ line.bytes, line.ended⟩ after := by
  cases h with
  | last bare' => exact .last (List.not_mem_append bare bare')
  | newline bare' after =>
    rw [← List.append_assoc]
    dsimp only
    rw [← List.append_assoc]
    exact .newline (List.not_mem_append bare bare') after

theorem FirstLine.lines (h : FirstLine ahead line after) (hahead : ahead ≠ []) :
    Text.lines ahead = line.bytes :: Text.lines after := by
  cases h with
  | last bare => exact Text.lines_of_notMem bare hahead
  | newline bare after => exact Text.lines_newline bare after

theorem FirstLine.after_nil (h : FirstLine ahead line after) (hnil : ahead = []) : after = [] := by
  cases h with
  | last bare => rfl
  | newline bare after => exact absurd hnil (List.append_ne_nil_of_right_ne_nil _ nofun)

theorem FirstLine.nothing_iff (h : FirstLine ahead line after) :
    (line.bytes.isEmpty && line.ended) = true ↔ ahead = [] := by
  cases h with
  | last bare => simp
  | newline bare after => simp

theorem Ahead.fetch (ha : h.Ahead d ahead) (n : ℕ) :
    h.fetch d n = .ok (((d.content h.node).drop h.offset).take n) := by
  unfold FileHandle.fetch
  split
  · next hnode => exact absurd hnode (ha.plain _ _)
  · rfl

theorem findIdx?_bare {t : Text} (bare : 10 ∉ t) : t.findIdx? (· = 10) = none := by
  rw [List.findIdx?_eq_none_iff]
  exact fun b hb => decide_eq_false fun h => bare (h ▸ hb)

theorem findIdx?_newline {line : Text} (bare : 10 ∉ line) (after : Text) :
    (line ++ 10 :: after).findIdx? (· = 10) = some line.length := by
  rw [List.findIdx?_append, findIdx?_bare bare, List.findIdx?_cons, if_pos (decide_eq_true rfl)]
  exact congrArg some (Nat.zero_add _)

/-- Bytes read ahead stay ahead. -/
theorem Ahead.refill (ha : h.Ahead d ahead) (k : ℕ) :
    let unread := (d.content h.node).drop h.offset
    let filled : FileHandle :=
      { h with buffer := h.buffer ++ unread.take k, offset := h.offset + (unread.take k).length }
    filled.Ahead d ahead ∧ (d.content filled.node).drop filled.offset = unread.drop k := by
  intro unread filled
  have hleft : (d.content h.node).drop (h.offset + (unread.take k).length) = unread.drop k := by
    rw [← List.drop_drop, List.length_take]
    rcases le_total k unread.length with hle | hle
    · rw [Nat.min_eq_left hle]
    · rw [Nat.min_eq_right hle, List.drop_eq_nil_of_le hle]
      exact List.drop_length
  obtain ⟨plain, roomy, hbytes⟩ := ha
  refine ⟨⟨plain, roomy, ?_⟩, hleft⟩
  change h.buffer ++ unread.take k ++ (d.content h.node).drop (h.offset + (unread.take k).length) = _
  rw [hleft, List.append_assoc, List.take_append_drop, hbytes]

/-! One round. -/

theorem readRounds_newline {line rest : Text} (hbuffer : h.buffer = line ++ 10 :: rest)
    (bare : 10 ∉ line) (n : ℕ) (d : Disk) (seen : Text) :
    readRounds (n + 1) h d seen = (.ok ⟨seen ++ (line ++ [10]), false⟩, { h with buffer := rest }) := by
  have htake : (line ++ 10 :: rest).take (line.length + 1) = line ++ [10] :=
    List.take_length_add_append 1
  have hdrop : (line ++ 10 :: rest).drop (line.length + 1) = rest := List.drop_length_add_append 1
  rw [readRounds, hbuffer, findIdx?_newline bare]
  dsimp only
  rw [htake, hdrop]

theorem readRounds_full (bare : 10 ∉ h.buffer) (full : h.capacity ≤ h.buffer.length) (n : ℕ)
    (d : Disk) (seen : Text) : readRounds (n + 1) h d seen =
      readRounds n { h with buffer := [] } d (seen ++ h.buffer) := by
  rw [readRounds, findIdx?_bare bare]
  exact if_pos full

theorem readRounds_end (bare : 10 ∉ h.buffer) (room : h.buffer.length < h.capacity)
    (hfetch : h.fetch d (h.capacity - h.buffer.length) = .ok []) (n : ℕ) (seen : Text) :
    readRounds (n + 1) h d seen = (.ok ⟨seen ++ h.buffer, true⟩, { h with buffer := [] }) := by
  rw [readRounds, findIdx?_bare bare]
  dsimp only
  rw [if_neg (Nat.not_le.2 room), hfetch]

theorem readRounds_more {data : Text} (bare : 10 ∉ h.buffer) (room : h.buffer.length < h.capacity)
    (hfetch : h.fetch d (h.capacity - h.buffer.length) = .ok data) (hdata : data ≠ []) (n : ℕ)
    (seen : Text) : readRounds (n + 1) h d seen = readRounds n
      { h with buffer := h.buffer ++ data, offset := h.offset + data.length } d seen := by
  rw [readRounds, findIdx?_bare bare]
  dsimp only
  rw [if_neg (Nat.not_le.2 room), hfetch]
  cases data with
  | nil => exact absurd rfl hdata
  | cons b data => rfl

/-- Reading a line takes the first line off what is ahead, whatever the size of the buffer. -/
theorem readRounds_spec {n : ℕ} (ha : h.Ahead d ahead) (hn : h.rounds d ≤ n) (seen : Text) :
    ∃ line after buffer offset,
      readRounds n h d seen = (.ok ⟨seen ++ line.bytes, line.ended⟩,
        { h with buffer := buffer, offset := offset }) ∧
      FirstLine ahead line after ∧
        ({ h with buffer := buffer, offset := offset } : FileHandle).Ahead d after := by
  induction n generalizing h ahead seen with
  | zero =>
    unfold rounds at hn
    split at hn <;> omega
  | succ n ih =>
    have hfetch := ha.fetch (h.capacity - h.buffer.length)
    have plain := ha.plain
    have roomy := ha.roomy
    obtain rfl := ha.bytes
    let unread := (d.content h.node).drop h.offset
    by_cases hnewline : 10 ∈ h.buffer
    · -- The line ends in the buffer.
      obtain ⟨line, rest, hbuffer, bare⟩ := List.eq_append_cons_of_mem hnewline
      refine ⟨⟨line ++ [10], false⟩, rest ++ unread, rest, h.offset,
        readRounds_newline hbuffer bare n d seen, ?_, plain, roomy, rfl⟩
      rw [hbuffer, List.append_assoc]
      exact .newline bare _
    rcases le_or_gt h.capacity h.buffer.length with full | room
    · -- The buffer is full of a part of the line, which makes room.
      have hrest : ({ h with buffer := [] } : FileHandle).Ahead d unread := ⟨plain, roomy, rfl⟩
      have hrounds : ({ h with buffer := [] } : FileHandle).rounds d ≤ n := by
        unfold rounds at hn ⊢
        rw [if_pos full] at hn
        simp only [List.length_nil, Nat.not_le.2 roomy, if_false]
        omega
      obtain ⟨line, after, buffer, offset, hread, hline, hafter⟩ := ih hrest hrounds (seen ++ h.buffer)
      refine ⟨_, after, buffer, offset, ?_, hline.prepend hnewline, hafter⟩
      rw [readRounds_full hnewline full, hread, List.append_assoc]
    · let data := unread.take (h.capacity - h.buffer.length)
      by_cases hdata : data = []
      · -- The file ends before the line does.
        have hunread : unread = [] := by
          rcases List.take_eq_nil_iff.1 hdata with hnone | hnil
          · omega
          · exact hnil
        refine ⟨⟨h.buffer, true⟩, [], [], h.offset,
          readRounds_end hnewline room (hfetch.trans (congrArg _ hdata)) n seen, ?_, plain, roomy, ?_⟩
        · rw [show (d.content h.node).drop h.offset = [] from hunread, List.append_nil]
          exact .last hnewline
        · exact hunread
      · have hnonempty : 0 < unread.length := by
          rw [List.length_pos_iff]
          exact fun hnil => hdata (List.take_eq_nil_iff.2 (.inr hnil))
        obtain ⟨hrest, hleft⟩ := ha.refill (h.capacity - h.buffer.length)
        have hrounds : ({ h with buffer := h.buffer ++ data, offset := h.offset + data.length } :
            FileHandle).rounds d ≤ n := by
          have hbefore : 2 * unread.length + 1 ≤ n + 1 := by
            unfold rounds at hn
            rwa [if_neg (Nat.not_le.2 room)] at hn
          refine (rounds_le _ d).trans ?_
          rw [hleft, List.length_drop]
          change 2 * (unread.length - (h.capacity - h.buffer.length)) + 2 ≤ n
          omega
        obtain ⟨line, after, buffer, offset, hread, hline, hafter⟩ := ih hrest hrounds seen
        refine ⟨line, after, buffer, offset, ?_, hline, hafter⟩
        rw [readRounds_more hnewline room hfetch hdata, hread]

/-- Reading a line gives the first line of what is ahead, and leaves the rest. -/
theorem Ahead.readLine (ha : h.Ahead d ahead) : ∃ line after buffer offset,
    h.readLine d = (.ok line, { h with buffer := buffer, offset := offset }) ∧
      FirstLine ahead line after ∧
        ({ h with buffer := buffer, offset := offset } : FileHandle).Ahead d after := by
  have hrounds : h.rounds d ≤ 2 * (d.content h.node).length + 4 := by
    refine (rounds_le h d).trans ?_
    rw [List.length_drop]
    omega
  obtain ⟨line, after, buffer, offset, hread, hline⟩ := readRounds_spec ha hrounds []
  exact ⟨line, after, buffer, offset, hread, hline⟩

/-- Reading all gives what is ahead, and leaves nothing. -/
theorem Ahead.readAll (ha : h.Ahead d ahead) : ∃ offset,
    h.readAll d = (.ok ahead, { h with buffer := [], offset := offset }) ∧
      ({ h with buffer := [], offset := offset } : FileHandle).Ahead d [] := by
  have hall : ((d.content h.node).drop h.offset).take (d.content h.node).length =
      (d.content h.node).drop h.offset := by
    refine List.take_of_length_le ?_
    rw [List.length_drop]
    omega
  have hfetch := ha.fetch (d.content h.node).length
  rw [hall] at hfetch
  obtain ⟨plain, roomy, rfl⟩ := ha
  refine ⟨h.offset + ((d.content h.node).drop h.offset).length, ?_, plain, roomy, ?_⟩
  · unfold FileHandle.readAll
    rw [hfetch]
  · change (d.content h.node).drop (h.offset + ((d.content h.node).drop h.offset).length) = []
    rw [List.drop_eq_nil_iff, List.length_drop]
    omega

/-- Reading changes nothing of a handle but its buffer and its place. -/
theorem readRounds_keeps (n : ℕ) (h : FileHandle) (d : Disk) (seen : Text) :
    ∃ buffer offset, (readRounds n h d seen).2 = { h with buffer := buffer, offset := offset } := by
  induction n generalizing h seen with
  | zero => exact ⟨h.buffer, h.offset, rfl⟩
  | succ n ih =>
    unfold readRounds
    split
    · exact ⟨_, h.offset, rfl⟩
    · split
      · exact ih _ _
      · split
        · exact ⟨[], h.offset, rfl⟩
        · exact ⟨[], h.offset, rfl⟩
        · exact ih _ _

theorem readAll_keeps (h : FileHandle) (d : Disk) :
    ∃ buffer offset, (h.readAll d).2 = { h with buffer := buffer, offset := offset } := by
  unfold readAll
  split
  · exact ⟨[], h.offset, rfl⟩
  · exact ⟨[], _, rfl⟩

/-- A handle has the same ahead as long as its file is the same. -/
theorem Ahead.congr {d' : Disk} (ha : h.Ahead d ahead) (hnode : d'.node h.node = d.node h.node) :
    h.Ahead d' ahead := by
  have hcontent : d'.content h.node = d.content h.node := by
    unfold Disk.content
    rw [hnode]
  refine ⟨fun parent entries => hnode ▸ ha.plain parent entries, ha.roomy, ?_⟩
  rw [hcontent, ha.bytes]

/-- What is opened for reading is ahead from its first byte. -/
theorem openFile_ahead {path c : Text} {node : ℕ} (hfind : d.find path = .ok node)
    (hfile : d.node node = .file c) (capacity : ℕ) : ∃ h,
      openFile d path .read capacity = .ok (h, d) ∧ h.Ahead d c ∧ h.mode = .read ∧
        h.closed = false ∧ h.node = node := by
  refine ⟨{ path := path, mode := .read, node := node, capacity := max capacity leastReadBuffer },
    ?_, ⟨?_, ?_, ?_⟩, rfl, rfl, rfl⟩
  · unfold openFile
    rw [hfind]
  · intro parent entries hdir
    cases hdir.symm.trans hfile
  · exact Nat.lt_of_lt_of_le (by decide) (Nat.le_max_right ..)
  · change [] ++ (d.content node).drop 0 = c
    rw [Disk.content, hfile]
    rfl

end FileHandle

end BytecodeMachine
