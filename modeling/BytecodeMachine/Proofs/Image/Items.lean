import BytecodeMachine.Image.Item
import BytecodeMachine.Proofs.Number.Binary

/-!
Data items read back. Whatever an item of an image is written as, reading takes just those bytes and
gives the item again, provided that its numbers fit eight bytes, its containers are neither too long
nor too deep, and what is no number is the one pattern that is written for all of them.
-/
namespace BytecodeMachine.Item

open BinaryFormat (half single double)

theorem length_bigEndian (w n : ℕ) : (bigEndian w n).length = w := by
  induction w generalizing n with
  | zero => rfl
  | succ w ih => rw [bigEndian, List.length_append, ih, List.length_singleton]

theorem ofBigEndian_append (t : Text) (b : UInt8) :
    ofBigEndian (t ++ [b]) = 256 * ofBigEndian t + b.toNat := by
  rw [ofBigEndian, List.foldl_append]
  rfl

theorem ofBigEndian_bigEndian {w n : ℕ} (h : n < 256 ^ w) : ofBigEndian (bigEndian w n) = n := by
  induction w generalizing n with
  | zero =>
    rw [pow_zero] at h
    have hzero : n = 0 := by omega
    rw [hzero]
    rfl
  | succ w ih =>
    have hdiv : n / 256 < 256 ^ w := by
      rw [Nat.div_lt_iff_lt_mul (by decide), ← Nat.pow_succ]
      exact h
    have hbyte : (n % 256).toUInt8.toNat = n % 256 :=
      UInt8.toNat_ofNat_of_lt (Nat.mod_lt n (by decide))
    rw [bigEndian, ofBigEndian_append, ih hdiv, hbyte]
    exact Nat.div_add_mod n 256

theorem readNumber_bigEndian {w n : ℕ} (h : n < 256 ^ w) (t : Text) :
    readNumber w (bigEndian w n ++ t) = some (n, t) := by
  have hlen := length_bigEndian w n
  rw [readNumber, if_neg (by rw [List.length_append]; omega), List.take_left' hlen,
    List.drop_left' hlen, ofBigEndian_bigEndian h]

/-- A first byte with the number of the bytes that follow. -/
theorem readHead_wide {j n : ℕ} (major : ℕ) (hmajor : major < 8) (hj : j < 4)
    (hn : n < 256 ^ twoTo j) (hsimple : ¬(major = 7 ∧ j = 0 ∧ n < 32)) (t : Text) :
    readHead ((32 * major + (24 + j)).toUInt8 :: (bigEndian (twoTo j) n ++ t)) =
      some (⟨major, 24 + j, some n⟩, t) := by
  have hbyte : (32 * major + (24 + j)).toUInt8.toNat = 32 * major + (24 + j) :=
    UInt8.toNat_ofNat_of_lt (by show _ < 256; omega)
  have hdiv : (32 * major + (24 + j)) / 32 = major := by omega
  have hmod : (32 * major + (24 + j)) % 32 = 24 + j := by omega
  have hinfo : 24 + j - 24 = j := by omega
  rw [readHead]
  simp only [hbyte, hdiv, hmod, hinfo, readNumber_bigEndian hn]
  -- The low five bits are at least 24 and say how many bytes follow. The last test is the one on
  -- simple values, which are not written in two bytes where one is enough.
  rw [if_neg (by omega), if_pos (by omega), if_neg]
  simp only [Bool.and_eq_true, decide_eq_true_eq]
  omega

theorem readHead_narrow {major n : ℕ} (hmajor : major < 8) (hn : n < 24) (t : Text) :
    readHead ((32 * major + n).toUInt8 :: t) = some (⟨major, n, some n⟩, t) := by
  have hbyte : (32 * major + n).toUInt8.toNat = 32 * major + n :=
    UInt8.toNat_ofNat_of_lt (by show _ < 256; omega)
  have hdiv : (32 * major + n) / 32 = major := by omega
  have hmod : (32 * major + n) % 32 = n := by omega
  rw [readHead]
  simp only [hbyte, hdiv, hmod, hn, if_true]

/-- What is written for a kind and a number is read as such. -/
theorem readHead_head {n : ℕ} (major : ℕ) (hmajor : major < 7) (hn : n < twoTo 64) (t : Text) :
    ∃ info, readHead (head major n ++ t) = some (⟨major, info, some n⟩, t) := by
  have hsimple : major ≠ 7 := by omega
  have hlt : major < 8 := by omega
  have hwide (j : ℕ) (hj : j < 4) (hn : n < 256 ^ twoTo j) :=
    readHead_wide major hlt hj hn (fun h => hsimple h.1) t
  unfold head
  dsimp only
  split_ifs with h₀ h₁ h₂ h₃
  · exact ⟨n, readHead_narrow hlt h₀ t⟩
  · exact ⟨24, hwide 0 (by decide) h₁⟩
  · exact ⟨25, hwide 1 (by decide) h₂⟩
  · exact ⟨26, hwide 2 (by decide) h₃⟩
  · exact ⟨27, hwide 3 (by decide) hn⟩

section Floats

/-- The one pattern that is read for all that is no number. -/
def canonicalNaN : Binary64 := ⟨0x7FF8000000000000⟩

theorem narrowed?_eq_some {f : BinaryFormat} [f.Proper] {x : Binary64} {bits : ℕ}
    (h : narrowed? f x = some bits) :
    bits < twoTo f.width ∧ f.convert double bits = x.pattern := by
  unfold narrowed? at h
  dsimp only at h
  split at h
  · next heq =>
    cases h
    exact ⟨BinaryFormat.convert_lt _, heq⟩
  · cases h

theorem ofNatBits_pattern (x : Binary64) : Binary64.ofNatBits x.pattern = x :=
  congrArg Binary64.mk UInt64.ofNat_toNat

/-- A number in as few bytes as keep its value is read back. -/
theorem readHead_encodeFloat {x : Binary64} (hx : x.isNaN = true → x = canonicalNaN) (t : Text) :
    ∃ info n, readHead (encodeFloat x ++ t) = some (⟨7, info, some n⟩, t) ∧
      primitive info n = float x := by
  have hwide (j n : ℕ) (hj : j < 4) (hpos : 0 < j) (hn : n < 256 ^ twoTo j) :=
    readHead_wide 7 (by decide) hj hn (fun h => by omega) t
  unfold encodeFloat
  split
  · next hnan =>
    refine ⟨25, 0x7E00, hwide 1 0x7E00 (by decide) (by decide) (by decide), ?_⟩
    have hbits : Binary64.ofNatBits (half.convert double 0x7E00) = canonicalNaN := by decide +kernel
    rw [hx hnan, primitive, if_pos rfl, hbits]
  · split
    · next bits hbits =>
      obtain ⟨hlt, heq⟩ := narrowed?_eq_some hbits
      refine ⟨25, bits, hwide 1 bits (by decide) (by decide) hlt, ?_⟩
      rw [primitive, if_pos rfl, heq, ofNatBits_pattern]
    · split
      · next bits hbits =>
        obtain ⟨hlt, heq⟩ := narrowed?_eq_some hbits
        refine ⟨26, bits, hwide 2 bits (by decide) (by decide) hlt, ?_⟩
        rw [primitive, if_neg (by decide), if_pos rfl, heq, ofNatBits_pattern]
      · refine ⟨27, x.pattern, hwide 3 x.pattern (by decide) (by decide) x.bits.toNat_lt, ?_⟩
        rw [primitive, if_neg (by decide), if_neg (by decide), if_pos rfl, ofNatBits_pattern]

end Floats

/-- An item that is read back where `level` containers may be opened. -/
inductive Writable : (level : ℕ) → Item → Prop where
  | unsigned {level n : ℕ} (fits : n < twoTo 64) : Writable level (.unsigned n)
  | negative {level n : ℕ} (fits : n < twoTo 64) : Writable level (.negative n)
  | text {level : ℕ} {t : Text} (fits : t.length < twoTo 64) : Writable level (.ofText t)
  | null {level : ℕ} : Writable level .null
  | float {level : ℕ} {x : Binary64} (canonical : x.isNaN = true → x = canonicalNaN) :
      Writable level (.float x)
  | array {level : ℕ} {items : List Item} (size : items.length ≤ sizeLimit)
      (all : ∀ i ∈ items, Writable level i) : Writable (level + 1) (.array items)
  | map {level : ℕ} {entries : List (Item × Item)} (size : entries.length ≤ sizeLimit)
      (keys : ∀ e ∈ entries, Writable level e.1) (values : ∀ e ∈ entries, Writable level e.2) :
      Writable (level + 1) (.map entries)

/-- The keys and values of a map in turn. -/
def inTurn (entries : List (Item × Item)) : List Item := entries.flatMap fun e => [e.1, e.2]

theorem length_inTurn (entries : List (Item × Item)) :
    (inTurn entries).length = 2 * entries.length := by
  induction entries with
  | nil => rfl
  | cons e es ih =>
    have hcons : inTurn (e :: es) = e.1 :: e.2 :: inTurn es := rfl
    rw [hcons, List.length_cons, List.length_cons, List.length_cons, ih]
    omega

theorem pairUp_inTurn (entries : List (Item × Item)) : pairUp (inTurn entries) = some entries := by
  induction entries with
  | nil => rfl
  | cons e es ih =>
    have hcons : inTurn (e :: es) = e.1 :: e.2 :: inTurn es := rfl
    rw [hcons, pairUp, ih]
    rfl

theorem encodeEntries_eq (entries : List (Item × Item)) :
    encodeEntries entries = encodeAll (inTurn entries) := by
  induction entries with
  | nil => rfl
  | cons e es ih =>
    obtain ⟨k, v⟩ := e
    have hcons : inTurn ((k, v) :: es) = k :: v :: inTurn es := rfl
    rw [hcons, encodeEntries, encodeAll, encodeAll, ih, List.append_assoc]

theorem readMany_encodeAll {read : Text → Option (Item × Text)} {items : List Item}
    (h : ∀ i ∈ items, ∀ t, read (i.encode ++ t) = some (i, t)) (t : Text) :
    readMany read items.length (encodeAll items ++ t) = some (items, t) := by
  induction items with
  | nil => rfl
  | cons i is ih =>
    have hrest := ih fun j hj => h j (List.mem_cons_of_mem _ hj)
    rw [List.length_cons, encodeAll, List.append_assoc, readMany, h i List.mem_cons_self]
    dsimp only
    rw [hrest]

/-- A container of a size that is written is read item by item. -/
theorem readContainer_encodeAll {read : Text → Option (Item × Text)} {items : List Item}
    {n : ℕ} (each : ℕ) (hlen : items.length = each * n) (hsize : n ≤ sizeLimit)
    (h : ∀ i ∈ items, ∀ t, read (i.encode ++ t) = some (i, t)) (t : Text) :
    readContainer read each (some n) (encodeAll items ++ t) = some (items, t) := by
  rw [readContainer, if_neg (by omega), readAll, ← hlen]
  exact readMany_encodeAll h t

/-- An item is read back from what it is written as, whatever follows. -/
theorem Writable.read_encode {level : ℕ} {i : Item} (h : Writable level i) :
    ∀ depth, level ≤ depth → ∀ t, read (depth + 1) level (i.encode ++ t) = some (i, t) := by
  -- Only a container takes a level, and it takes a step of the depth with it.
  induction h with
  | @unsigned level n fits =>
    intro depth hd t
    obtain ⟨info, hhead⟩ := readHead_head 0 (by decide) fits t
    simp only [read, encode, hhead]
  | @negative level n fits =>
    intro depth hd t
    obtain ⟨info, hhead⟩ := readHead_head 1 (by decide) fits t
    simp only [read, encode, hhead]
  | @text level s fits =>
    intro depth hd t
    obtain ⟨info, hhead⟩ := readHead_head 3 (by decide) fits (s ++ t)
    have hbytes : readBytes s.length (s ++ t) = some (s, t) := by
      rw [readBytes, if_neg (by rw [List.length_append]; omega), List.take_left, List.drop_left]
    simp only [read, ofText, encode, List.flatten_singleton, List.append_assoc, hhead, readPieces,
      hbytes, Option.map_some]
  | @null level =>
    intro depth hd t
    rfl
  | @float level x canonical =>
    intro depth hd t
    obtain ⟨info, n, hhead, hprimitive⟩ := readHead_encodeFloat canonical t
    simp only [read, encode, hhead, hprimitive]
  | @array level items size all ih =>
    intro depth hd t
    have hitem (i) (hi : i ∈ items) (t) : read depth level (i.encode ++ t) = some (i, t) := by
      obtain ⟨below, rfl⟩ : ∃ below, depth = below + 1 := ⟨depth - 1, by omega⟩
      exact ih i hi below (by omega) t
    have hfits : items.length < twoTo 64 := size.trans_lt (by decide)
    obtain ⟨info, hhead⟩ := readHead_head 4 (by decide) hfits (encodeAll items ++ t)
    have hitems := readContainer_encodeAll 1 (one_mul items.length).symm size hitem t
    simp only [read, encode, List.append_assoc, hhead, Nat.add_sub_cancel, Nat.succ_ne_zero, if_false,
      hitems, Option.map_some]
  | @map level entries size keys values ihk ihv =>
    intro depth hd t
    have hitem (i) (hi : i ∈ inTurn entries) (t) :
        read depth level (i.encode ++ t) = some (i, t) := by
      obtain ⟨below, rfl⟩ : ∃ below, depth = below + 1 := ⟨depth - 1, by omega⟩
      obtain ⟨e, he, hi⟩ := List.mem_flatMap.1 hi
      rcases List.mem_pair.1 hi with rfl | rfl
      · exact ihk e he below (by omega) t
      · exact ihv e he below (by omega) t
    have hfits : entries.length < twoTo 64 := size.trans_lt (by decide)
    obtain ⟨info, hhead⟩ :=
      readHead_head 5 (by decide) hfits (encodeAll (inTurn entries) ++ t)
    have hitems := readContainer_encodeAll 2 (length_inTurn entries) size hitem t
    simp only [read, encode, encodeEntries_eq, List.append_assoc, hhead, Nat.add_sub_cancel,
      Nat.succ_ne_zero, if_false, hitems, pairUp_inTurn, Option.map_some]

theorem Writable.parse_encode {i : Item} (h : Writable levelLimit i) : parse i.encode = some i := by
  have hread := h.read_encode (2 * levelLimit + 1) (by decide) []
  rw [List.append_nil] at hread
  rw [parse, hread]

section Unread

variable {level depth : ℕ}

/-- Items are not read where one of them is not. -/
theorem readMany_eq_none {read : Text → Option (Item × Text)} {before after : List Item} {i : Item}
    (hbefore : ∀ j ∈ before, ∀ t, read (j.encode ++ t) = some (j, t))
    (hi : ∀ t, read (i.encode ++ t) = none) (t : Text) :
    readMany read (before ++ i :: after).length (encodeAll (before ++ i :: after) ++ t) = none := by
  induction before with
  | nil =>
    rw [List.nil_append, List.length_cons, encodeAll, List.append_assoc, readMany, hi]
  | cons j js ih =>
    have hrest := ih fun k hk => hbefore k (List.mem_cons_of_mem _ hk)
    rw [List.cons_append, List.length_cons, encodeAll, List.append_assoc, readMany,
      hbefore j List.mem_cons_self]
    dsimp only
    rw [hrest]

/-- An array of too many items is not read, whatever they are. -/
theorem read_array_eq_none {items : List Item} (long : sizeLimit < items.length)
    (fits : items.length < twoTo 64) (t : Text) :
    read depth level ((array items).encode ++ t) = none := by
  cases depth with
  | zero => rfl
  | succ depth =>
    obtain ⟨info, hhead⟩ := readHead_head 4 (by decide) fits (encodeAll items ++ t)
    simp only [read, encode, List.append_assoc, hhead]
    split
    · rfl
    · rw [readContainer, if_pos long]
      rfl

/-- A map is not read where one of its values is not. -/
theorem read_map_eq_none {before after : List (Item × Item)} {k v : Item}
    (fits : (before ++ (k, v) :: after).length < twoTo 64)
    (hbefore : ∀ e ∈ before, Writable level e.1 ∧ Writable level e.2) (hk : Writable level k)
    (hdepth : level < depth) (hv : ∀ t, read depth level (v.encode ++ t) = none) (t : Text) :
    read (depth + 1) (level + 1) ((map (before ++ (k, v) :: after)).encode ++ t) = none := by
  have hturn : inTurn (before ++ (k, v) :: after) =
      (inTurn before ++ [k]) ++ v :: inTurn after := by
    simp [inTurn]
  -- Whatever stands before the value is read item by item, and the reader stops at the value.
  have hread (j : Item) (hj : j ∈ inTurn before ++ [k]) (t : Text) :
      read depth level (j.encode ++ t) = some (j, t) := by
    obtain ⟨below, rfl⟩ : ∃ below, depth = below + 1 := ⟨depth - 1, by omega⟩
    refine Writable.read_encode ?_ below (by omega) t
    rcases List.mem_append.1 hj with hj | hj
    · obtain ⟨e, he, hj⟩ := List.mem_flatMap.1 hj
      rcases List.mem_pair.1 hj with rfl | rfl
      · exact (hbefore e he).1
      · exact (hbefore e he).2
    · rw [List.mem_singleton.1 hj]
      exact hk
  obtain ⟨info, hhead⟩ := readHead_head 5 (by decide) fits
    (encodeAll (inTurn (before ++ (k, v) :: after)) ++ t)
  have hitems : readContainer (read depth level) 2 (some (before ++ (k, v) :: after).length)
      (encodeAll (inTurn (before ++ (k, v) :: after)) ++ t) = none := by
    rw [readContainer, ← length_inTurn, hturn]
    split
    · rfl
    · exact readMany_eq_none hread hv t
  simp only [read, encode, encodeEntries_eq, List.append_assoc, hhead,
    Nat.add_sub_cancel, Nat.succ_ne_zero, if_false, hitems]

end Unread

end BytecodeMachine.Item
