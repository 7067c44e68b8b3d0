import BytecodeMachine.Proofs.Machine.Integers
import BytecodeMachine.Proofs.Text.Encoding

/-! Slices. Their bounds are always found inside the sequence, what lies between them is copied, and
two slices at one position make up the whole. -/
namespace BytecodeMachine

/-- A bound as a program writes it, where one that is missing is null. -/
def boundValue : Option Whole → Value
  | none => .null
  | some k => k.toValue

/-- Where an integer cuts a sequence of length `n`: counted from the end where it is negative, and
never outside. -/
def cutAt (n : ℕ) (k : ℤ) : ℤ := max 0 (min n (if k < 0 then k + n else k))

/-- The positions that two bounds come to in a sequence of length `n`. -/
structure CutsTo (a b : Option Whole) (n lo hi : ℕ) : Prop where
  first : (lo : ℤ) = a.elim 0 fun k => cutAt n k.number
  last : (hi : ℤ) = max (lo : ℤ) (b.elim (n : ℤ) fun k => cutAt n k.number)
  ordered : lo ≤ hi
  inside : hi ≤ n

/-- Whether a list holds the elements of another one from a position to before another. -/
structure Between {α : Type} (xs : List α) (lo hi : ℕ) (ys : List α) : Prop where
  length : ys.length = hi - lo
  get : ∀ p < hi - lo, ys[p]? = xs[lo + p]?

/-- Whether a reply gives an array of these elements that was not there before, and changes nothing
else. -/
def World.Makes (w : World) (elems : List Value) (reply : Reply Value) : Prop :=
  ∃ id, w.store.arrays[id]? = none ∧ reply.1 = .ok (.array id) ∧
    reply.2.store.arrays[id]? = some elems ∧
    (∀ other, other ≠ id → reply.2.store.arrays[other]? = w.store.arrays[other]?) ∧
    reply.2 = { w with store := { w.store with arrays := reply.2.store.arrays } }

variable {a b : Option Whole} {k : ℤ} {n lo hi id : ℕ} {s : Text} {w : World}

/-! Bounds. -/

theorem Whole.toInteger (what : Text) (k : Whole) : k.toValue.toInteger what = .ok k.number := by
  cases k <;> rfl

theorem cutAt_nonneg (n : ℕ) (k : ℤ) : 0 ≤ cutAt n k := Int.le_max_left _ _

theorem cutAt_le (n : ℕ) (k : ℤ) : cutAt n k ≤ n := by
  unfold cutAt
  omega

theorem cutAt_of_inside (h : 0 ≤ k) (h' : k ≤ n) : cutAt n k = k := by
  unfold cutAt
  omega

theorem sliceBound_boundValue (b : Option Whole) (missing n : ℕ) :
    sliceBound (boundValue b) missing n =
      .ok (b.elim missing fun k => (cutAt n k.number).toNat) := by
  have hcut (k : ℤ) :
      min (if k < 0 then k + (n : ℤ) else k).toNat n = (cutAt n k).toNat := by
    unfold cutAt
    omega
  cases b with
  | none => rfl
  | some k =>
    have hinteger : sliceBound (boundValue (some k)) missing n =
        (k.toValue.toInteger "slice bound").map fun (i : ℤ) =>
          min (if i < 0 then i + (n : ℤ) else i).toNat n := by
      cases k <;> rfl
    rw [hinteger, Whole.toInteger, Except.map, hcut]
    rfl

theorem elim_toNat (b : Option Whole) (missing n : ℕ) :
    ((b.elim missing fun k => (cutAt n k.number).toNat : ℕ) : ℤ) =
      b.elim (missing : ℤ) fun k => cutAt n k.number := by
  cases b with
  | none => rfl
  | some k => exact Int.toNat_of_nonneg (cutAt_nonneg n k.number)

/-- Two bounds are always found, in their order and inside. -/
theorem sliceBounds_boundValue (a b : Option Whole) (n : ℕ) : ∃ lo hi,
    sliceBounds (boundValue a) (boundValue b) n = .ok (lo, hi) ∧ CutsTo a b n lo hi := by
  refine ⟨_, _, by simp only [sliceBounds, sliceBound_boundValue]; rfl, ?_⟩
  have hlo := elim_toNat a 0 n
  have hhi := elim_toNat b n n
  have hinside (c : Option Whole) {missing : ℕ} (h : missing ≤ n) :
      (c.elim missing fun k => (cutAt n k.number).toNat) ≤ n := by
    cases c with
    | none => exact h
    | some k => exact Int.toNat_le.2 (cutAt_le n k.number)
  refine ⟨hlo, ?_, Nat.le_max_left _ _,
    Nat.max_le.2 ⟨hinside a (Nat.zero_le n), hinside b (Nat.le_refl n)⟩⟩
  rw [← hhi]
  omega

example : sliceBounds (.int (-3)) (.int32 100) 5 = .ok (2, 5) := by rfl

/-- Bounds come to one pair of positions. -/
theorem CutsTo.sliceBounds (h : CutsTo a b n lo hi) :
    sliceBounds (boundValue a) (boundValue b) n = .ok (lo, hi) := by
  obtain ⟨lo', hi', hbounds, h'⟩ := sliceBounds_boundValue a b n
  have hlo : (lo' : ℤ) = lo := h'.first.trans h.first.symm
  have hhi : (hi' : ℤ) = hi := by rw [h'.last, h.last, hlo]
  rw [hbounds, Int.ofNat_inj.1 hlo, Int.ofNat_inj.1 hhi]

/-- Bounds that are in their order and inside come to themselves. -/
theorem cutsTo_of_inside (ha : a.elim (0 : ℤ) Whole.number = lo)
    (hb : b.elim (n : ℤ) Whole.number = hi) (ordered : lo ≤ hi) (inside : hi ≤ n) :
    CutsTo a b n lo hi where
  first := by
    cases a with
    | none => exact ha.symm
    | some k =>
      have hk : k.number = lo := ha
      rw [Option.elim_some, cutAt_of_inside (by omega) (by omega), hk]
  last := by
    cases b with
    | none =>
      have hn : (n : ℤ) = hi := hb
      rw [Option.elim_none]
      omega
    | some k =>
      have hk : k.number = hi := hb
      rw [Option.elim_some, cutAt_of_inside (by omega) (by omega), hk]
      omega
  ordered := ordered
  inside := inside

/-! Elements. -/

theorem slice_between {α : Type} (xs : List α) (h : hi ≤ xs.length) :
    Between xs lo hi (slice xs lo hi) where
  length := by
    rw [slice, List.length_take, List.length_drop]
    omega
  get p hp := by rw [slice, List.getElem?_take_of_lt hp, List.getElem?_drop]

theorem slice_map {α β : Type} (f : α → β) (xs : List α) :
    slice (xs.map f) lo hi = (slice xs lo hi).map f := by
  rw [slice, slice, List.map_take, List.map_drop]

theorem slice_append {α : Type} (xs : List α) (p : ℕ) :
    slice xs 0 p ++ slice xs p xs.length = xs := by
  have hrest : slice xs p xs.length = xs.drop p := by
    rw [slice, ← List.length_drop, List.take_length]
  rw [hrest]
  exact List.take_append_drop p xs

/-- The text between two positions of a text without stray bytes. -/
theorem charsText_slice (cs : List Char) (lo hi : ℕ) :
    charsText (slice (Text.ofChars cs).runes lo hi) = Text.ofChars (slice cs lo hi) := by
  rw [Text.runes_ofChars, slice_map, charsText, List.map_map]
  exact congrArg Text.ofChars (List.map_id _)

/-! Instructions and methods. -/

theorem sliceGet_replies (obj start stop : Value) :
    Opcode.sliceGet.Replies [obj, start, stop] fun w => w.sliceGet obj start stop := by
  intro s m o stack hs
  simp only [List.reverse_cons, List.reverse_nil, List.nil_append, List.cons_append] at hs
  simp only [Machine.perform, Machine.pop3, Machine.pop, hs]

theorem array_offers_slice (id : ℕ) (start stop : Value) :
    (Value.array id).Offers "slice" [start, stop] fun w => w.sliceGet (.array id) start stop :=
  Intrinsic.arraySlice.offers rfl (.inl rfl) rfl (fun _ => rfl) (fun _ _ _ => rfl)
    fun w => w.sliceGet_tame _ _ _

theorem array_offers_slice_from (id : ℕ) (start : Value) :
    (Value.array id).Offers "slice" [start] fun w => w.sliceGet (.array id) start .null :=
  Intrinsic.arraySlice.offers rfl (.inl rfl) rfl (fun _ => rfl) (fun _ _ _ => rfl)
    fun w => w.sliceGet_tame _ _ _

theorem string_offers_substring (s : Text) (i j : Whole) :
    (Value.string s).Offers "substring" [i.toValue, j.toValue]
      fun w => w.lift ((World.substring s i.number (some j.number)).map .string) := by
  refine Intrinsic.stringSubstring.string_offers rfl nofun rfl ?_
  rw [World.stringResult, Whole.toInteger, Whole.toInteger]
  rfl

theorem newArray_makes (w : World) (elems : List Value) : w.Makes elems (w.newArray elems) := by
  refine ⟨w.store.arrays.size, Array.getElem?_eq_none (Nat.le_refl _), rfl,
    Array.getElem?_push_size, fun other hother => ?_, rfl⟩
  exact (Array.getElem?_push ..).trans (if_neg hother)

theorem sliceGet_array {xs : List Value} (hxs : w.store.array id = xs)
    (h : CutsTo a b xs.length lo hi) :
    w.sliceGet (.array id) (boundValue a) (boundValue b) = w.newArray (slice xs lo hi) := by
  simp only [World.sliceGet, hxs, h.sliceBounds]

theorem sliceGet_string (h : CutsTo a b s.runeCount lo hi) (w : World) :
    w.sliceGet (.string s) (boundValue a) (boundValue b) =
      w.give (.string (charsText (slice s.runes lo hi))) := by
  rw [Text.runeCount] at h
  simp only [World.sliceGet, h.sliceBounds]

/-- A slice of an array is a new array of the elements between the bounds. -/
theorem sliceGet_makes (a b : Option Whole) (id : ℕ) (w : World) : ∃ lo hi ys,
    CutsTo a b (w.store.array id).length lo hi ∧ Between (w.store.array id) lo hi ys ∧
      w.Makes ys (w.sliceGet (.array id) (boundValue a) (boundValue b)) := by
  obtain ⟨lo, hi, -, hcut⟩ := sliceBounds_boundValue a b (w.store.array id).length
  refine ⟨lo, hi, _, hcut, slice_between _ hcut.inside, ?_⟩
  rw [sliceGet_array rfl hcut]
  exact newArray_makes w _

/-- A slice of a string is the string of the characters between the bounds. -/
theorem sliceGet_replies_string (valid : s.isValid = true) (h : CutsTo a b s.runeCount lo hi) :
    ∃ t : Text, (Opcode.sliceGet.Replies [.string s, boundValue a, boundValue b]
      fun w => w.give (.string t)) ∧ t.isValid = true ∧ Between s.runes lo hi t.runes := by
  have hreplies := sliceGet_replies (.string s) (boundValue a) (boundValue b)
  simp only [sliceGet_string h] at hreplies
  obtain ⟨cs, rfl⟩ := Text.exists_ofChars valid
  refine ⟨_, hreplies, ?_, ?_⟩
  · rw [charsText_slice]
    exact Text.isValid_ofChars _
  · rw [charsText_slice, Text.runes_ofChars (slice cs lo hi), ← slice_map, ← Text.runes_ofChars]
    exact slice_between _ h.inside

/-! Two slices at one position. -/

theorem cutsTo_before (k : Whole) (n : ℕ) :
    CutsTo none (some k) n 0 (cutAt n k.number).toNat where
  first := rfl
  last := by
    rw [Int.toNat_of_nonneg (cutAt_nonneg n k.number)]
    exact (max_eq_right (cutAt_nonneg n k.number)).symm
  ordered := Nat.zero_le _
  inside := Int.toNat_le.2 (cutAt_le n k.number)

theorem cutsTo_after (k : Whole) (n : ℕ) :
    CutsTo (some k) none n (cutAt n k.number).toNat n where
  first := Int.toNat_of_nonneg (cutAt_nonneg n k.number)
  last := by
    rw [Int.toNat_of_nonneg (cutAt_nonneg n k.number)]
    exact (max_eq_right (cutAt_le n k.number)).symm
  ordered := Int.toNat_le.2 (cutAt_le n k.number)
  inside := Nat.le_refl n

theorem add_replies_array (x y : ℕ) : Opcode.add.Replies [.array x, .array y]
    fun w => w.newArray (w.store.array x ++ w.store.array y) := by
  intro s m o stack hs
  simp only [List.reverse_cons, List.reverse_nil, List.nil_append, List.cons_append] at hs
  simp only [Machine.perform, Machine.arithmetic, Machine.pop2, Machine.pop, hs, Machine.add,
    if_true]

theorem add_replies_string (x y : Text) : Opcode.add.Replies [.string x, .string y]
    fun w => w.give (.string (x ++ y)) := by
  intro s m o stack hs
  simp only [List.reverse_cons, List.reverse_nil, List.nil_append, List.cons_append] at hs
  simp only [Machine.perform, Machine.arithmetic, Machine.pop2, Machine.pop, hs, Machine.add,
    if_true]
  rfl

/-- What is made beside an array leaves it as it is. -/
theorem array_newArray {xs : List Value} (h : id = w.store.arrays.size → xs = []) :
    (w.newArray xs).2.store.array id = w.store.array id := by
  change ((w.store.arrays.push xs)[id]?).getD [] = (w.store.arrays[id]?).getD []
  rw [Array.getElem?_push]
  split
  · next hsize =>
    rw [h hsize, Array.getElem?_eq_none (Nat.le_of_eq hsize.symm)]
    rfl
  · rfl

theorem array_newArray_self (w : World) (xs : List Value) :
    (w.newArray xs).2.store.array w.store.arrays.size = xs := by
  change ((w.store.arrays.push xs)[w.store.arrays.size]?).getD [] = xs
  rw [Array.getElem?_push_size, Option.getD_some]

/-- The elements before a position and those after it, joined, are the elements of the array. -/
theorem array_slices_join (id : ℕ) (k : Whole) (w : World) : ∃ x y w₁ w₂,
    w.sliceGet (.array id) .null k.toValue = (.ok (.array x), w₁) ∧
      w₁.sliceGet (.array id) k.toValue .null = (.ok (.array y), w₂) ∧
      w₂.store.array x ++ w₂.store.array y = w.store.array id := by
  set xs := w.store.array id with hxs
  set p := (cutAt xs.length k.number).toNat
  set w₁ := (w.newArray (slice xs 0 p)).2
  set w₂ := (w₁.newArray (slice xs p xs.length)).2
  -- The first slice is no other array than a new one, even where there was none to slice.
  have hkept : w₁.store.array id = xs := by
    refine array_newArray fun hsize => ?_
    have hempty : xs = [] := by
      rw [hxs, Store.array, Array.getElem?_eq_none (Nat.le_of_eq hsize.symm), Option.getD_none]
    rw [hempty, slice, List.drop_nil, List.take_nil]
  have hfirst : w.sliceGet (.array id) .null k.toValue = w.newArray (slice xs 0 p) :=
    sliceGet_array rfl (cutsTo_before k xs.length)
  have hsecond : w₁.sliceGet (.array id) k.toValue .null =
      w₁.newArray (slice xs p xs.length) :=
    sliceGet_array hkept (cutsTo_after k xs.length)
  have hx : w₂.store.array w.store.arrays.size = slice xs 0 p := by
    have hother : w.store.arrays.size ≠ w₁.store.arrays.size := by
      have hsize : w₁.store.arrays.size = w.store.arrays.size + 1 := Array.size_push ..
      omega
    rw [array_newArray fun h => absurd h hother, array_newArray_self]
  have hy : w₂.store.array w₁.store.arrays.size = slice xs p xs.length :=
    array_newArray_self w₁ _
  refine ⟨w.store.arrays.size, w₁.store.arrays.size, w₁, w₂, hfirst, hsecond, ?_⟩
  rw [hx, hy, slice_append]

theorem string_slices_join (valid : s.isValid = true) (k : Whole) : ∃ x y : Text,
    (∀ w : World, w.sliceGet (.string s) .null k.toValue = w.give (.string x)) ∧
      (∀ w : World, w.sliceGet (.string s) k.toValue .null = w.give (.string y)) ∧ x ++ y = s := by
  obtain ⟨cs, rfl⟩ := Text.exists_ofChars valid
  refine ⟨_, _, sliceGet_string (cutsTo_before k _), sliceGet_string (cutsTo_after k _), ?_⟩
  rw [charsText_slice, charsText_slice, ← Text.ofChars_append, Text.runeCount_ofChars,
    slice_append]

/-! Substrings. -/

theorem substring_of_inside {i j : ℤ} (hi : 0 ≤ i) (hij : i ≤ j) (hj : j ≤ s.runeCount) :
    World.substring s i (some j) = .ok (charsText (slice s.runes i.toNat j.toNat)) := by
  rw [Text.runeCount] at hj
  have hrange : ¬ (i < 0 ∨ (s.runes.length : ℤ) < j ∨ j < i) := by omega
  simp only [World.substring, Option.getD_some]
  rw [if_neg (by simpa [or_assoc] using hrange)]

theorem substring_of_outside {i j : ℤ} (h : ¬ (0 ≤ i ∧ i ≤ j ∧ j ≤ s.runeCount)) :
    World.substring s i (some j) = .error (.substringRange i j s.runeCount) := by
  rw [Text.runeCount] at h
  have hrange : i < 0 ∨ (s.runes.length : ℤ) < j ∨ j < i := by omega
  simp only [World.substring, Option.getD_some, Text.runeCount]
  rw [if_pos (by simpa [or_assoc] using hrange)]

/-- Bounds of slices that are null or integers are always found inside the sequence, counted from
its end where they are negative and cut to its length. A slice of an array, by the instruction or
the method, is a new array of exactly the elements between them, and a slice of a string the string
of the characters there. The slices up to a position and from it on join to the whole. A substring
is the slice between two positions in their order and inside the string, and an exception for all
others. -/
theorem slicing_laws :
    (∀ (a b : Option Whole) (n : ℕ), ∃ lo hi,
      sliceBounds (boundValue a) (boundValue b) n = .ok (lo, hi) ∧ CutsTo a b n lo hi) ∧
    (∀ (id : ℕ) (a b : Option Whole), ∃ r : World → Reply Value,
      Opcode.sliceGet.Replies [.array id, boundValue a, boundValue b] r ∧
      (Value.array id).Offers "slice" [boundValue a, boundValue b] r ∧
      (b = none → (Value.array id).Offers "slice" [boundValue a] r) ∧
      ∀ w : World, ∃ lo hi ys, CutsTo a b (w.store.array id).length lo hi ∧
        Between (w.store.array id) lo hi ys ∧ w.Makes ys (r w)) ∧
    (∀ (s : Text) (a b : Option Whole), s.isValid = true → ∃ (t : Text) (lo hi : ℕ),
      (Opcode.sliceGet.Replies [.string s, boundValue a, boundValue b]
        fun w => w.give (.string t)) ∧
      CutsTo a b s.runeCount lo hi ∧ t.isValid = true ∧ Between s.runes lo hi t.runes) ∧
    (∀ (id : ℕ) (k : Whole), ∃ before after : World → Reply Value,
      Opcode.sliceGet.Replies [.array id, .null, k.toValue] before ∧
      Opcode.sliceGet.Replies [.array id, k.toValue, .null] after ∧
      ∀ w : World, ∃ x y w₁ w₂, ∃ join : World → Reply Value,
        before w = (.ok (.array x), w₁) ∧ after w₁ = (.ok (.array y), w₂) ∧
        Opcode.add.Replies [.array x, .array y] join ∧
        w₂.Makes (w.store.array id) (join w₂)) ∧
    (∀ (s : Text) (k : Whole), s.isValid = true → ∃ x y : Text,
      (Opcode.sliceGet.Replies [.string s, .null, k.toValue] fun w => w.give (.string x)) ∧
      (Opcode.sliceGet.Replies [.string s, k.toValue, .null] fun w => w.give (.string y)) ∧
      Opcode.add.Replies [.string x, .string y] fun w => w.give (.string s)) ∧
    (∀ (s : Text) (i j : Whole), s.isValid = true →
      if 0 ≤ i.number ∧ i.number ≤ j.number ∧ j.number ≤ s.runeCount then
        ∃ t : Text,
          ((Value.string s).Offers "substring" [i.toValue, j.toValue]
            fun w => w.give (.string t)) ∧
          Opcode.sliceGet.Replies [.string s, i.toValue, j.toValue] fun w => w.give (.string t)
      else ∃ e : ErrorCause, e.kind = "IndexError" ∧
        (Value.string s).Offers "substring" [i.toValue, j.toValue] fun w => w.fail e) := by
  refine ⟨sliceBounds_boundValue, fun id a b => ?_, fun s a b valid => ?_, fun id k => ?_,
    fun s k valid => ?_, fun s i j _ => ?_⟩
  · refine ⟨_, sliceGet_replies _ _ _, array_offers_slice _ _ _, ?_, sliceGet_makes a b id⟩
    rintro rfl
    exact array_offers_slice_from id (boundValue a)
  · obtain ⟨lo, hi, -, hcut⟩ := sliceBounds_boundValue a b s.runeCount
    obtain ⟨t, hreplies, hvalid, hbetween⟩ := sliceGet_replies_string valid hcut
    exact ⟨t, lo, hi, hreplies, hcut, hvalid, hbetween⟩
  · refine ⟨_, _, sliceGet_replies _ _ _, sliceGet_replies _ _ _, fun w => ?_⟩
    obtain ⟨x, y, w₁, w₂, hbefore, hafter, hjoin⟩ := array_slices_join id k w
    refine ⟨x, y, w₁, w₂, _, hbefore, hafter, add_replies_array x y, ?_⟩
    rw [← hjoin]
    exact newArray_makes w₂ _
  · obtain ⟨x, y, hbefore, hafter, hjoin⟩ := string_slices_join valid k
    have hfirst := sliceGet_replies (.string s) .null k.toValue
    have hsecond := sliceGet_replies (.string s) k.toValue .null
    simp only [hbefore] at hfirst
    simp only [hafter] at hsecond
    exact ⟨x, y, hfirst, hsecond, hjoin ▸ add_replies_string x y⟩
  · have hoffers := string_offers_substring s i j
    split
    · next h =>
      obtain ⟨hi, hij, hj⟩ := h
      have hreplies := sliceGet_replies (.string s) i.toValue j.toValue
      have hcut := sliceGet_string (cutsTo_of_inside (a := some i) (b := some j)
        (Int.toNat_of_nonneg hi).symm (Int.toNat_of_nonneg (Int.le_trans hi hij)).symm
        (Int.toNat_le_toNat hij) (Int.toNat_le.2 hj))
      rw [substring_of_inside hi hij hj] at hoffers
      exact ⟨_, hoffers, funext hcut ▸ hreplies⟩
    · next h =>
      rw [substring_of_outside h] at hoffers
      exact ⟨.substringRange i.number j.number s.runeCount, rfl, hoffers⟩

end BytecodeMachine
