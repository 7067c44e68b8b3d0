import BytecodeMachine.Proofs.Machine.Slices
import BytecodeMachine.Proofs.Text.Search

/-! Positions in strings. The methods that search count characters as those do that take strings
apart, although the search is one for bytes. -/
namespace BytecodeMachine

/-- What a string is searched for: another string, or a character in its place. -/
inductive Value.Needle : Value → Text → Prop where
  | string {t : Text} (valid : t.isValid = true) : Needle (.string t) t
  | char {c : Int32} {ch : Char} (scalar : c.toInt = ch.toNat) : Needle (.char c) (Text.ofChar ch)

/-- Whether a string says that it has this many characters. -/
def HasLen (s : Text) (n : Int64) : Prop :=
  (Value.string s).Offers "len" [] fun w => w.give (.int n)

/-- Whether this is what a program gets for the sum of two words. -/
def Adds (i j k : Int64) : Prop :=
  Opcode.add.Replies [.int i, .int j] fun w => w.give (.int k)

/-- Whether a slice of a string is this string. -/
def SlicesTo (s : Text) (a b : Option Int64) (t : Text) : Prop :=
  Opcode.sliceGet.Replies [.string s, boundValue (a.map .int), boundValue (b.map .int)]
    fun w => w.give (.string t)

/-- Whether a string has this character at a position. -/
def HasAt (s : Text) (i : Int64) (c : Int32) : Prop :=
  Opcode.indexGet.Replies [.string s, .int i] fun w => w.give (.char c)

/-- Whether the substring from a position on that is as long as `t` is `t`. -/
def FoundAt (s t : Text) (i : Int64) : Prop :=
  ∃ n e : Int64, HasLen t n ∧ Adds i n e ∧
    (Value.string s).Offers "substring" [.int i, .int e] fun w => w.give (.string t)

/-- Whether a position counts the characters before an occurrence of `t`, for slices, lengths and
single characters alike. -/
def PlacedAt (s t : Text) (i : Int64) : Prop :=
  ∃ (before after : Text) (m n e : Int64), HasLen s m ∧ HasLen t n ∧ HasLen before i ∧
    Adds i n e ∧ e ≤ m ∧ SlicesTo s none (some i) before ∧ SlicesTo s (some i) (some e) t ∧
    SlicesTo s (some e) none after ∧ s = before ++ t ++ after ∧
    ∀ k : Int64, 0 ≤ k → k < n → ∃ (p : Int64) (c : Int32),
      Adds i k p ∧ HasAt s p c ∧ HasAt t k c

/-- Whether `i` is what a search for `v`, which stands for `t`, gives, and what this says is what
the other methods and instructions say. -/
structure PositionsAgree (s : Text) (v : Value) (t : Text) (i : Int64) : Prop where
  index : (Value.string s).Offers "indexOf" [v] fun w => w.give (.int i)
  found : 0 ≤ i → FoundAt s t i
  first : ∀ j < i, ¬ FoundAt s t j
  nowhere : i = -1 ↔ ∀ j, ¬ FoundAt s t j
  counted : i = -1 ∨ 0 ≤ i
  contains : (Value.string s).Offers "contains" [v] fun w => w.give (.bool (decide (i ≠ -1)))
  starts : (Value.string s).Offers "startsWith" [v] fun w => w.give (.bool (decide (i = 0)))
  placed : 0 ≤ i → PlacedAt s t i

variable {s t : Text} {v : Value} {cs ds xs ys zs : List Char} {i j : Int64} {k : ℕ}

/-! Methods and instructions. -/

theorem Value.Needle.exists_chars (h : v.Needle t) : ∃ ds, t = Text.ofChars ds := by
  cases h with
  | string valid => exact Text.exists_ofChars valid
  | @char c ch _ => exact ⟨[ch], (List.append_nil _).symm⟩

/-- A character stands for the string of it. -/
theorem Value.Needle.toSubstring (h : v.Needle t) (what : Text) : v.toSubstring what = .ok t := by
  cases h with
  | string _ => rfl
  | @char c ch scalar =>
    have hnumber : c.toInt.toNat = ch.toNat := by omega
    have hvalid : c.toInt.toNat.isValidChar := hnumber ▸ ch.valid
    have hchar : Char.ofNatAux c.toInt.toNat hvalid = ch := by
      apply Char.toNat_inj.1
      exact hnumber
    change Except.ok (Text.ofCodePoint c.toInt) = _
    rw [Text.ofCodePoint, if_neg (by omega), dif_pos hvalid, hchar]

theorem hasLen_ofChars (cs : List Char) : HasLen (Text.ofChars cs) (Int64.ofNat cs.length) := by
  refine Intrinsic.stringLen.string_offers (a := .ok _) rfl nofun rfl ?_
  rw [World.stringResult, Text.runeCount_ofChars]
  rfl

theorem offers_indexOf (h : v.Needle t) (s : Text) : (Value.string s).Offers "indexOf" [v]
    fun w => w.give (.int (Int64.ofInt (World.indexOfText s t))) := by
  refine Intrinsic.stringIndexOf.string_offers (a := .ok _) rfl nofun rfl ?_
  rw [World.stringResult, h.toSubstring]
  rfl

theorem offers_contains (h : v.Needle t) (s : Text) : (Value.string s).Offers "contains" [v]
    fun w => w.give (.bool (Text.indexOf? t s).isSome) := by
  refine Intrinsic.stringContains.string_offers (a := .ok _) rfl nofun rfl ?_
  rw [World.stringResult, h.toSubstring]
  rfl

theorem offers_startsWith (h : v.Needle t) (s : Text) : (Value.string s).Offers "startsWith" [v]
    fun w => w.give (.bool (s.startsWith t)) := by
  refine Intrinsic.stringStartsWith.string_offers (a := .ok _) rfl nofun rfl ?_
  rw [World.stringResult, h.toSubstring]
  rfl

theorem adds (i j : Int64) : Adds i j (i + j) := by
  have hreplies := Whole.replies_arith .add (.int i) (.int j)
  have hsum : (Whole.wrapped .word64 (i.toInt + j.toInt)).toValue = .int (i + j) := by
    rw [Whole.wrapped, Int64.ofInt_add, Int64.ofInt_toInt, Int64.ofInt_toInt]
    rfl
  unfold Adds
  rw [← hsum]
  exact hreplies

theorem indexGet_replies (s : Text) (i : Int64) : Opcode.indexGet.Replies [.string s, .int i]
    fun w => w.lift ((elementAt s.runes i.toInt).map charValue) := by
  intro s m o stack hs
  simp only [List.reverse_cons, List.reverse_nil, List.nil_append, List.cons_append] at hs
  simp only [Machine.perform, Machine.pop2, Machine.pop, hs]
  rfl

/-! Words for lengths and positions. -/

theorem Text.length_le_ofChars (cs : List Char) : cs.length ≤ (Text.ofChars cs).length := by
  induction cs with
  | nil => exact Nat.le_refl 0
  | cons ch cs ih =>
    have hpos := Text.length_ofChar_pos ch
    rw [Text.ofChars_cons, List.length_append, List.length_cons]
    omega

theorem ofNat_nonneg (h : k < 2 ^ 63) : 0 ≤ Int64.ofNat k := by
  rw [Int64.le_iff_toInt_le, Int64.toInt_ofNat_of_lt h]
  exact Int.natCast_nonneg k

theorem ofNat_eq_zero_iff (h : k < 2 ^ 63) : Int64.ofNat k = 0 ↔ k = 0 := by
  rw [← Int64.toInt_inj, Int64.toInt_ofNat_of_lt h, Int64.toInt_zero]
  exact Int.natCast_eq_zero

theorem exists_ofNat_of_nonneg (h : 0 ≤ i) : ∃ m : ℕ, i = Int64.ofNat m ∧ i.toInt = m := by
  have hnonneg : 0 ≤ i.toInt := Int64.le_iff_toInt_le.1 h
  obtain ⟨m, hm⟩ := Int.eq_ofNat_of_zero_le hnonneg
  refine ⟨m, ?_, hm⟩
  rw [← Int64.ofInt_toInt i, hm]
  rfl

theorem adds_ofNat (m n : ℕ) : Adds (Int64.ofNat m) (Int64.ofNat n) (Int64.ofNat (m + n)) := by
  rw [Int64.ofNat_add]
  exact adds _ _

theorem hasAt_ofChars {ch : Char} (short : k < 2 ^ 63) (h : cs[k]? = some ch) :
    HasAt (Text.ofChars cs) (Int64.ofNat k) (Int32.ofNat ch.toNat) := by
  have hreplies := indexGet_replies (Text.ofChars cs) (Int64.ofNat k)
  have hthere : elementAt (Text.ofChars cs).runes (Int64.ofNat k).toInt = .ok (.scalar ch) := by
    rw [Int64.toInt_ofNat_of_lt short, elementAt, if_neg (by omega), Int.toNat_natCast,
      Text.runes_ofChars, List.getElem?_map, h]
    rfl
  rw [hthere] at hreplies
  exact hreplies

theorem slice_middle (xs ys zs : List Char) :
    slice (xs ++ ys ++ zs) xs.length (xs.length + ys.length) = ys := by
  rw [slice, List.append_assoc, List.drop_left, Nat.add_sub_cancel_left, List.take_left]

/-- The slice between what stands before some characters and what stands after them. -/
theorem slicesTo_ofChars {a b : Option Int64} (xs ys zs : List Char) (hcs : cs = xs ++ ys ++ zs)
    (ha : (a.map Whole.int).elim (0 : ℤ) Whole.number = (xs.length : ℕ))
    (hb : (b.map Whole.int).elim (cs.length : ℤ) Whole.number = (xs.length + ys.length : ℕ)) :
    SlicesTo (Text.ofChars cs) a b (Text.ofChars ys) := by
  have hinside : xs.length + ys.length ≤ cs.length := by
    rw [hcs, List.length_append, List.length_append]
    exact Nat.le_add_right _ _
  have hcut := cutsTo_of_inside ha hb (Nat.le_add_right _ _) hinside
  rw [← Text.runeCount_ofChars] at hcut
  have hreplies := sliceGet_replies (.string (Text.ofChars cs))
    (boundValue (a.map .int)) (boundValue (b.map .int))
  simp only [sliceGet_string hcut, charsText_slice] at hreplies
  rw [hcs, slice_middle, ← hcs] at hreplies
  exact hreplies

/-- Characters are found where they stand. -/
theorem foundAt_of_eq_append (hcs : cs = xs ++ ys ++ zs) (short : cs.length < 2 ^ 63) :
    FoundAt (Text.ofChars cs) (Text.ofChars ys) (Int64.ofNat xs.length) := by
  have hlength : cs.length = xs.length + ys.length + zs.length := by
    rw [hcs, List.length_append, List.length_append]
  have hstart := Int64.toInt_ofNat_of_lt (n := xs.length) (by omega)
  have hstop := Int64.toInt_ofNat_of_lt (n := xs.length + ys.length) (by omega)
  have hinside : ((xs.length + ys.length : ℕ) : ℤ) ≤ (Text.ofChars cs).runeCount := by
    rw [Text.runeCount_ofChars]
    omega
  have hpiece : World.substring (Text.ofChars cs) (Int64.ofNat xs.length).toInt
      (some (Int64.ofNat (xs.length + ys.length)).toInt) = .ok (Text.ofChars ys) := by
    rw [hstart, hstop, substring_of_inside (by omega) (by omega) hinside, Int.toNat_natCast,
      Int.toNat_natCast, charsText_slice, hcs, slice_middle]
  have hoffers := string_offers_substring (Text.ofChars cs)
    (.int (Int64.ofNat xs.length)) (.int (Int64.ofNat (xs.length + ys.length)))
  simp only [Whole.number, hpiece] at hoffers
  exact ⟨_, _, hasLen_ofChars ys, adds_ofNat _ _, hoffers⟩

/-- And where they are found they stand. -/
theorem here_of_foundAt (h : FoundAt (Text.ofChars cs) (Text.ofChars ds) i) :
    0 ≤ i.toInt ∧ ds <+: cs.drop i.toInt.toNat := by
  obtain ⟨n, e, -, -, hsub⟩ := h
  have hoffers := string_offers_substring (Text.ofChars cs) (.int i) (.int e)
  have hresult := Value.Offers.unique (by simp) hoffers
    (b := fun _ => .ok (.string (Text.ofChars ds))) hsub default
  by_cases hinside : 0 ≤ i.toInt ∧ i.toInt ≤ e.toInt ∧ e.toInt ≤ (Text.ofChars cs).runeCount
  · obtain ⟨hi, hie, he⟩ := hinside
    have hpiece : slice cs i.toInt.toNat e.toInt.toNat = ds := by
      apply Text.ofChars_inj
      rw [← charsText_slice]
      have hok := substring_of_inside hi hie he
      simp only [Whole.number, hok] at hresult
      exact Value.string.inj (Except.ok.inj hresult)
    refine ⟨hi, ?_⟩
    rw [← hpiece, slice]
    exact List.take_prefix _ _
  · have herror := substring_of_outside hinside
    simp only [Whole.number, herror] at hresult
    cases hresult

/-- What the instructions say of a position at which characters stand. -/
theorem placedAt_of_eq_append (hcs : cs = xs ++ ys ++ zs) (short : cs.length < 2 ^ 63) :
    PlacedAt (Text.ofChars cs) (Text.ofChars ys) (Int64.ofNat xs.length) := by
  have hlength : cs.length = xs.length + ys.length + zs.length := by
    rw [hcs, List.length_append, List.length_append]
  have hstart := Int64.toInt_ofNat_of_lt (n := xs.length) (by omega)
  have hstop := Int64.toInt_ofNat_of_lt (n := xs.length + ys.length) (by omega)
  have hend : Int64.ofNat (xs.length + ys.length) ≤ Int64.ofNat cs.length := by
    rw [Int64.le_iff_toInt_le, hstop, Int64.toInt_ofNat_of_lt short]
    omega
  have hbefore : SlicesTo (Text.ofChars cs) none (some (Int64.ofNat xs.length))
      (Text.ofChars xs) :=
    slicesTo_ofChars [] xs (ys ++ zs) (by rw [hcs, List.nil_append, List.append_assoc]) rfl
      (by rw [List.length_nil, Nat.zero_add]; exact hstart)
  have hhere : SlicesTo (Text.ofChars cs) (some (Int64.ofNat xs.length))
      (some (Int64.ofNat (xs.length + ys.length))) (Text.ofChars ys) :=
    slicesTo_ofChars xs ys zs hcs hstart hstop
  have hafter : SlicesTo (Text.ofChars cs) (some (Int64.ofNat (xs.length + ys.length))) none
      (Text.ofChars zs) :=
    slicesTo_ofChars (xs ++ ys) zs [] (by rw [hcs, List.append_nil])
      (by rw [List.length_append]; exact hstop)
      (by rw [Option.map_none, Option.elim_none, hlength, List.length_append])
  have hwhole : Text.ofChars cs = Text.ofChars xs ++ Text.ofChars ys ++ Text.ofChars zs := by
    rw [hcs, Text.ofChars_append, Text.ofChars_append]
  refine ⟨Text.ofChars xs, Text.ofChars zs, _, _, _, hasLen_ofChars cs, hasLen_ofChars ys,
    hasLen_ofChars xs, adds_ofNat _ _, hend, hbefore, hhere, hafter, hwhole, ?_⟩
  -- Single characters: the one at a place of `ys` stands so much further on in the whole.
  intro k hk hlt
  obtain ⟨p, rfl, hp⟩ := exists_ofNat_of_nonneg hk
  have hpys : p < ys.length := by
    rw [Int64.lt_iff_toInt_lt, hp, Int64.toInt_ofNat_of_lt (by omega)] at hlt
    omega
  have hthere : ys[p]? = some ys[p] := List.getElem?_eq_getElem hpys
  have hthere' : cs[xs.length + p]? = some ys[p] := by
    rw [hcs, List.append_assoc, List.getElem?_append_right (Nat.le_add_right _ _),
      Nat.add_sub_cancel_left, List.getElem?_append_left hpys, hthere]
  exact ⟨_, _, adds_ofNat _ _, hasAt_ofChars (by omega) hthere', hasAt_ofChars (by omega) hthere⟩

/-! Searches. -/

/-- What a search that finds nothing says. -/
theorem agree_of_nowhere (needle : v.Needle (Text.ofChars ds))
    (hnone : Text.indexOf? (Text.ofChars ds) (Text.ofChars cs) = none) :
    PositionsAgree (Text.ofChars cs) v (Text.ofChars ds) (-1) := by
  have habsent : ∀ j, ¬ FoundAt (Text.ofChars cs) (Text.ofChars ds) j := by
    intro j hfound
    exact Text.not_here_of_indexOf?_ofChars hnone _ (here_of_foundAt hfound).2
  have hstarts : Text.startsWith (Text.ofChars cs) (Text.ofChars ds) = false := by
    rw [← Bool.not_eq_true, Text.startsWith_ofChars]
    exact Text.not_here_of_indexOf?_ofChars hnone 0
  have hindex := offers_indexOf needle (Text.ofChars cs)
  have hcontains := offers_contains needle (Text.ofChars cs)
  have hstartsWith := offers_startsWith needle (Text.ofChars cs)
  rw [World.indexOfText, hnone] at hindex
  rw [hnone] at hcontains
  rw [hstarts] at hstartsWith
  exact {
    index := hindex
    found := fun h => absurd h (by decide)
    first := fun j _ => habsent j
    nowhere := ⟨fun _ => habsent, fun _ => rfl⟩
    counted := .inl rfl
    contains := hcontains
    starts := hstartsWith
    placed := fun h => absurd h (by decide) }

/-- What a search that finds the first place says. -/
theorem agree_of_first (short : cs.length < 2 ^ 63) (needle : v.Needle (Text.ofChars ds))
    (hplace : Text.indexOf? (Text.ofChars ds) (Text.ofChars cs) =
      some (Text.ofChars (cs.take k)).length)
    (hk : k ≤ cs.length) (first : Text.FirstAt ds cs k) :
    PositionsAgree (Text.ofChars cs) v (Text.ofChars ds) (Int64.ofNat k) := by
  have hword : k < 2 ^ 63 := Nat.lt_of_le_of_lt hk short
  have hne : Int64.ofNat k ≠ -1 := by
    intro h
    have hnonneg := ofNat_nonneg hword
    rw [h] at hnonneg
    exact absurd hnonneg (by decide)
  -- The string is what stands before the place, what is searched for, and a rest.
  obtain ⟨zs, hrest⟩ := first.here
  have hcs : cs = cs.take k ++ ds ++ zs := by
    rw [List.append_assoc, hrest, List.take_append_drop]
  have hlength : (cs.take k).length = k := List.length_take_of_le hk
  have hfound := foundAt_of_eq_append hcs short
  have hplaced := placedAt_of_eq_append hcs short
  rw [hlength] at hfound hplaced
  have hbefore : ∀ j < Int64.ofNat k, ¬ FoundAt (Text.ofChars cs) (Text.ofChars ds) j := by
    intro j hj hfound'
    obtain ⟨hnonneg', hhere⟩ := here_of_foundAt hfound'
    rw [Int64.lt_iff_toInt_lt, Int64.toInt_ofNat_of_lt hword] at hj
    exact first.before _ (by omega) hhere
  have hstarts : Text.startsWith (Text.ofChars cs) (Text.ofChars ds) =
      decide (Int64.ofNat k = 0) := by
    rw [Bool.eq_iff_iff, Text.startsWith_ofChars, decide_eq_true_iff, ofNat_eq_zero_iff hword]
    constructor
    · intro hstart
      exact Nat.eq_zero_of_not_pos fun hpos => first.before 0 hpos hstart
    · rintro rfl
      exact first.here
  have hposition : World.indexOfText (Text.ofChars cs) (Text.ofChars ds) = k := by
    simp only [World.indexOfText, hplace]
    rw [Text.take_ofChars, Text.runeCount_ofChars, hlength]
  have hindex := offers_indexOf needle (Text.ofChars cs)
  have hcontains := offers_contains needle (Text.ofChars cs)
  have hstartsWith := offers_startsWith needle (Text.ofChars cs)
  rw [hposition] at hindex
  rw [hplace] at hcontains
  rw [hstarts] at hstartsWith
  exact {
    index := hindex
    found := fun _ => hfound
    first := hbefore
    nowhere := ⟨fun h => absurd h hne, fun h => absurd hfound (h _)⟩
    counted := .inr (ofNat_nonneg hword)
    contains := by rw [decide_eq_true hne]; exact hcontains
    starts := hstartsWith
    placed := fun _ => hplaced }

/-- What a search in a string gives is the number of characters before the first place where a
substring as long as what is searched for is that, or a negative number where there is none. The
other searches say the same, and slices, lengths and single characters are counted so. Strings are
not longer than a word can say. -/
theorem positions_agree (valid : s.isValid = true) (short : s.length < 2 ^ 63)
    (needle : v.Needle t) : ∃ i, PositionsAgree s v t i := by
  obtain ⟨cs, rfl⟩ := Text.exists_ofChars valid
  obtain ⟨ds, rfl⟩ := needle.exists_chars
  have hshort : cs.length < 2 ^ 63 := Nat.lt_of_le_of_lt (Text.length_le_ofChars cs) short
  cases hplace : Text.indexOf? (Text.ofChars ds) (Text.ofChars cs) with
  | none => exact ⟨-1, agree_of_nowhere needle hplace⟩
  | some p =>
    obtain ⟨k, hk, rfl, hfirst⟩ := Text.firstAt_of_indexOf?_ofChars hplace
    exact ⟨Int64.ofNat k, agree_of_first hshort needle hplace hk hfirst⟩

/-- A character of two bytes is found after one of three, at position one. -/
theorem positions_agree_beyond_ascii :
    Text.isValid "€é" = true ∧ (Text.ofString "€é").length < 2 ^ 63 ∧
      (Value.char 233).Needle "é" ∧ PositionsAgree "€é" (.char 233) "é" 1 := by
  have hvalid : Text.isValid "€é" = true := by decide +kernel
  have hshort : (Text.ofString "€é").length < 2 ^ 63 := by decide +kernel
  have hneedle : (Value.char 233).Needle "é" := by
    have hchar : Text.ofString "é" = Text.ofChar 'é' := by decide +kernel
    rw [hchar]
    exact .char (by decide +kernel)
  obtain ⟨i, hagree⟩ := positions_agree hvalid hshort hneedle
  have hindex := Value.Offers.unique (a := fun _ => .ok (.int i)) (b := fun _ => .ok (.int _))
    (by decide) hagree.index (offers_indexOf hneedle "€é") default
  have hone : World.indexOfText "€é" "é" = 1 := by decide +kernel
  rw [hone] at hindex
  cases hindex
  exact ⟨hvalid, hshort, hneedle, hagree⟩

end BytecodeMachine
