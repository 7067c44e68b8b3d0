import BytecodeMachine.Proofs.Machine.Calls
import BytecodeMachine.Proofs.Machine.Dictionaries
import BytecodeMachine.Proofs.Machine.Slices

/-! Collections made of values on the stack. An array takes as many values as its operand says. A
dictionary takes two values a pair, and its operand is doubled as a word of 64 bits, so that an
operand far from zero counts as the number of pairs that it is short of the range. -/
namespace BytecodeMachine

/-- Keys and values in turn. -/
def inTurn (es : List (Value × Value)) : List Value := es.flatMap fun e => [e.1, e.2]

/-- The number of pairs that an operand asks for. -/
def pairCount (n : Int64) : ℤ := n.toInt.bmod (2 ^ 63)

/-- Whether an operand counts as a number of pairs that is there although itself it is not one, or the
other way round, with so many values on the stack. -/
def Miscounted (height : ℕ) (n : Int64) : Prop :=
  n.toInt < -2 ^ 62 ∧ 2 * (n.toInt + 2 ^ 63) ≤ height ∨ 2 ^ 62 ≤ n.toInt ∧ 2 * n.toInt ≤ height

/-- Whether a value is a dictionary that was not there before, with these pairs put in one after the
other, and nothing else has changed. -/
structure World.MakesDict (w : World) (es : List (Value × Value)) (v : Value) (w' : World) :
    Prop where
  fresh : v = .dict w.store.dicts.size
  made : w' = { w with store := { w.store with
    dicts := w.store.dicts.push (es.foldl (fun d e => d.insert e.1 e.2) {}) } }

/-- Whether an effect is that of taking `n` groups of values of one width off the stack, which come
in the order they were pushed, and pushing the collection made of them. Where they are not all there,
or their number is negative, nothing is taken and the run faults. -/
def Machine.Collects (s : Setup) (m : Machine) (n width : ℤ)
    (makes : List Value → Value → World → Prop) (e : Effect) : Prop :=
  if 0 ≤ n ∧ width * n ≤ m.stack.length then
    ∃ v w, makes (m.stack.take (width * n).toNat).reverse v w ∧
      e = .next { m with world := w, stack := v :: m.stack.drop (width * n).toNat }
  else e = .failed (m.fault s .stackUnderflow) m

/-- Whether a dictionary is made of values that are keys and values in turn. -/
def World.MakesDictOf (w : World) (vs : List Value) (v : Value) (w' : World) : Prop :=
  ∃ es, vs = inTurn es ∧ w.MakesDict es v w'

variable {n : Int64} {height : ℕ} {vs : List Value} {es : List (Value × Value)} {w : World}
  {s : Setup} {m : Machine}

/-! Counts. -/

/-- Doubling in words of 64 bits doubles the number of pairs. -/
theorem toInt_two_mul (n : Int64) : (2 * n).toInt = 2 * pairCount n := by
  have htwo : (2 : Int64).toInt = 2 := by decide
  have hrange := Int64.le_toInt n
  have hrange' := Int64.toInt_lt n
  rw [Int64.toInt_mul, htwo, pairCount]
  simp only [Int.bmod]
  omega

theorem pairCount_of_inside (h : -2 ^ 62 ≤ n.toInt) (h' : n.toInt < 2 ^ 62) :
    pairCount n = n.toInt := by
  unfold pairCount
  simp only [Int.bmod]
  omega

theorem pairCount_of_below (h : n.toInt < -2 ^ 62) : pairCount n = n.toInt + 2 ^ 63 := by
  have hrange := Int64.le_toInt n
  unfold pairCount
  simp only [Int.bmod]
  omega

theorem pairCount_of_above (h : 2 ^ 62 ≤ n.toInt) : pairCount n = n.toInt - 2 ^ 63 := by
  have hrange := Int64.toInt_lt n
  unfold pairCount
  simp only [Int.bmod]
  omega

theorem miscounted_iff : Miscounted height n ↔
    ¬ (0 ≤ pairCount n ∧ 2 * pairCount n ≤ height ↔ 0 ≤ n.toInt ∧ 2 * n.toInt ≤ height) := by
  have hrange := Int64.le_toInt n
  have hrange' := Int64.toInt_lt n
  unfold Miscounted
  rcases lt_or_ge n.toInt (-2 ^ 62) with hbelow | hinside
  · rw [pairCount_of_below hbelow]
    omega
  rcases lt_or_ge n.toInt (2 ^ 62) with hinside' | habove
  · rw [pairCount_of_inside hinside hinside']
    omega
  · rw [pairCount_of_above habove]
    omega

/-- What counts as a number of pairs, and is one itself, is that number. -/
theorem pairCount_of_counts (h : 0 ≤ pairCount n) (h' : 0 ≤ n.toInt) : pairCount n = n.toInt := by
  rcases lt_or_ge n.toInt (2 ^ 62) with hinside | habove
  · exact pairCount_of_inside (by omega) hinside
  · have hrange := Int64.toInt_lt n
    rw [pairCount_of_above habove] at h
    omega

/-! Pairs. -/

theorem inTurn_cons (e : Value × Value) (es : List (Value × Value)) :
    inTurn (e :: es) = e.1 :: e.2 :: inTurn es := rfl

theorem inTurn_pairs (n : ℕ) (h : vs.length = 2 * n) : inTurn (Machine.pairs vs) = vs := by
  induction n generalizing vs with
  | zero =>
    obtain rfl := List.eq_nil_of_length_eq_zero h
    rfl
  | succ n ih =>
    match vs, h with
    | k :: v :: rest, h =>
      have hrest : rest.length = 2 * n := by
        rw [List.length_cons, List.length_cons] at h
        omega
      rw [Machine.pairs, inTurn_cons, ih hrest]

/-! Instructions. -/

namespace Machine

/-- What takes a number of groups off the stack and pushes one value that it makes of them. -/
theorem collects_popMany {n width count : ℤ} (hwidth : 0 < width) (hcount : count = width * n)
    {makes : List Value → Value → World → Prop} {k : List Value → Machine → Effect}
    (made : ∀ vs stack, (vs.length : ℤ) = count → ∃ v w, makes vs v w ∧
      k vs { m with stack := stack } = .next { m with world := w, stack := v :: stack }) :
    m.Collects s n width makes (m.popMany s count k) := by
  have hsign : 0 ≤ count ↔ 0 ≤ n := by
    rw [hcount]
    exact ⟨fun h => Int.nonneg_of_mul_nonneg_right h hwidth, Int.mul_nonneg (Int.le_of_lt hwidth)⟩
  unfold Collects
  simp only [← hcount, ← hsign]
  split
  · next hthere =>
    obtain ⟨taken, htaken⟩ := Int.eq_ofNat_of_zero_le hthere.1
    have hlength : taken ≤ m.stack.length := by omega
    have hall : ((m.stack.take taken).reverse.length : ℤ) = count := by
      rw [List.length_reverse, List.length_take_of_le hlength, htaken]
    rw [htaken, popMany_of_le hlength, Int.toNat_natCast]
    exact made _ _ hall
  · next hmissing =>
    have hout : (decide (count < 0) || decide ((m.stack.length : ℤ) < count)) = true := by
      rw [Bool.or_eq_true, decide_eq_true_iff, decide_eq_true_iff]
      omega
    unfold popMany
    rw [hout]
    rfl

theorem collects_makeArray (s : Setup) (m : Machine) (n : ℤ) :
    m.Collects s n 1 (fun vs v w => m.world.Makes vs (.ok v, w)) (m.makeArray s n) :=
  collects_popMany Int.one_pos (Int.one_mul n).symm fun vs _ _ =>
    ⟨_, _, newArray_makes m.world vs, rfl⟩

theorem collects_makeDict (s : Setup) (m : Machine) (n : Int64) :
    m.Collects s (pairCount n) 2 m.world.MakesDictOf (m.makeDict s n) := by
  refine collects_popMany (by decide) (toInt_two_mul n) fun vs stack hlength => ?_
  rw [toInt_two_mul] at hlength
  have hturn : vs = inTurn (pairs vs) := (inTurn_pairs (pairCount n).toNat (by omega)).symm
  exact ⟨_, _, ⟨pairs vs, hturn, rfl, rfl⟩, rfl⟩

/-- The values are there just where the machine goes on. -/
theorem Collects.goes_on_iff {n width : ℤ} {makes : List Value → Value → World → Prop} {e : Effect}
    (h : m.Collects s n width makes e) :
    (0 ≤ n ∧ width * n ≤ m.stack.length) ↔ ∃ m', e = .next m' := by
  unfold Collects at h
  split at h
  · next hthere =>
    obtain ⟨v, w, -, he⟩ := h
    exact ⟨fun _ => ⟨_, he⟩, fun _ => hthere⟩
  · next hmissing =>
    refine ⟨fun hthere => absurd hthere hmissing, fun ⟨m', he⟩ => ?_⟩
    cases h.symm.trans he

/-- The instruction that makes an array takes the values that its operand counts, for every word and
every stack, and faults where they are not there. The one that makes a dictionary does the same with
the pairs that its operand counts as when it is doubled, and these are the operand itself just where
it is not miscounted. -/
theorem counted_collections (s : Setup) (m : Machine) (o : Operand) :
    m.Collects s o.int.toInt 1 (fun vs v w => m.world.Makes vs (.ok v, w))
        (m.perform s o .makeArray) ∧
      m.Collects s (pairCount o.int) 2 m.world.MakesDictOf (m.perform s o .makeDict) ∧
      (m.Collects s o.int.toInt 2 m.world.MakesDictOf (m.perform s o .makeDict) ↔
        ¬ Miscounted m.stack.length o.int) := by
  have hdict : m.Collects s (pairCount o.int) 2 m.world.MakesDictOf (m.perform s o .makeDict) :=
    collects_makeDict s m o.int
  refine ⟨collects_makeArray s m o.int.toInt, hdict, ?_⟩
  -- The two counts can only differ where one of them finds its pairs on the stack.
  rw [miscounted_iff, not_not]
  refine ⟨fun hself => hdict.goes_on_iff.trans hself.goes_on_iff.symm, fun hsame => ?_⟩
  by_cases hthere : 0 ≤ pairCount o.int ∧ 2 * pairCount o.int ≤ m.stack.length
  · rwa [pairCount_of_counts hthere.1 (hsame.1 hthere).1] at hdict
  · unfold Collects at hdict ⊢
    rw [if_neg hthere] at hdict
    rwa [if_neg (hsame.not.1 hthere)]

/-- The least word is doubled to zero, so that a dictionary is made where nothing is on the stack. -/
theorem least_word_makes_dict :
    let s : Setup := { program := {}, regionEnds := #[] }
    let m : Machine := { world := {} }
    let o : Operand := { int := Int64.minValue }
    ¬ m.Collects s o.int.toInt 2 m.world.MakesDictOf (m.perform s o .makeDict) ∧
      ∃ w, m.perform s o .makeDict = .next { m with world := w, stack := [.dict 0] } := by
  intro s m o
  have hneg : ¬ (0 ≤ o.int.toInt ∧ 2 * o.int.toInt ≤ m.stack.length) := by decide
  have hnone : pairCount o.int = 0 := by decide
  have hdict := collects_makeDict s m o.int
  rw [hnone] at hdict
  obtain ⟨v, w, ⟨es, -, hmade⟩, he⟩ := hdict
  obtain rfl : v = .dict 0 := hmade.fresh
  refine ⟨?_, w, he⟩
  unfold Collects
  rw [if_neg hneg]
  intro hfault
  cases hfault.symm.trans he

end Machine

end BytecodeMachine
