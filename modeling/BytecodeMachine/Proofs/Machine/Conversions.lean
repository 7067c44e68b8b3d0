import BytecodeMachine.Proofs.Machine.Replies
import BytecodeMachine.Proofs.Number.Truncation

/-! The function `int`. It cuts a number off at the point and refuses one that is then too large for
a word, but takes a decimal that is no number for a zero. -/
namespace BytecodeMachine

/-- The integers of 64 bits. -/
def InWord (k : ℤ) : Prop := -2 ^ 63 ≤ k ∧ k ≤ 2 ^ 63 - 1

instance (k : ℤ) : Decidable (InWord k) := inferInstanceAs (Decidable (_ ∧ _))

theorem inWord_toInt (n : Int64) : InWord n.toInt := by
  have hlow := Int64.le_toInt n
  have hhigh := Int64.toInt_lt n
  exact ⟨by omega, by omega⟩

theorem toInt_ofInt_of_inWord {k : ℤ} (h : InWord k) : (Int64.ofInt k).toInt = k := by
  obtain ⟨hlow, hhigh⟩ := h
  exact Int64.toInt_ofInt_of_le (by omega) (by omega)

/-- What `int` is given besides binary numbers, which have their own rule, and texts. -/
inductive IntArgument where
  | bool (b : Bool)
  | char (c : Int32)
  | int32 (n : Int32)
  | int (n : Int64)
  | decimal (d : Decimal)

namespace IntArgument

variable {a : IntArgument} {q : ℚ}

def toValue : IntArgument → Value
  | bool b => .bool b
  | char c => .char c
  | int32 n => .int32 n
  | int n => .int n
  | decimal d => .decimal d

/-- The number denoted, which infinite decimals and those that are no number do not have. -/
def number? : IntArgument → Option ℚ
  | bool b => some ((if b then 1 else 0 : ℤ) : ℚ)
  | char c => some (c.toInt : ℚ)
  | int32 n => some (n.toInt : ℚ)
  | int n => some (n.toInt : ℚ)
  | decimal d => d.value?

/-- Calls of `int` give this integer. -/
def Gives (a : IntArgument) (n : Int64) : Prop :=
  (Value.builtin (.standard .int)).Replies [a.toValue] fun w => w.give (.int n)

/-- Calls of `int` raise an exception about arithmetic. -/
def Refused (a : IntArgument) : Prop :=
  ∃ e : World → ErrorCause, (∀ w, (e w).kind = "ArithmeticError") ∧
    (Value.builtin (.standard .int)).Replies [a.toValue] fun w => w.fail (e w)

/-- What is to be expected of `int`: the integer next to the number on the side of zero where it is
one of 64 bits, and an exception where it is not or where there is no number. -/
def TruncatesOrRefuses (a : IntArgument) : Prop :=
  match a.number? with
  | some q =>
    if InWord (towardZero q) then
      ∃ n : Int64, n.toInt = towardZero q ∧ a.Gives n
    else a.Refused
  | none => a.Refused

theorem replies_toInt (a : IntArgument) : (Value.builtin (.standard .int)).Replies [a.toValue]
    fun w => w.lift ((w.toInt a.toValue).map .int) :=
  StandardFunction.replies .int rfl (fun _ _ => rfl) fun w => World.lift_tame w _

/-- A number is converted where the integer has a place among the words. -/
theorem toInt_of_number (h : a.number? = some q) (w : World) : w.toInt a.toValue =
    if InWord (towardZero q) then .ok (Int64.ofInt (towardZero q))
    else .error (.numberToInt (w.text a.toValue)) := by
  have hword {n : Int64} (hn : towardZero q = n.toInt) (hv : w.toInt a.toValue = .ok n) :
      w.toInt a.toValue = if InWord (towardZero q) then .ok (Int64.ofInt (towardZero q))
        else .error (.numberToInt (w.text a.toValue)) := by
    rw [hn, if_pos (inWord_toInt n), Int64.ofInt_toInt, hv]
  cases a with
  | bool b =>
    cases h
    refine hword (n := if b then 1 else 0) ?_ rfl
    rw [towardZero_intCast]
    cases b <;> rfl
  | char c =>
    cases h
    exact hword ((towardZero_intCast _).trans (Int32.toInt_toInt64 c).symm) rfl
  | int32 c =>
    cases h
    exact hword ((towardZero_intCast _).trans (Int32.toInt_toInt64 c).symm) rfl
  | int c =>
    cases h
    exact hword (towardZero_intCast _) rfl
  | decimal d =>
    have hwhole {n : Int64} : d.integerPart.1.toInt64? = some n ↔ towardZero q = n.toInt := by
      rw [Decimal.toInt64?_eq_some_iff, Decimal.value?_integerPart h, Option.some.injEq,
        Int.cast_inj]
    split
    · next hrange =>
      simp only [toValue, World.toInt, hwhole.2 (toInt_ofInt_of_inWord hrange).symm]
    · next hrange =>
      have hnone : d.integerPart.1.toInt64? = none :=
        Option.eq_none_iff_forall_ne_some.2 fun n hn =>
          hrange ((hwhole.1 hn).symm ▸ inWord_toInt n)
      simp only [toValue, World.toInt, hnone]

/-- What is no number is converted to zero. -/
theorem toInt_of_none (h : a.number? = none) (w : World) : w.toInt a.toValue = .ok 0 := by
  cases a with
  | decimal d =>
    have hzero : d.integerPart.1.toInt64? = some 0 := by
      rw [Decimal.toInt64?_eq_some_iff, Decimal.value?_integerPart_of_none h]
      simp
    simp only [toValue, World.toInt, hzero]
  | _ => cases h

theorem truncatesOrRefuses_of_number (h : a.number? = some q) : a.TruncatesOrRefuses := by
  have hreplies := replies_toInt a
  simp only [toInt_of_number h] at hreplies
  rw [TruncatesOrRefuses, h]
  dsimp only
  split
  · next hrange =>
    simp only [hrange, if_true] at hreplies
    exact ⟨_, toInt_ofInt_of_inWord hrange, hreplies⟩
  · next hrange =>
    simp only [hrange, if_false] at hreplies
    exact ⟨fun w => .numberToInt (w.text a.toValue), fun _ => rfl, hreplies⟩

theorem gives_zero_of_none (h : a.number? = none) : a.Gives 0 := by
  have hreplies := replies_toInt a
  simp only [toInt_of_none h] at hreplies
  exact hreplies

theorem not_truncatesOrRefuses_of_none (h : a.number? = none) : ¬ a.TruncatesOrRefuses := by
  rw [TruncatesOrRefuses, h]
  rintro ⟨e, -, hrefused⟩
  have hgives : a.Gives 0 := gives_zero_of_none h
  cases Value.Replies.unique (a := fun _ => .ok (.int 0)) (b := fun w => .error (e w))
    (by simp) hgives hrefused default

/-- The function `int` cuts off at the point what has a number, or refuses it where the integer is
too large. What has none it converts to zero. -/
theorem int_truncates_or_refuses_iff (a : IntArgument) :
    (a.TruncatesOrRefuses ↔ a.number? ≠ none) ∧ (a.number? = none → a.Gives 0) := by
  refine ⟨⟨fun h hnone => not_truncatesOrRefuses_of_none hnone h, fun h => ?_⟩,
    gives_zero_of_none⟩
  obtain ⟨q, hq⟩ := Option.ne_none_iff_exists'.1 h
  exact truncatesOrRefuses_of_number hq

/-- The least word with a fraction, the number after the greatest word, and no number at all. -/
theorem int_at_its_limits :
    (decimal (.finite true 92233720368547758089 (-1))).Gives Int64.minValue ∧
      (decimal (.finite false 922337203685477580800 (-2))).Refused ∧
      (decimal (.nan true false)).Gives 0 := by
  have hleast := (int_truncates_or_refuses_iff
    (decimal (.finite true 92233720368547758089 (-1)))).1.2 nofun
  have hbeyond := (int_truncates_or_refuses_iff
    (decimal (.finite false 922337203685477580800 (-2)))).1.2 nofun
  have hcut : towardZero (scaled 10 true 92233720368547758089 (-1)) = -2 ^ 63 := by
    rw [towardZero_scaled (by decide) (by decide)]
    rfl
  have hcut' : towardZero (scaled 10 false 922337203685477580800 (-2)) = 2 ^ 63 := by
    rw [towardZero_scaled (by decide) (by decide)]
    rfl
  refine ⟨?_, ?_, (int_truncates_or_refuses_iff _).2 rfl⟩
  · obtain ⟨n, hn, hgives⟩ : ∃ n : Int64, n.toInt = -2 ^ 63 ∧ _ := by
      simpa only [TruncatesOrRefuses, number?, Decimal.value?, hcut,
        show InWord (-2 ^ 63) by decide, if_true] using hleast
    obtain rfl : n = Int64.minValue := Int64.toInt_inj.1 (hn.trans (by decide))
    exact hgives
  · simpa only [TruncatesOrRefuses, number?, Decimal.value?, hcut',
      show ¬ InWord (2 ^ 63) by decide, if_false] using hbeyond

/-- The decimals that the words for an infinity and for what is no number are read as. -/
theorem undefined_decimals_not_refused :
    Decimal.read? "Infinity" = some (.infinite false) ∧
      Decimal.read? "NaN" = some (.nan false false) ∧
      ¬ (decimal (.infinite false)).TruncatesOrRefuses ∧
      ¬ (decimal (.nan false false)).TruncatesOrRefuses :=
  ⟨by decide +kernel, by decide +kernel, not_truncatesOrRefuses_of_none rfl,
    not_truncatesOrRefuses_of_none rfl⟩

end IntArgument

end BytecodeMachine
