import BytecodeMachine.Machine.Region
import Mathlib.Tactic.Common

/-! The table of the ends of protected regions. It is filled in from the back, and an entry depends
on later entries only, so that in the finished table each entry is the end that the table itself
gives the region. -/
namespace BytecodeMachine

namespace Operand

/-- Where the search for the end of a region begins: at its finally block, and where it has none, at
its catch block. -/
def opening (o : Operand) : Int := if 0 ≤ o.int2.toInt then o.int2.toInt else o.int.toInt

/-- The instruction that closes a region. -/
def closer (o : Operand) : Opcode := if 0 ≤ o.int2.toInt then .endFinally else .tryPop

/-- The end of a region that is not closed. -/
def unclosed (o : Operand) : Int := max o.int.toInt o.int2.toInt

theorem closer_cases (o : Operand) : o.closer = .tryPop ∨ o.closer = .endFinally := by
  unfold closer
  split
  · exact Or.inr rfl
  · exact Or.inl rfl

end Operand

namespace Region

variable {code : Array Instruction} {ends ends' : Array Int} {closer : Opcode} {n i pc : Nat}

theorem endOf_eq (o : Operand) : endOf code ends pc o =
    if o.opening ≤ (pc : Int) then o.unclosed
    else match closing? code ends o.closer code.size o.opening.toNat with
      | some i => i
      | none => o.unclosed := rfl

/-! The search for the end of one region. -/

theorem lt_of_opcodeAt? {op : Opcode} (h : opcodeAt? code i = some op) : i < code.size := by
  obtain ⟨ins, hins, -⟩ := Option.bind_eq_some_iff.mp h
  exact (Array.getElem?_eq_some_iff.mp hins).1

/-- Where the search goes on when it comes to the start of a region inside. -/
def behind (ends : Array Int) (i : Nat) : Nat :=
  if (i : Int) < (ends[i]?).getD 0 then ((ends[i]?).getD 0).toNat + 1 else i + 1

theorem lt_behind (ends : Array Int) (i : Nat) : i < behind ends i := by
  unfold behind
  split <;> omega

theorem closing?_succ : closing? code ends closer (n + 1) i =
    if code.size ≤ i then none
    else if opcodeAt? code i = some .tryPush then closing? code ends closer n (behind ends i)
    else if opcodeAt? code i = some closer then some i
    else closing? code ends closer n (i + 1) := rfl

theorem closing?_outside (h : code.size ≤ i) : closing? code ends closer n i = none := by
  cases n with
  | zero => rfl
  | succ n => rw [closing?_succ, if_pos h]

/-- The search for the end of a region looks at the ends of later regions only. -/
theorem closing?_congr {lo : Nat} (h : ∀ i, lo ≤ i → ends[i]? = ends'[i]?) (closer : Opcode)
    (n : Nat) (hi : lo ≤ i) :
    closing? code ends closer n i = closing? code ends' closer n i := by
  induction n generalizing i with
  | zero => rfl
  | succ n ih =>
    have hbehind : behind ends i = behind ends' i := by
      unfold behind
      rw [h i hi]
    have hlater := lt_behind ends' i
    rw [closing?_succ, closing?_succ, hbehind, ih (i := i + 1) (by omega),
      ih (i := behind ends' i) (by omega)]

/-- Once the search may look at all instructions that are left, it does not matter at how many it may
look. -/
theorem closing?_enough {n' : Nat} (hn : code.size ≤ i + n) (hn' : code.size ≤ i + n') :
    closing? code ends closer n i = closing? code ends closer n' i := by
  induction n generalizing i n' with
  | zero => rw [closing?_outside (by omega), closing?_outside (by omega)]
  | succ n ih =>
    cases n' with
    | zero => rw [closing?_outside (by omega), closing?_outside (by omega)]
    | succ n' =>
      have hlater := lt_behind ends i
      rw [closing?_succ, closing?_succ, @ih (i + 1) n' (by omega) (by omega),
        @ih (behind ends i) n' (by omega) (by omega)]

theorem lt_of_closing? {e : Nat} (h : closing? code ends closer n i = some e) : e < code.size := by
  induction n generalizing i with
  | zero => cases h
  | succ n ih =>
    rw [closing?_succ] at h
    split_ifs at h with hout hregion hcloser
    · exact ih h
    · cases h
      omega
    · exact ih h

/-! The whole table. -/

theorem endOf_congr (h : ∀ i, pc < i → ends[i]? = ends'[i]?) (o : Operand) :
    endOf code ends pc o = endOf code ends' pc o := by
  rw [endOf_eq, endOf_eq]
  by_cases hstart : o.opening ≤ (pc : Int)
  · rw [if_pos hstart, if_pos hstart]
  · rw [if_neg hstart, if_neg hstart, closing?_congr h _ _ (show pc < o.opening.toNat by omega)]

/-- Filling in from an address down leaves later ends alone and gets the others right. -/
theorem fill_spec (k : Nat) (ends : Array Int) (hsize : ends.size = code.size) :
    (∀ i, k ≤ i → (fill code k ends)[i]? = ends[i]?) ∧
      ∀ i ins, i < k → code[i]? = some ins → Opcode.ofCode? ins.op = some .tryPush →
        (fill code k ends)[i]? = some (endOf code (fill code k ends) i ins.operand) := by
  -- From the back: the ends of inner regions are known when the one around them is filled in.
  induction k generalizing ends with
  | zero => exact ⟨fun _ _ => rfl, fun i _ hi => absurd hi (Nat.not_lt_zero i)⟩
  | succ k ih =>
    rw [fill]
    split
    · next ins hins =>
      split
      · next hop =>
        have hk : k < ends.size := by
          rw [hsize]
          exact (Array.getElem?_eq_some_iff.mp hins).1
        let ends' := ends.setIfInBounds k (endOf code ends k ins.operand)
        obtain ⟨hlater, hrest⟩ := ih ends' (by simpa [ends'] using hsize)
        have hkeep (i : Nat) (hi : k < i) : (fill code k ends')[i]? = ends[i]? := by
          rw [hlater i (by omega)]
          exact Array.getElem?_setIfInBounds_ne (by omega)
        refine ⟨fun i hi => hkeep i hi, fun i ins' hi hins' hop' => ?_⟩
        rcases Nat.lt_succ_iff_lt_or_eq.mp hi with hi | rfl
        · exact hrest i ins' hi hins' hop'
        · rw [hins] at hins'
          cases hins'
          rw [endOf_congr hkeep, hlater i (Nat.le_refl i)]
          exact Array.getElem?_setIfInBounds_self_of_lt hk
      · next hop =>
        obtain ⟨hlater, hrest⟩ := ih ends hsize
        refine ⟨fun i hi => hlater i (by omega), fun i ins' hi hins' hop' => ?_⟩
        rcases Nat.lt_succ_iff_lt_or_eq.mp hi with hi | rfl
        · exact hrest i ins' hi hins' hop'
        · rw [hins] at hins'
          cases hins'
          exact absurd hop' hop
    · next hnone =>
      obtain ⟨hlater, hrest⟩ := ih ends hsize
      refine ⟨fun i hi => hlater i (by omega), fun i ins' hi hins' hop' => ?_⟩
      rcases Nat.lt_succ_iff_lt_or_eq.mp hi with hi | rfl
      · exact hrest i ins' hi hins' hop'
      · simp [hnone] at hins'

theorem ends_eq {ins : Instruction} (hins : code[i]? = some ins)
    (hop : Opcode.ofCode? ins.op = some .tryPush) :
    (Region.ends code)[i]? = some (endOf code (Region.ends code) i ins.operand) :=
  (fill_spec code.size (Array.replicate code.size 0) (by simp)).2 i ins
    (Array.getElem?_eq_some_iff.mp hins).1 hins hop

/-- The first `closer` from `i` on outside the regions inside, as the table has them. -/
def found? (code : Array Instruction) (closer : Opcode) (i : Nat) : Option Nat :=
  closing? code (Region.ends code) closer code.size i

theorem found?_outside (h : code.size ≤ i) : found? code closer i = none := closing?_outside h

theorem found?_eq (inside : i < code.size) : found? code closer i =
    if opcodeAt? code i = some .tryPush then found? code closer (behind (Region.ends code) i)
    else if opcodeAt? code i = some closer then some i
    else found? code closer (i + 1) := by
  obtain ⟨n, hn⟩ : ∃ n, code.size = n + 1 := ⟨code.size - 1, by omega⟩
  have hlater := lt_behind (Region.ends code) i
  have hstep (j : Nat) (hj : i < j) : found? code closer j =
      closing? code (Region.ends code) closer n j := closing?_enough (by omega) (by omega)
  rw [hstep _ hlater, hstep (i + 1) (Nat.lt_succ_self i), found?, hn, closing?_succ,
    if_neg (Nat.not_le.mpr inside)]

/-- The entry of a region: unless its search would lead backwards, it is what the search finds. -/
theorem ends_eq_found {ins : Instruction} (hins : code[i]? = some ins)
    (hop : Opcode.ofCode? ins.op = some .tryPush) : (Region.ends code)[i]? =
      some (if ins.operand.opening ≤ (i : Int) then ins.operand.unclosed
        else match found? code ins.operand.closer ins.operand.opening.toNat with
          | some e => e
          | none => ins.operand.unclosed) := ends_eq hins hop

end Region

end BytecodeMachine
