import BytecodeMachine.Proofs.Program.Blocks
import Mathlib.Logic.Function.Basic

/-! The ends of protected regions by recursion: the search for the end of a region asks for the end
of every region that it comes to. The ends that are known already may be remembered, or each may be
searched for anew. Either way the recursion comes to an end, and gives the entries of the table. -/
namespace BytecodeMachine.Region

/-- The ends that are remembered, by the address at which the region starts. -/
abbrev Known := Nat → Option Int

def Known.keep (remember : Bool) (known : Known) (pc : Nat) (e : Int) : Known :=
  if remember then Function.update known pc (some e) else known

mutual

/-- The end of the region that starts at `pc`, with what is known after it. None where that takes
more than `fuel` calls and rounds inside one another, or there is no such instruction. -/
def endFrom (code : Array Instruction) (remember : Bool) :
    (fuel pc : Nat) → Known → Option (Int × Known)
  | 0, _, _ => none
  | fuel + 1, pc, known =>
    match known pc with
    | some e => some (e, known)
    | none =>
      (code[pc]?).bind fun ins =>
        let o := ins.operand
        let known := known.keep remember pc o.unclosed
        if o.opening ≤ (pc : Int) then some (o.unclosed, known)
        else (scanFrom code remember o.closer fuel o.opening.toNat known).map fun r =>
          let e := r.1.elim o.unclosed Int.ofNat
          (e, r.2.keep remember pc e)

/-- The first `closer` from `i` on outside the regions inside. -/
def scanFrom (code : Array Instruction) (remember : Bool) (closer : Opcode) :
    (fuel i : Nat) → Known → Option (Option Nat × Known)
  | 0, _, _ => none
  | fuel + 1, i, known =>
    if code.size ≤ i then some (none, known)
    else if opcodeAt? code i = some .tryPush then
      (endFrom code remember fuel i known).bind fun r =>
        scanFrom code remember closer fuel (if (i : Int) < r.1 then r.1.toNat + 1 else i + 1) r.2
    else if opcodeAt? code i = some closer then some (some i, known)
    else scanFrom code remember closer fuel (i + 1) known

end

/-- Goes over addresses in turn and asks for the end of every region that starts there. -/
def gather (code : Array Instruction) (remember : Bool) (fuel : Nat) :
    List Nat → Known → Option Known
  | [], known => some known
  | pc :: rest, known =>
    if opcodeAt? code pc = some .tryPush then
      (endFrom code remember fuel pc known).bind fun r => gather code remember fuel rest r.2
    else gather code remember fuel rest known

/-- The ends that are remembered once every region of the code has been asked for. -/
def remembered (code : Array Instruction) (fuel : Nat) : Option Known :=
  gather code true fuel (List.range code.size) fun _ => none

/-- The end of a region by recursion alone. -/
def plainEnd (code : Array Instruction) (fuel pc : Nat) : Option Int :=
  (endFrom code false fuel pc fun _ => none).map (·.1)

variable {code : Array Instruction} {remember : Bool} {known known' known'' : Known} {fuel pc i : Nat}

namespace Known

/-- What is remembered from an address on are ends of regions, as the table has them. -/
def Right (code : Array Instruction) (lo : Nat) (known : Known) : Prop :=
  ∀ i, lo ≤ i → ∀ e, known i = some e →
    opcodeAt? code i = some .tryPush ∧ (ends code)[i]? = some e

/-- Nothing changes before an address, and nothing is forgotten. -/
structure Grows (lo : Nat) (known known' : Known) : Prop where
  before : ∀ i, i < lo → known' i = known i
  kept : ∀ i, (known i).isSome = true → (known' i).isSome = true

theorem Grows.refl (lo : Nat) (known : Known) : known.Grows lo known :=
  ⟨fun _ _ => rfl, fun _ h => h⟩

theorem Grows.earlier {lo lo' : Nat} (h : known.Grows lo' known') (hle : lo ≤ lo') :
    known.Grows lo known' := ⟨fun i hi => h.before i (Nat.lt_of_lt_of_le hi hle), h.kept⟩

theorem Grows.trans {lo : Nat} (h : known.Grows lo known') (h' : known'.Grows lo known'') :
    known.Grows lo known'' :=
  ⟨fun i hi => (h'.before i hi).trans (h.before i hi), fun i hi => h'.kept i (h.kept i hi)⟩

theorem Grows.keep (remember : Bool) (known : Known) (pc : Nat) (e : Int) :
    known.Grows pc (known.keep remember pc e) := by
  unfold Known.keep
  split
  · refine ⟨fun i hi => Function.update_of_ne (by omega) _ _, fun i hi => ?_⟩
    by_cases heq : i = pc
    · rw [heq, Function.update_self]
      rfl
    · rwa [Function.update_of_ne heq]
  · exact Grows.refl pc known

theorem Right.later {lo lo' : Nat} (h : known.Right code lo) (hle : lo ≤ lo') :
    known.Right code lo' := fun i hi => h i (Nat.le_trans hle hi)

/-- What is right from an address on, and has not changed between an earlier one and it. -/
theorem Right.earlier {lo lo' : Nat} (h : known'.Right code lo') (h₀ : known.Right code lo)
    (grows : known.Grows lo' known') : known'.Right code lo := by
  intro i hi e he
  rcases Nat.lt_or_ge i lo' with hlt | hge
  · rw [grows.before i hlt] at he
    exact h₀ i hi e he
  · exact h i hge e he

theorem Right.keep (h : known.Right code (pc + 1)) (remember : Bool) (e : Int) :
    (known.keep remember pc e).Right code (pc + 1) := by
  unfold Known.keep
  split
  · intro i hi e' he
    rw [Function.update_of_ne (by omega)] at he
    exact h i hi e' he
  · exact h

end Known

theorem Known.Right.keep_end {e : Int} (h : known.Right code (pc + 1))
    (hnew : remember = false → known.Right code pc) (hop : opcodeAt? code pc = some .tryPush)
    (he : (ends code)[pc]? = some e) : (known.keep remember pc e).Right code pc := by
  cases remember with
  | false => exact hnew rfl
  | true =>
    intro i hi e' he'
    rcases Nat.eq_or_lt_of_le hi with rfl | hlt
    · rw [Known.keep, if_pos rfl, Function.update_self] at he'
      cases he'
      exact ⟨hop, he⟩
    · exact h.keep true e i hlt e' he'

/-- What a call of the recursion for a region comes to. -/
def Ends (code : Array Instruction) (remember : Bool) (fuel : Nat) : Prop :=
  ∀ pc known, opcodeAt? code pc = some .tryPush → 2 * (code.size - pc) ≤ fuel →
    known.Right code pc → ∃ e known', endFrom code remember fuel pc known = some (e, known') ∧
      (ends code)[pc]? = some e ∧ known'.Right code pc ∧ known.Grows pc known' ∧
      (remember = true → known' pc = some e)

/-- What a search comes to. -/
def Scans (code : Array Instruction) (remember : Bool) (fuel : Nat) : Prop :=
  ∀ closer i known, 2 * (code.size - i) < fuel → known.Right code i →
    ∃ known', scanFrom code remember closer fuel i known = some (found? code closer i, known') ∧
      known'.Right code i ∧ known.Grows i known'

theorem ends_succ (h : Scans code remember fuel) : Ends code remember (fuel + 1) := by
  intro pc known hop hfuel hright
  obtain ⟨ins, hins, hcode⟩ := Option.bind_eq_some_iff.mp hop
  have hinside : pc < code.size := lt_of_opcodeAt? hop
  have hentry := ends_eq_found hins hcode
  rw [endFrom]
  cases hknown : known pc with
  | some e =>
    obtain ⟨-, he⟩ := hright pc (Nat.le_refl pc) e hknown
    exact ⟨e, known, rfl, he, hright, .refl pc known, fun _ => hknown⟩
  | none =>
    let o := ins.operand
    let known₁ := known.keep remember pc o.unclosed
    have hright₁ : known₁.Right code (pc + 1) :=
      (hright.later (Nat.le_succ pc)).keep remember o.unclosed
    have hgrows₁ : known.Grows pc known₁ := .keep remember known pc o.unclosed
    have hset (k : Known) (e : Int) (hremember : remember = true) :
        k.keep remember pc e pc = some e := by
      rw [Known.keep, if_pos hremember, Function.update_self]
    simp only [hins, Option.bind_some]
    by_cases hback : o.opening ≤ (pc : Int)
    · have he : (ends code)[pc]? = some o.unclosed := by rw [hentry, if_pos hback]
      rw [if_pos hback]
      exact ⟨o.unclosed, known₁, rfl, he,
        (hright.later (Nat.le_succ pc)).keep_end (fun _ => hright) hop he, hgrows₁,
        hset known o.unclosed⟩
    · -- What the search remembers is about later regions, so the entry of this one is set last.
      have hstart : pc < o.opening.toNat := by omega
      obtain ⟨known₂, hscan, hright₂, hgrows₂⟩ :=
        h o.closer o.opening.toNat known₁ (by omega) (hright₁.later hstart)
      let e := (found? code o.closer o.opening.toNat).elim o.unclosed Int.ofNat
      have he : (ends code)[pc]? = some e := by
        rw [hentry, if_neg hback]
        dsimp only [e, o]
        cases found? code ins.operand.closer ins.operand.opening.toNat <;> rfl
      have hlater : known₂.Right code (pc + 1) :=
        hright₂.earlier hright₁ hgrows₂
      have hnew (hforget : remember = false) : known₂.Right code pc := by
        have hsame : known₁ = known := by
          dsimp only [known₁, Known.keep]
          rw [hforget]
          rfl
        exact hright₂.earlier (hsame ▸ hright) hgrows₂
      rw [if_neg hback, hscan]
      exact ⟨e, known₂.keep remember pc e, rfl, he, hlater.keep_end hnew hop he,
        (hgrows₁.trans (hgrows₂.earlier (Nat.le_of_lt hstart))).trans (.keep remember known₂ pc e),
        hset known₂ e⟩

theorem scans_succ (h : Ends code remember fuel) (h' : Scans code remember fuel) :
    Scans code remember (fuel + 1) := by
  intro closer i known hfuel hright
  rw [scanFrom]
  by_cases hout : code.size ≤ i
  · rw [if_pos hout, found?_outside hout]
    exact ⟨known, rfl, hright, .refl i known⟩
  rw [if_neg hout, found?_eq (Nat.lt_of_not_le hout)]
  by_cases hregion : opcodeAt? code i = some .tryPush
  · obtain ⟨e, known₁, hend, he, hright₁, hgrows₁, -⟩ :=
      h i known hregion (by omega) hright
    have hbehind : behind (ends code) i = if (i : Int) < e then e.toNat + 1 else i + 1 := by
      rw [behind, he, Option.getD_some]
    have hlater := lt_behind (ends code) i
    obtain ⟨known₂, hscan, hright₂, hgrows₂⟩ :=
      h' closer (behind (ends code) i) known₁ (by omega) (hright₁.later (Nat.le_of_lt hlater))
    rw [if_pos hregion, if_pos hregion, hend, Option.bind_some, ← hbehind]
    exact ⟨known₂, hscan, hright₂.earlier hright₁ hgrows₂,
      hgrows₁.trans (hgrows₂.earlier (Nat.le_of_lt hlater))⟩
  rw [if_neg hregion, if_neg hregion]
  by_cases hcloser : opcodeAt? code i = some closer
  · rw [if_pos hcloser, if_pos hcloser]
    exact ⟨known, rfl, hright, .refl i known⟩
  · obtain ⟨known', hscan, hright', hgrows⟩ :=
      h' closer (i + 1) known (by omega) (hright.later (Nat.le_succ i))
    rw [if_neg hcloser, if_neg hcloser]
    exact ⟨known', hscan, hright'.earlier hright hgrows, hgrows.earlier (Nat.le_succ i)⟩

/-- The recursion comes to its end: a call and the search in it each go further on in the code. -/
theorem ends_and_scans (code : Array Instruction) (remember : Bool) (fuel : Nat) :
    Ends code remember fuel ∧ Scans code remember fuel := by
  induction fuel with
  | zero =>
    refine ⟨fun pc known hop hfuel _ => ?_, fun closer i known hfuel _ => by omega⟩
    have hinside := lt_of_opcodeAt? hop
    omega
  | succ fuel ih => exact ⟨ends_succ ih.2, scans_succ ih.1 ih.2⟩

theorem plainEnd_eq (hfuel : 2 * code.size ≤ fuel) (hop : opcodeAt? code pc = some .tryPush) :
    plainEnd code fuel pc = (ends code)[pc]? := by
  have hnone : Known.Right code pc fun _ => none := fun _ _ _ he => by cases he
  obtain ⟨e, known', hend, he, -⟩ :=
    (ends_and_scans code false fuel).1 pc (fun _ => none) hop (by omega) hnone
  rw [plainEnd, hend, he]
  rfl

/-- Going over addresses remembers the ends of the regions that start there, and is right about all
that it remembers. -/
theorem gather_spec (hfuel : 2 * code.size ≤ fuel) (pcs : List Nat) (hright : known.Right code 0) :
    ∃ known', gather code true fuel pcs known = some known' ∧ known'.Right code 0 ∧
      (∀ i, (known i).isSome = true → (known' i).isSome = true) ∧
      ∀ pc ∈ pcs, opcodeAt? code pc = some .tryPush → (known' pc).isSome = true := by
  induction pcs generalizing known with
  | nil => exact ⟨known, rfl, hright, fun _ h => h, fun _ h => by cases h⟩
  | cons pc rest ih =>
    rw [gather]
    by_cases hop : opcodeAt? code pc = some .tryPush
    · obtain ⟨e, known₁, hend, -, hright₁, hgrows, hset⟩ :=
        (ends_and_scans code true fuel).1 pc known hop (by omega) (hright.later (Nat.zero_le pc))
      obtain ⟨known', hgather, hright', hkept, hall⟩ := ih (hright₁.earlier hright hgrows)
      rw [if_pos hop, hend, Option.bind_some]
      refine ⟨known', hgather, hright', fun i hi => hkept i (hgrows.kept i hi), ?_⟩
      intro i hi hopening
      rcases List.mem_cons.mp hi with rfl | hi
      · exact hkept i (by rw [hset rfl]; rfl)
      · exact hall i hi hopening
    · obtain ⟨known', hgather, hright', hkept, hall⟩ := ih hright
      rw [if_neg hop]
      refine ⟨known', hgather, hright', hkept, ?_⟩
      intro i hi hopening
      rcases List.mem_cons.mp hi with rfl | hi
      · exact absurd hopening hop
      · exact hall i hi hopening

/-- What is remembered in the end is the end of every region, and nothing else. -/
theorem remembered_eq (hfuel : 2 * code.size ≤ fuel) : ∃ known, remembered code fuel = some known ∧
    ∀ pc, known pc = if opcodeAt? code pc = some .tryPush then (ends code)[pc]? else none := by
  have hnone : Known.Right code 0 fun _ => none := fun _ _ _ he => by cases he
  obtain ⟨known, hgather, hright, -, hall⟩ := gather_spec hfuel (List.range code.size) hnone
  refine ⟨known, hgather, fun pc => ?_⟩
  cases hknown : known pc with
  | some e =>
    obtain ⟨hop, he⟩ := hright pc (Nat.zero_le pc) e hknown
    rw [if_pos hop, he]
  | none =>
    rw [if_neg fun hop => ?_]
    have hsome := hall pc (List.mem_range.mpr (lt_of_opcodeAt? hop)) hop
    rw [hknown] at hsome
    cases hsome

end BytecodeMachine.Region
