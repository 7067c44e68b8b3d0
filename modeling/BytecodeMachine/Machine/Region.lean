import BytecodeMachine.Program.Basic

/-!
Where protected regions end. A region with a finally ends at the instruction that closes it, one
without at the instruction that closes its catch; regions inside are passed over whole.
-/
namespace BytecodeMachine.Region

def opcodeAt? (code : Array Instruction) (i : Nat) : Option Opcode :=
  (code[i]?).bind fun ins => Opcode.ofCode? ins.op

/-- The first `closer` from `i` on outside the regions inside, whose ends are known. `n` bounds the
instructions looked at. -/
def closing? (code : Array Instruction) (ends : Array Int) (closer : Opcode) :
    (n i : Nat) → Option Nat
  | 0, _ => none
  | n + 1, i =>
    if code.size ≤ i then none
    else if opcodeAt? code i = some .tryPush then
      let stop := (ends[i]?).getD 0
      closing? code ends closer n (if (i : Int) < stop then stop.toNat + 1 else i + 1)
    else if opcodeAt? code i = some closer then some i
    else closing? code ends closer n (i + 1)

/-- The end of the region that starts at `pc`, given the ends of all later ones. -/
def endOf (code : Array Instruction) (ends : Array Int) (pc : Nat) (o : Operand) : Int :=
  let catchAddr := o.int.toInt
  let finallyAddr := o.int2.toInt
  let start := if 0 ≤ finallyAddr then finallyAddr else catchAddr
  let closer : Opcode := if 0 ≤ finallyAddr then .endFinally else .tryPop
  let outer := max catchAddr finallyAddr
  if start ≤ (pc : Int) then outer
  else match closing? code ends closer code.size start.toNat with
    | some i => i
    | none => outer

/-- Fills in the ends of the regions that start at `pc`, `pc - 1`, and so on. -/
def fill (code : Array Instruction) : (pc : Nat) → Array Int → Array Int
  | 0, ends => ends
  | pc + 1, ends =>
    match code[pc]? with
    | some ins =>
      if Opcode.ofCode? ins.op = some .tryPush then
        fill code pc (ends.setIfInBounds pc (endOf code ends pc ins.operand))
      else fill code pc ends
    | none => fill code pc ends

/-- The last instruction of the region that starts at each address. -/
def ends (code : Array Instruction) : Array Int := fill code code.size (Array.replicate code.size 0)

end BytecodeMachine.Region
