/-!
The powers of the two bases in which numbers are written.
-/

namespace BytecodeMachine

/-- The power `2 ^ n`, the number of patterns of `n` bits. -/
def twoTo (n : Nat) : Nat := Nat.pow 2 n

/-- The power `10 ^ n`, the number of strings of `n` decimal digits. -/
def tenTo (n : Nat) : Nat := Nat.pow 10 n

end BytecodeMachine
