/-! # Binary64 numbers

A floating-point number of 64 bits, up to the payload of a NaN, which nothing here can show. The
magnitudes are counted in increasing order: the rank of zero is 0, each next magnitude has the
next rank, and infinity has the last. `units` gives the magnitude of a finite rank as a whole
number of the smallest positive magnitude, `2 ^ -1074`.
-/

namespace KeyedIR

set_option autoImplicit false

namespace Binary64

/-- The rank of infinity: 2047 binades of `2 ^ 52` magnitudes come before it. -/
def infinityRank : Nat := 2047 * Nat.pow 2 52

end Binary64

/-- A binary64 number: a NaN, or a sign and the rank of a magnitude. -/
inductive Binary64 where
  | nan
  | number (negative : Bool) (rank : Fin (Binary64.infinityRank + 1))
  deriving DecidableEq

namespace Binary64

def infinity (negative : Bool) : Binary64 := number negative ⟨infinityRank, Nat.lt_succ_self _⟩

/-- Equality of numbers: a NaN equals nothing, and the two zeros are equal. -/
protected def beq : Binary64 → Binary64 → Bool
  | number s r, number s' r' => decide (r = r') && (decide (s = s') || decide (r.val = 0))
  | _, _ => false

instance : BEq Binary64 := ⟨Binary64.beq⟩

/-- The magnitude of a finite rank in multiples of `2 ^ -1074`. The first two binades have that
spacing, and each later one twice the spacing of the one before. -/
def units (rank : Nat) : Nat :=
  if rank < Nat.pow 2 52 then rank
  else (rank % Nat.pow 2 52 + Nat.pow 2 52) * Nat.pow 2 (rank / Nat.pow 2 52 - 1)

/-- A quotient rounded to the nearest whole number, and to the even one of two equally near. -/
def roundHalfEven (n d : Nat) : Nat :=
  let below := n / d
  let rest := n % d
  if 2 * rest < d then below else if d < 2 * rest then below + 1 else below + below % 2

/-- The rank of the magnitude nearest to `n / d` times `2 ^ -1074`, the even one of two equally
near. From the third binade on the last `shift` places of the quotient are rounded away; a
quotient that rounds up to the next binade gets that binade's first rank. -/
def rankOfRatio (n d : Nat) : Fin (infinityRank + 1) :=
  let shift := (n / d).log2 - 52
  ⟨min infinityRank (shift * Nat.pow 2 52 + roundHalfEven n (d * Nat.pow 2 shift)),
    Nat.lt_succ_of_le (Nat.min_le_left _ _)⟩

end Binary64

end KeyedIR
