import KeyedIR.Binary64.Rounding
/-! # Binary64 to decimal

`shortest` gives a decimal with the fewest digits among those that round to a magnitude, and of
two such neighbours the one nearer to it; `text` writes it.
-/

namespace KeyedIR.Binary64

set_option autoImplicit false

/-- The magnitude of a rank as a decimal, exactly: `2 ^ -1074` is `5 ^ 1074 * 10 ^ -1074`. -/
def exact (rank : Nat) : Decimal := ⟨units rank * Nat.pow 5 1074, -1074⟩

/-- On the grid of the multiples of `10 ^ exponent`, the neighbour of a magnitude that rounds to
it; the nearer one if both do, and the upper one if both are equally near. -/
def gridNeighbour? (rank : Nat) (exponent : Int) : Option Decimal :=
  let n := units rank * Nat.pow 10 (-exponent).toNat
  let d := Nat.pow 2 1074 * Nat.pow 10 exponent.toNat
  let lower : Decimal := ⟨n / d, exponent⟩
  let upper : Decimal := ⟨n / d + 1, exponent⟩
  if (rankOfDecimal lower).val = rank then
    if (rankOfDecimal upper).val = rank ∧ d ≤ 2 * (n % d) then some upper else some lower
  else if (rankOfDecimal upper).val = rank then some upper
  else none

/-- The decimal of a magnitude on the coarsest grid that has one, with no zero at its end.
Seventeen digits always suffice; the exact decimal stands in where none was found. -/
def shortest (rank : Nat) : Decimal :=
  let order := (exact rank).order
  let found := (List.range 17).findSome? fun (more : Nat) =>
    gridNeighbour? rank (order - more - 1)
  (found.getD (exact rank)).strip

/-- Numbers from `1e-4` up to but not including `1e16` are written without an exponent. -/
def layout : Decimal.Layout := ⟨-3, 16⟩

def text : Binary64 → List Char
  | nan => ['N', 'a', 'N']
  | number negative rank =>
    let magnitude :=
      if rank.val = 0 then ['0', '.', '0']
      else if rank.val = infinityRank then ['i', 'n', 'f']
      else (shortest rank).text layout
    if negative then '-' :: magnitude else magnitude

end KeyedIR.Binary64
