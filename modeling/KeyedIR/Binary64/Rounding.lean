import KeyedIR.Binary64.Basic
import KeyedIR.Decimal
/-! # Decimal to binary64

`ofDecimal` gives the binary64 number nearest to a decimal, the even one of two equally near;
`read?` reads a number's text, with the words for infinity and NaN in any case.
-/

namespace KeyedIR.Binary64

set_option autoImplicit false

/-- The rank of the magnitude nearest to a decimal. A number of order above 310 is beyond the
greatest finite magnitude, and one of order below -330 is nearest to zero; between them the
quotient is exact. -/
def rankOfDecimal (d : Decimal) : Fin (infinityRank + 1) :=
  if d.digits = 0 ∨ d.order < -330 then ⟨0, Nat.succ_pos _⟩
  else if 310 < d.order then ⟨infinityRank, Nat.lt_succ_self _⟩
  else rankOfRatio (d.digits * Nat.pow 10 d.exponent.toNat * Nat.pow 2 1074)
    (Nat.pow 10 (-d.exponent).toNat)

def ofDecimal (negative : Bool) (d : Decimal) : Binary64 := number negative (rankOfDecimal d)

/-- Reads a number: an optional sign, then `inf`, `infinity` or `nan` in any case, or a decimal. -/
def read? (text : List Char) : Option Binary64 :=
  let (negative, magnitude) := Decimal.splitSign text
  let word := magnitude.map Char.toLower
  if word = ['i', 'n', 'f'] ∨ word = ['i', 'n', 'f', 'i', 'n', 'i', 't', 'y'] then
    some (infinity negative)
  else if word = ['n', 'a', 'n'] then some nan
  else (Decimal.read? magnitude).map (ofDecimal negative)

end KeyedIR.Binary64
