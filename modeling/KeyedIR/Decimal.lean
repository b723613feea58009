/-! # Decimal numbers

A `Decimal` is a whole number of units of some power of ten. `Decimal.read?` reads the usual
notation with an optional point and an optional exponent; `Decimal.text` writes one, with the
point in place or with an exponent as a `Layout` decides.
-/

namespace KeyedIR

set_option autoImplicit false

/-- The number `digits * 10 ^ exponent`. -/
structure Decimal where
  digits : Nat
  /-- The power of ten of the last digit. -/
  exponent : Int
  deriving DecidableEq

namespace Decimal

def digitChars (d : Decimal) : List Char := Nat.toDigits 10 d.digits

/-- The place of the point, counted from before the first digit. A positive number of order `p`
is less than `10 ^ p` and not less than `10 ^ (p - 1)`. -/
def order (d : Decimal) : Int := d.exponent + d.digitChars.length

def strip (d : Decimal) : Decimal :=
  if h : d.digits ≠ 0 ∧ d.digits % 10 = 0 then strip ⟨d.digits / 10, d.exponent + 1⟩ else d
termination_by d.digits
decreasing_by omega

/-! ## Reading -/

/-- A sign in front, if there is one, and the rest; no sign means not negative. -/
def splitSign : List Char → Bool × List Char
  | '-' :: rest => (true, rest)
  | '+' :: rest => (false, rest)
  | text => (false, text)

/-- Reads an exponent, `e` or `E` with an optional sign and at least one digit; nothing is `0`. -/
def readExponent? : List Char → Option Int
  | [] => some 0
  | mark :: rest =>
    let (negative, digits) := splitSign rest
    if (mark == 'e' || mark == 'E') && !digits.isEmpty && digits.all Char.isDigit then
      let size : Int := Nat.ofDigitChars 10 digits 0
      some (if negative then -size else size)
    else none

/-- Reads digits with at most one point, before or after them or between, then an exponent. -/
def read? (text : List Char) : Option Decimal :=
  let whole := text.takeWhile Char.isDigit
  let (fraction, rest) := match text.dropWhile Char.isDigit with
    | '.' :: rest => (rest.takeWhile Char.isDigit, rest.dropWhile Char.isDigit)
    | rest => ([], rest)
  if whole.isEmpty && fraction.isEmpty then none
  else (readExponent? rest).map fun exponent =>
    ⟨Nat.ofDigitChars 10 (whole ++ fraction) 0, exponent - fraction.length⟩

/-! ## Writing -/

/-- Which numbers are written with the point in place: those whose order is within these bounds.
All others get an exponent. -/
structure Layout where
  least : Int
  greatest : Int

/-- The digits with the point in place, and at least one digit on either side of it. -/
def positional (digits : List Char) (order : Int) : List Char :=
  if order ≤ 0 then
    '0' :: '.' :: (List.replicate (-order).toNat '0' ++ digits)
  else if order.toNat < digits.length then
    digits.take order.toNat ++ '.' :: digits.drop order.toNat
  else
    digits ++ List.replicate (order.toNat - digits.length) '0' ++ ['.', '0']

def intText (n : Int) : List Char :=
  if n < 0 then '-' :: Nat.toDigits 10 n.natAbs else Nat.toDigits 10 n.natAbs

/-- One digit, a point and the other digits if there are any, then `e` and the power of ten of
the first digit. -/
def scientific (digits : List Char) (order : Int) : List Char :=
  let others := digits.drop 1
  digits.take 1 ++ (if others.isEmpty then [] else '.' :: others) ++ 'e' :: intText (order - 1)

def text (layout : Layout) (d : Decimal) : List Char :=
  if layout.least ≤ d.order ∧ d.order ≤ layout.greatest then positional d.digitChars d.order
  else scientific d.digitChars d.order

end Decimal

end KeyedIR
