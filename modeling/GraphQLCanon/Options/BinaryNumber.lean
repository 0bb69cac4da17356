/-!
# Binary numbers

A number that is written with a point or an exponent is held with 53 binary
digits: as the nearest number of that form, and as the one with an even last digit
when two are equally near. Numbers too large for that have no binary number.
-/

namespace GraphQLCanon

/-- The number `significand * 2 ^ exponent`. -/
structure BinaryNumber where
  significand : Int
  exponent : Int
  deriving DecidableEq, Repr

namespace BinaryNumber

/-- The least exponent. -/
def leastExponent : Int := -1074

/-- The number of binary digits of a significand. -/
def precision : Nat := 53

/-- The numbers from two to this power on are too large. -/
def limit : Nat := 1024

/-- A quotient rounded to the nearest whole number, and to the even one in the
middle between two. -/
def roundedQuotient (numerator denominator : Nat) : Nat :=
  let quotient := numerator / denominator
  let remainder := numerator % denominator
  if 2 * remainder < denominator then quotient
  else if denominator < 2 * remainder then quotient + 1
  else quotient + quotient % 2

/-- The greatest power of two that is not above a positive fraction, as its
exponent. -/
def fractionLog (numerator denominator : Nat) : Int :=
  let difference := (numerator.log2 : Int) - denominator.log2
  if denominator <<< difference.toNat ≤ numerator <<< (-difference).toNat then difference
  else difference - 1

/-- The exponent of a positive fraction: it leaves as many digits before the point
as a significand has. -/
def exponentOf (numerator denominator : Nat) : Int :=
  max leastExponent (fractionLog numerator denominator + 1 - precision)

/-- The significand of the binary number next to a positive fraction, whose
exponent is given. -/
def significandOf (numerator denominator : Nat) (exponent : Int) : Nat :=
  roundedQuotient (numerator <<< (-exponent).toNat) (denominator <<< exponent.toNat)

/-- The binary number next to a decimal fraction, which is an integer divided by a
power of ten. -/
def ofDecimal? (digits : Int) (places : Nat) : Option BinaryNumber :=
  if digits = 0 then some ⟨0, 0⟩
  else
    let numerator := digits.natAbs
    let denominator := Nat.pow 10 places
    let exponent := exponentOf numerator denominator
    let significand := significandOf numerator denominator exponent
    if (limit : Int) ≤ significand.log2 + exponent then none
    else some ⟨digits.sign * significand, exponent⟩

/-- The whole number that a binary number is, if it is one. -/
def whole? (number : BinaryNumber) : Option Int :=
  let unit := 1 <<< (-number.exponent).toNat
  if number.significand % unit = 0 then
    some (number.significand / unit * (1 <<< number.exponent.toNat : Nat))
  else none

end BinaryNumber

end GraphQLCanon
