/-! Finite binary64 numbers and the rounding of exact quotients to them. -/
namespace DocQuery

/-- A finite binary64 number: its sign and the rank of its magnitude among the non-negative
finite ones, so that distinct fields are distinct bit patterns. -/
structure Binary64 where
  negative : Bool
  rank : Fin 0x7FF0000000000000
  deriving DecidableEq

namespace Binary64

/-- The least mantissa of a normal number, and the number of ranks in a binade. -/
def leastNormal : Nat := 0x10000000000000

/-- The magnitude is `mantissa * 2 ^ exponent`. -/
def mantissa (x : Binary64) : Nat :=
  if x.rank.val < leastNormal then x.rank.val else leastNormal + x.rank.val % leastNormal

def exponent (x : Binary64) : Int :=
  if x.rank.val < leastNormal then -1074 else x.rank.val / leastNormal - 1075

def zero (negative : Bool) : Binary64 := ⟨negative, 0, by decide⟩

def isZero (x : Binary64) : Bool := x.rank.val == 0

/-- Numeric equality: the two zeros are equal. -/
def equals (x y : Binary64) : Bool := x == y || (x.isZero && y.isZero)

/-- The nearest natural number to a quotient, ties to even. -/
def roundQuotient (num den : Nat) : Nat :=
  let q := num / den
  let r := num % den
  if den < 2 * r ∨ den = 2 * r ∧ q % 2 = 1 then q + 1 else q

/-- The greatest `e` with `2 ^ e ≤ num / den`, for positive `num` and `den`. -/
def floorLog2 (num den : Nat) : Int :=
  let e : Int := (num.log2 : Int) - den.log2
  if den * Nat.pow 2 e.toNat ≤ num * Nat.pow 2 (-e).toNat then e else e - 1

/-- The rank of the binary64 number nearest to a positive quotient. A mantissa that rounds up to
the next power of two is the first one of the next binade, which is what its rank says. -/
def nearestRank (num den : Nat) : Nat :=
  let e : Int := max (-1074) (floorLog2 num den - 52)
  (e + 1074).toNat * leastNormal +
    roundQuotient (num * Nat.pow 2 (-e).toNat) (den * Nat.pow 2 e.toNat)

/-- The nearest number to a signed quotient; none when it lies beyond the largest. -/
def ofQuotient? (negative : Bool) (num den : Nat) : Option Binary64 :=
  if num = 0 then some (zero negative)
  else if h : nearestRank num den < 0x7FF0000000000000 then some ⟨negative, nearestRank num den, h⟩
  else none

/-- The nearest number to an integer of at most sixty-four bits. -/
def ofInt (i : Int) : Binary64 :=
  (ofQuotient? (decide (i < 0)) i.natAbs 1).getD (zero false)

/-- The magnitude as a quotient. -/
def quotient (x : Binary64) : Nat × Nat :=
  (x.mantissa * Nat.pow 2 x.exponent.toNat, Nat.pow 2 (-x.exponent).toNat)

/-- The rounded product with a positive number, which keeps the sign. -/
def mul? (x y : Binary64) : Option Binary64 :=
  ofQuotient? x.negative (x.quotient.1 * y.quotient.1) (x.quotient.2 * y.quotient.2)

/-- The rounded quotient by a positive number, which keeps the sign. -/
def div? (x y : Binary64) : Option Binary64 :=
  ofQuotient? x.negative (x.quotient.1 * y.quotient.2) (x.quotient.2 * y.quotient.1)

/-- The number nearest to a power of ten; the powers up to `10 ^ 308` have one. -/
def powerOfTen? (k : Nat) : Option Binary64 := ofQuotient? false (Nat.pow 10 k) 1

/-- A number times a power of ten, by one rounded multiplication or division; by two divisions below
`10 ^ -308`, where only the first one is by `10 ^ 308`. None beyond the largest number. -/
def scale? (x : Binary64) (exponent : Int) : Option Binary64 :=
  if x.isZero then some x
  else if 308 < exponent then none
  else if 0 ≤ exponent then do x.mul? (← powerOfTen? exponent.toNat)
  else if -308 ≤ exponent then do x.div? (← powerOfTen? (-exponent).toNat)
  else if -616 ≤ exponent then do
    let y ← x.div? (← powerOfTen? 308)
    y.div? (← powerOfTen? (-(exponent + 308)).toNat)
  else some (zero x.negative)

end Binary64

end DocQuery
