import DocQuery.Binary64

/-! The shortest decimal that reads back as a given binary64 number. -/
namespace DocQuery.Decimal

/-- A positive decimal: `digits` is its digit string without outer zeros, read as an integer, and the
point stands after `point` of these digits. -/
structure Scientific where
  digits : Nat
  point : Int
  deriving DecidableEq

/-- The reals that round to a number, as the numerators of quotients by `den`: from `low` to `high`,
with the ends if `closed`, around `mid`. -/
structure Interval where
  low : Nat
  mid : Nat
  high : Nat
  den : Nat
  closed : Bool

/-- The half gap below a power of two is half the one above, except at the least exponent. -/
def Interval.of (x : Binary64) : Interval :=
  let m := x.mantissa
  let e := x.exponent - 2
  let unit := Nat.pow 2 e.toNat
  let below := if m = Binary64.leastNormal ∧ x.exponent ≠ -1074 then 1 else 2
  { low := (4 * m - below) * unit
    mid := 4 * m * unit
    high := (4 * m + 2) * unit
    den := Nat.pow 2 (-e).toNat
    closed := m % 2 = 0 }

namespace Interval

/-- The interval in units of `10 ^ exponent`. -/
def scale (i : Interval) (exponent : Int) : Interval :=
  let up := Nat.pow 10 (-exponent).toNat
  { i with
    low := i.low * up
    mid := i.mid * up
    high := i.high * up
    den := i.den * Nat.pow 10 exponent.toNat }

def contains (i : Interval) (n : Nat) : Bool :=
  if i.closed then decide (i.low ≤ n * i.den) && decide (n * i.den ≤ i.high)
  else decide (i.low < n * i.den) && decide (n * i.den < i.high)

/-- The integer in the interval that is nearest to its middle, the even one of two. -/
def nearest? (i : Interval) : Option Nat :=
  let q := i.mid / i.den
  let n := Binary64.roundQuotient i.mid i.den
  let other := if n = q then q + 1 else q
  if i.contains n then some n else if i.contains other then some other else none

/-- How many digits the middle has before its point, negative for zeros after the point. -/
def point (i : Interval) : Int :=
  let guess := Binary64.floorLog2 i.mid i.den * 30103 / 100000
  let below (k : Int) : Bool := i.mid * Nat.pow 10 (-k).toNat < i.den * Nat.pow 10 k.toNat
  if below (guess + 1) then guess + 1 else guess + 2

end Interval

/-- Drops the zeros at the end of a digit string of at most `fuel` digits. -/
def dropZeros : Nat → Nat → Nat
  | 0, n => n
  | fuel + 1, n => if n ≠ 0 ∧ n % 10 = 0 then dropZeros fuel (n / 10) else n

/-- The fewest digits that read back, nearest to the number among those. Seventeen always do. -/
def shortest (x : Binary64) : Scientific :=
  let i := Interval.of x
  let k := i.point
  let found := (List.range 17).findSome? fun n : Nat =>
    (i.scale (k - (n + 1 : Nat))).nearest?.map fun d => (d, n + 1)
  let (d, n) := found.getD (0, 1)
  { digits := dropZeros 17 d
    point := if d < Nat.pow 10 n then k else k + 1 }

end DocQuery.Decimal
