import DeviceCode.Number.Double

/-!
# Decimal numbers and their nearest binary64

`Decimal.magnitude` rounds a decimal number to the nearest binary64, an exact half to the even
neighbour, in whole-number arithmetic; a number too large becomes infinity.
-/

namespace DeviceCode

/-- `n / d` rounded to the nearest whole number, a half to the even one. -/
def divNearest (n d : Nat) : Nat :=
  if 2 * (n % d) < d then n / d
  else if d < 2 * (n % d) then n / d + 1
  else n / d + n / d % 2

/-- `n / d` times `2 ^ q` as a fraction. -/
def scaleBinary (n d : Nat) (q : Int) : Nat × Nat :=
  if 0 ≤ q then (n * Nat.pow 2 q.toNat, d) else (n, d * Nat.pow 2 (-q).toNat)

/-- `n / d` times `10 ^ e` as a fraction. -/
def scaleDecimal (n d : Nat) (e : Int) : Nat × Nat :=
  if 0 ≤ e then (n * Nat.pow 10 e.toNat, d) else (n, d * Nat.pow 10 (-e).toNat)

/-- The greatest `l` with `2 ^ l ≤ n / d`, for positive `n` and `d`. -/
def ratioLog2 (n d : Nat) : Int :=
  let l : Int := n.log2 - d.log2
  let (n', d') := scaleBinary n d (-l)
  if d' ≤ n' then l else l - 1

namespace Double

/-- The magnitude of the binary64 nearest to `n / d`: the spacing of the numbers about `2 ^ l` is
`2 ^ (l - 52)`, and never finer than `2 ^ -1074`. -/
def nearestMagnitude (n d : Nat) : Nat :=
  if n = 0 then 0
  else
    let q := max (ratioLog2 n d - 52) (-1074)
    let (n', d') := scaleBinary n d (-q)
    min infinityMagnitude ((q + 1074).toNat * exponentUnit + divNearest n' d')

end Double

/-- The number `digits · 10 ^ exponent`. -/
structure Decimal where
  digits : Nat
  exponent : Int
deriving DecidableEq, Repr

namespace Decimal

/-- The same number with as few digits as possible. -/
def normalize (x : Decimal) : Decimal :=
  if x.digits = 0 then ⟨0, 0⟩
  else if x.digits % 10 = 0 then normalize ⟨x.digits / 10, x.exponent + 1⟩
  else x
termination_by x.digits
decreasing_by omega

/-- The magnitude of the nearest binary64. The first two cases are the numbers above `10 ^ 400` and
below `10 ^ -400`, decided without writing out the power. -/
def magnitude (x : Decimal) : Nat :=
  let y := x.normalize
  if y.digits = 0 then 0
  else if 400 < y.exponent then Double.infinityMagnitude
  else if y.exponent + (y.digits.log2 / 3 : Nat) + 1 < -400 then 0
  else
    let (n, d) := scaleDecimal y.digits 1 y.exponent
    Double.nearestMagnitude n d

end Decimal

end DeviceCode
