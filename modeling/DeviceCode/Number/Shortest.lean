import DeviceCode.Number.Decimal

/-!
# The shortest decimal of a binary64

`Double.shortest` is the decimal of fewest digits that rounds back to the number, of those the
nearest, and of two equally near the larger. It looks at the two neighbours of the number on the
decimal grids of one to seventeen digits; the number's own decimal expansion ends the search.
-/

namespace DeviceCode

/-- How many decimal digits `n` has; none for zero. -/
def digitCount (n : Nat) : Nat := if n = 0 then 0 else (Nat.toDigits 10 n).length

/-- The greatest `k` with `10 ^ k ≤ n / d`, for positive `n` and `d`. -/
def ratioLog10 (n d : Nat) : Int :=
  if d ≤ n then (digitCount (n / d) : Int) - 1
  else -(digitCount ((d + n - 1) / n - 1) : Int)

/-- The two neighbours of `n / d` among the multiples of `10 ^ e`, the nearer first. -/
def decimalNeighbours (n d : Nat) (e : Int) : List Decimal :=
  let (n', d') := scaleDecimal n d (-e)
  let below : Decimal := ⟨n' / d', e⟩
  let above : Decimal := ⟨n' / d' + 1, e⟩
  if 2 * (n' % d') < d' then [below, above] else [above, below]

namespace Double

/-- `2 ^ q = 5 ^ -q · 10 ^ q` turns a negative power of two into decimal digits. -/
def expansion (m : Nat) (q : Int) : Decimal :=
  if 0 ≤ q then ⟨m * Nat.pow 2 q.toNat, 0⟩ else ⟨m * Nat.pow 5 (-q).toNat, q⟩

/-- The neighbours of a positive finite number on the grids of one to seventeen digits, then its
expansion. -/
def decimalCandidates (x : Double) : List Decimal :=
  let (m, q) := x.parts
  let (n, d) := scaleBinary m 1 q
  let top := ratioLog10 n d
  (List.range 17).flatMap (fun (i : Nat) => decimalNeighbours n d (top - i)) ++ [expansion m q]

/-- The shortest decimal that rounds to the magnitude of `x`. -/
def shortest (x : Double) : Decimal :=
  if x.isZero then ⟨0, 0⟩
  else
    match x.decimalCandidates.find? (fun c => c.magnitude == x.magnitude) with
    | some c => c.normalize
    | none => (expansion x.parts.1 x.parts.2).normalize

end Double

end DeviceCode
