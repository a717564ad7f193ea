import DeviceCode.Number.Shortest

/-!
# Writing and reading binary64 numbers

A number is written positionally, with at least one digit after the point, when its first digit
stands for a power of ten from `10 ^ -4` to `10 ^ 15`, and with an exponent otherwise.
-/

namespace DeviceCode.Double

/-- The least and the greatest power of ten of the first digit that are written positionally. -/
def positionalPowers : Int × Int := (-4, 15)

/-- The digits `ds`, the first of which stands for `10 ^ k`, with a point and no exponent. -/
def positional (ds : List Char) (k : Int) : List Char :=
  if k < 0 then '0' :: '.' :: (List.replicate (-k - 1).toNat '0' ++ ds)
  else
    let whole := k.toNat + 1
    if ds.length ≤ whole then ds ++ List.replicate (whole - ds.length) '0' ++ ['.', '0']
    else ds.take whole ++ '.' :: ds.drop whole

/-- The digits `ds` with a point after the first, if there are more, and the exponent `k`. -/
def scientific (ds : List Char) (k : Int) : List Char :=
  let mantissa := match ds with
    | c :: d :: r => c :: '.' :: d :: r
    | short => short
  mantissa ++ 'e' :: (k.repr).toList

/-- The written form of a decimal without its sign. -/
def decimalText (x : Decimal) : List Char :=
  let ds := Nat.toDigits 10 x.digits
  let k := x.exponent + (ds.length : Int) - 1
  if x.digits = 0 ∨ (positionalPowers.1 ≤ k ∧ k ≤ positionalPowers.2) then positional ds k
  else scientific ds k

/-- The written form: the sign of a NaN is not shown, the sign of a zero is. -/
def text (x : Double) : String :=
  if x.isNaN then "NaN"
  else
    let unsigned := if x.isInfinite then "inf".toList else decimalText x.shortest
    String.ofList (if x.isNegative then '-' :: unsigned else unsigned)

/-- The exponent at the end of a decimal: nothing, or `e` with an optional sign and digits. -/
def readExponent? : List Char → Option Int
  | [] => some 0
  | e :: r =>
    if e = 'e' ∨ e = 'E' then
      let (negative, ds) := match r with
        | '-' :: ds => (true, ds)
        | '+' :: ds => (false, ds)
        | ds => (false, ds)
      if ds ≠ [] ∧ ds.all Char.isDigit then
        let n : Int := Nat.ofDigitChars 10 ds 0
        some (if negative then -n else n)
      else none
    else none

/-- Digits with an optional point among, before or behind them, and an optional exponent. -/
def readDecimal? (s : List Char) : Option Decimal :=
  let whole := s.takeWhile Char.isDigit
  let rest := s.dropWhile Char.isDigit
  let (fraction, rest) := match rest with
    | '.' :: r => (r.takeWhile Char.isDigit, r.dropWhile Char.isDigit)
    | r => ([], r)
  if whole = [] ∧ fraction = [] then none
  else (readExponent? rest).map fun e =>
    ⟨Nat.ofDigitChars 10 (whole ++ fraction) 0, e - (fraction.length : Int)⟩

/-- The magnitude of an unsigned number; the names of infinity and NaN are read in any case. -/
def readMagnitude? (s : List Char) : Option Nat :=
  let name := s.map Char.toLower
  if name = "inf".toList ∨ name = "infinity".toList then some infinityMagnitude
  else if name = "nan".toList then some quietMagnitude
  else (readDecimal? s).map Decimal.magnitude

/-- Reads a number with an optional sign. -/
def read? : List Char → Option Double
  | '-' :: s => (readMagnitude? s).map (ofMagnitude true)
  | '+' :: s => (readMagnitude? s).map (ofMagnitude false)
  | s => (readMagnitude? s).map (ofMagnitude false)

end DeviceCode.Double
