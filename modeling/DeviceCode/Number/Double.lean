/-!
# Binary64 numbers

A number is kept as its 64 bits, so that the sign of a zero and the payload of a NaN are part of it.
`Double.agrees` is the comparison of the numbers themselves.
-/

namespace DeviceCode

/-- A binary64 number as its bits: one sign bit, eleven of exponent, fifty-two of fraction. -/
structure Double where
  bits : UInt64
deriving DecidableEq, Inhabited, Repr

namespace Double

/-- The bit of the sign. -/
def signBit : Nat := 0x8000000000000000

/-- The lowest bit of the exponent; below it is the fraction. -/
def exponentUnit : Nat := 0x10000000000000

/-- The bits of an infinity without the sign: the greatest exponent and no fraction. -/
def infinityMagnitude : Nat := 2047 * exponentUnit

/-- The bits without the sign of the NaN that arithmetic produces. -/
def quietMagnitude : Nat := 2047 * exponentUnit + exponentUnit / 2

/-- The number with these bits below the sign bit. -/
def ofMagnitude (negative : Bool) (magnitude : Nat) : Double :=
  ⟨.ofNat (if negative then signBit + magnitude else magnitude)⟩

def zero : Double := ⟨0⟩

def isNegative (x : Double) : Bool := decide (signBit ≤ x.bits.toNat)

def magnitude (x : Double) : Nat := x.bits.toNat % signBit

def isNaN (x : Double) : Bool := decide (infinityMagnitude < x.magnitude)

def isInfinite (x : Double) : Bool := decide (x.magnitude = infinityMagnitude)

def isZero (x : Double) : Bool := decide (x.magnitude = 0)

/-- Equality of numbers: the two zeros are equal, and a NaN equals nothing. -/
def agrees (x y : Double) : Bool :=
  !x.isNaN && !y.isNaN && (decide (x = y) || (x.isZero && y.isZero))

/-- The whole number `m` and the power `q` with `x = ± m · 2 ^ q`, for a finite `x`. -/
def parts (x : Double) : Nat × Int :=
  if x.magnitude < exponentUnit then (x.magnitude, -1074)
  else (x.magnitude % exponentUnit + exponentUnit, (x.magnitude / exponentUnit : Nat) - 1075)

theorem ofMagnitude_magnitude (x : Double) : ofMagnitude x.isNegative x.magnitude = x := by
  obtain ⟨b⟩ := x
  have hb := b.toNat_lt
  have hs : signBit = 0x8000000000000000 := rfl
  rw [ofMagnitude, mk.injEq, ← UInt64.toNat_inj, UInt64.toNat_ofNat']
  by_cases h : signBit ≤ b.toNat
  · rw [if_pos (by simp [isNegative, h]), magnitude]
    rw [hs] at h ⊢
    dsimp only
    omega
  · rw [if_neg (by simp [isNegative, h]), magnitude]
    rw [hs] at h ⊢
    dsimp only
    omega

end Double

end DeviceCode
