import Mathlib.Data.Int.Log
import Mathlib.Algebra.Order.Field.Power
import Mathlib.Data.Rat.Floor
import Mathlib.Tactic.FieldSimp
import Mathlib.Tactic.NormNum
import Mathlib.Tactic.Positivity
import Mathlib.Tactic.Ring
import DeviceCode.Number.Shortest

/-!
# The numbers that decimals stand for

Whole-number arithmetic on fractions is compared with the rational numbers that they stand for.  A
number that a binary64 can hold is its own nearest binary64 (`nearestMagnitude_of_eq`), also when it
is given as a decimal (`Decimal.magnitude_of_value`), so the decimal that is chosen for writing a
binary64 rounds back to it (`Double.magnitude_shortest`).
-/

namespace DeviceCode

/-! ## Fractions -/

section Scale

variable {n d : Nat}

/-- Multiplying by a power moves to the numerator or the denominator by the sign of the exponent. -/
theorem scale_spec {b : Nat} (hb : 0 < b) (hd : 0 < d) (q : Int) {p : Nat × Nat}
    (hp : p = if 0 ≤ q then (n * Nat.pow b q.toNat, d) else (n, d * Nat.pow b (-q).toNat)) :
    0 < p.2 ∧ (p.1 : ℚ) / p.2 = n / d * (b : ℚ) ^ q := by
  have hb' : (b : ℚ) ≠ 0 := by positivity
  have hd' : (d : ℚ) ≠ 0 := by positivity
  subst hp
  split
  case isTrue h =>
    obtain ⟨k, rfl⟩ := Int.eq_ofNat_of_zero_le h
    refine ⟨hd, ?_⟩
    rw [Int.toNat_natCast, Nat.pow_eq, zpow_natCast]
    push_cast
    ring
  case isFalse h =>
    obtain ⟨k, hk⟩ : ∃ k : Nat, q = -(k : Int) := ⟨(-q).toNat, by omega⟩
    subst hk
    rw [neg_neg, Int.toNat_natCast, Nat.pow_eq, zpow_neg, zpow_natCast]
    refine ⟨by positivity, ?_⟩
    push_cast
    field_simp

theorem scaleBinary_spec (n : Nat) (hd : 0 < d) (q : Int) :
    0 < (scaleBinary n d q).2 ∧
      ((scaleBinary n d q).1 : ℚ) / (scaleBinary n d q).2 = n / d * 2 ^ q :=
  scale_spec (b := 2) (by decide) hd q rfl

theorem scaleDecimal_spec (n : Nat) (hd : 0 < d) (e : Int) :
    0 < (scaleDecimal n d e).2 ∧
      ((scaleDecimal n d e).1 : ℚ) / (scaleDecimal n d e).2 = n / d * 10 ^ e :=
  scale_spec (b := 10) (by decide) hd e rfl

/-- The binary logarithm of a number bounds it by powers of two. -/
theorem log2_spec (hn : 0 < n) :
    (2 : ℚ) ^ (n.log2 : Int) ≤ n ∧ (n : ℚ) < 2 ^ ((n.log2 : Int) + 1) := by
  have hle := Nat.log2_self_le hn.ne'
  have hlt := Nat.lt_log2_self (n := n)
  constructor
  · rw [zpow_natCast]
    exact_mod_cast hle
  · exact_mod_cast hlt

/-- The exponent of the binade of a fraction. -/
theorem ratioLog2_eq (hn : 0 < n) (hd : 0 < d) : ratioLog2 n d = Int.log 2 ((n : ℚ) / d) := by
  have hd' : (0 : ℚ) < d := by exact_mod_cast hd
  have hpos : (0 : ℚ) < n / d := by positivity
  obtain ⟨hn₁, hn₂⟩ := log2_spec hn
  obtain ⟨hd₁, hd₂⟩ := log2_spec hd
  set l : Int := n.log2 - d.log2 with hl
  have hlower : (2 : ℚ) ^ (l - 1) ≤ n / d := by
    rw [le_div_iff₀ hd']
    calc (2 : ℚ) ^ (l - 1) * d ≤ 2 ^ (l - 1) * 2 ^ ((d.log2 : Int) + 1) := by gcongr
      _ = 2 ^ (n.log2 : Int) := by rw [← zpow_add₀ (by norm_num)]; congr 1; omega
      _ ≤ n := hn₁
  have hupper : (n : ℚ) / d < 2 ^ (l + 1) := by
    rw [div_lt_iff₀ hd']
    calc (n : ℚ) < 2 ^ ((n.log2 : Int) + 1) := hn₂
      _ = 2 ^ (l + 1) * 2 ^ (d.log2 : Int) := by rw [← zpow_add₀ (by norm_num)]; congr 1; omega
      _ ≤ 2 ^ (l + 1) * d := by gcongr
  obtain ⟨hs, hscale⟩ := scaleBinary_spec n hd (-l)
  have hs' : (0 : ℚ) < (scaleBinary n d (-l)).2 := by exact_mod_cast hs
  have hle : (scaleBinary n d (-l)).2 ≤ (scaleBinary n d (-l)).1 ↔ (2 : ℚ) ^ l ≤ n / d := by
    rw [← Nat.cast_le (α := ℚ), ← one_le_div₀ hs', hscale, zpow_neg, ← div_eq_mul_inv,
      one_le_div₀ (by positivity)]
  have hlog : ∀ k : Int, (2 : ℚ) ^ k ≤ n / d → (n : ℚ) / d < 2 ^ (k + 1) →
      k = Int.log 2 ((n : ℚ) / d) := by
    intro k h₁ h₂
    have h₁ := (Int.zpow_le_iff_le_log (b := 2) (by decide) hpos).mp (by exact_mod_cast h₁)
    have h₂ := (Int.lt_zpow_iff_log_lt (b := 2) (by decide) hpos).mp (by exact_mod_cast h₂)
    omega
  change (if (scaleBinary n d (-l)).2 ≤ (scaleBinary n d (-l)).1 then l else l - 1) = _
  split
  case isTrue h => exact hlog l (hle.mp h) hupper
  case isFalse h =>
    rw [hle, not_le] at h
    exact hlog (l - 1) hlower (by rwa [sub_add_cancel])

end Scale

/-- A whole number is its own nearest one. -/
theorem divNearest_mul {d : Nat} (hd : 0 < d) (m : Nat) : divNearest (m * d) d = m := by
  rw [divNearest, Nat.mul_mod_left, if_pos (by omega), Nat.mul_div_cancel _ hd]

/-! ## Binary64 numbers -/

namespace Double

/-- A number as a binary64 holds it: a significand of 53 bits, all of which are used unless the
exponent is the least one. -/
structure IsFormat (m : Nat) (q : Int) : Prop where
  pos : 0 < m
  lt : m < 2 ^ 53
  least : -1074 ≤ q
  greatest : q ≤ 971
  full : q = -1074 ∨ 2 ^ 52 ≤ m

/-- The bits of such a number without the sign. -/
def formatMagnitude (m : Nat) (q : Int) : Nat := (q + 1074).toNat * exponentUnit + m

/-- A number that a binary64 holds is nearest to itself. -/
theorem nearestMagnitude_of_eq {n d m : Nat} {q : Int} (hd : 0 < d) (hm : IsFormat m q)
    (h : (n : ℚ) / d = m * 2 ^ q) :
    nearestMagnitude n d = min infinityMagnitude (formatMagnitude m q) := by
  have hd' : (d : ℚ) ≠ 0 := by positivity
  have hm' : (0 : ℚ) < m := by exact_mod_cast hm.pos
  have hn : 0 < n := by
    rcases Nat.eq_zero_or_pos n with rfl | hn
    · exact absurd h.symm (by rw [Nat.cast_zero, zero_div]; positivity)
    · exact hn
  have hpos : (0 : ℚ) < n / d := by rw [h]; positivity
  have hupper : Int.log 2 ((n : ℚ) / d) < 53 + q := by
    refine (Int.lt_zpow_iff_log_lt (b := 2) (by decide) hpos).mp ?_
    rw [h, Nat.cast_ofNat, zpow_add₀ (by norm_num)]
    have : (m : ℚ) < 2 ^ (53 : Int) := by exact_mod_cast hm.lt
    gcongr
  have hlower : 2 ^ 52 ≤ m → 52 + q ≤ Int.log 2 ((n : ℚ) / d) := by
    intro hfull
    refine (Int.zpow_le_iff_le_log (b := 2) (by decide) hpos).mp ?_
    rw [h, Nat.cast_ofNat, zpow_add₀ (by norm_num)]
    have : (2 : ℚ) ^ (52 : Int) ≤ m := by exact_mod_cast hfull
    gcongr
  have hq : max (ratioLog2 n d - 52) (-1074) = q := by
    rw [ratioLog2_eq hn hd]
    have := hm.least
    rcases hm.full with hfull | hfull
    · omega
    · have := hlower hfull
      omega
  obtain ⟨hs, hscale⟩ := scaleBinary_spec n hd (-q)
  have hs' : ((scaleBinary n d (-q)).2 : ℚ) ≠ 0 := by exact_mod_cast hs.ne'
  have hwhole : (scaleBinary n d (-q)).1 = m * (scaleBinary n d (-q)).2 := by
    rw [h, mul_assoc, ← zpow_add₀ (by norm_num), add_neg_cancel, zpow_zero, mul_one,
      div_eq_iff hs'] at hscale
    exact_mod_cast hscale
  rw [nearestMagnitude, if_neg hn.ne']
  change min infinityMagnitude ((max (ratioLog2 n d - 52) (-1074) + 1074).toNat * exponentUnit +
    divNearest (scaleBinary n d (-max (ratioLog2 n d - 52) (-1074))).1
      (scaleBinary n d (-max (ratioLog2 n d - 52) (-1074))).2) = _
  rw [hq, hwhole, divNearest_mul hs, formatMagnitude]

end Double

/-! ## Decimals -/

namespace Decimal

/-- The number that a decimal stands for. -/
def value (x : Decimal) : ℚ := x.digits * 10 ^ x.exponent

@[simp] theorem normalize_of_zero (e : Int) : normalize ⟨0, e⟩ = ⟨0, 0⟩ := by
  rw [normalize, if_pos rfl]

/-- A zero at the end of the digits is left out. -/
@[simp] theorem normalize_mul_ten (n : Nat) (e : Int) :
    normalize ⟨n * 10, e⟩ = normalize ⟨n, e + 1⟩ := by
  by_cases hn : n = 0
  · rw [hn, Nat.zero_mul, normalize_of_zero, normalize_of_zero]
  · rw [normalize, if_neg (by simpa using hn), if_pos (Nat.mul_mod_left n 10),
      Nat.mul_div_cancel n (by decide)]

/-- Zeros at the end of the digits are left out. -/
theorem normalize_mul_pow (n k : Nat) (e : Int) :
    normalize ⟨n * 10 ^ k, e⟩ = normalize ⟨n, e + k⟩ := by
  induction k generalizing e with
  | zero => simp
  | succ k ih =>
      rw [Nat.pow_succ, ← Nat.mul_assoc, normalize_mul_ten, ih]
      congr 2
      omega

@[simp] theorem normalize_normalize (x : Decimal) : x.normalize.normalize = x.normalize := by
  fun_induction normalize x with
  | case1 x h => exact normalize_of_zero 0
  | case2 x h h' ih => exact ih
  | case3 x h h' => rw [normalize, if_neg h, if_neg h']

/-- The number that a decimal stands for does not depend on the zeros at its end. -/
theorem value_normalize (x : Decimal) : x.normalize.value = x.value := by
  fun_induction normalize x with
  | case1 x h => simp [value, h]
  | case2 x h h' ih =>
      have hx : ((x.digits / 10 : Nat) : ℚ) * 10 = x.digits := by
        have : x.digits / 10 * 10 = x.digits := by omega
        exact_mod_cast this
      rw [ih, value, value, ← hx, zpow_add_one₀ (by norm_num)]
      ring
  | case3 x h h' => rfl

/-- Decimals that differ in zeros at their end have the same nearest double. -/
theorem magnitude_congr {x y : Decimal} (h : x.normalize = y.normalize) :
    x.magnitude = y.magnitude := by
  rw [magnitude, magnitude, h]

@[simp] theorem magnitude_normalize (x : Decimal) : x.normalize.magnitude = x.magnitude :=
  magnitude_congr x.normalize_normalize

/-- The first digit stands at most for a power of ten that the bits of the digits tell. -/
theorem value_lt (x : Decimal) : x.value < 10 ^ (x.exponent + (x.digits.log2 / 3 : Nat) + 1) := by
  have hlog : x.digits < 10 ^ (x.digits.log2 / 3 + 1) := by
    calc x.digits < 2 ^ (x.digits.log2 + 1) := Nat.lt_log2_self
      _ ≤ 2 ^ (3 * (x.digits.log2 / 3 + 1)) := Nat.pow_le_pow_right (by decide) (by omega)
      _ = 8 ^ (x.digits.log2 / 3 + 1) := by rw [Nat.pow_mul]
      _ ≤ 10 ^ (x.digits.log2 / 3 + 1) := Nat.pow_le_pow_left (by decide) _
  have hlog : (x.digits : ℚ) < 10 ^ (((x.digits.log2 / 3 : Nat) : Int) + 1) := by
    exact_mod_cast hlog
  calc x.value < 10 ^ (((x.digits.log2 / 3 : Nat) : Int) + 1) * 10 ^ x.exponent := by
        rw [value]; gcongr
    _ = 10 ^ (x.exponent + (x.digits.log2 / 3 : Nat) + 1) := by
        rw [← zpow_add₀ (by norm_num)]; congr 1; omega

/-- The least positive double is no less than `10 ^ (-400)`. -/
theorem two_zpow_le_ten_zpow : (2 : ℚ) ^ (1074 : Int) ≤ 10 ^ (400 : Int) := by
  have h : 2 ^ 1074 ≤ 10 ^ 400 := by decide +kernel
  exact_mod_cast h

/-- A decimal of a number that a binary64 holds rounds to it. -/
theorem magnitude_of_value {x : Decimal} {m : Nat} {q : Int} (hm : Double.IsFormat m q)
    (h : x.value = m * 2 ^ q) :
    x.magnitude = min Double.infinityMagnitude (Double.formatMagnitude m q) := by
  have hm' : (0 : ℚ) < m := by exact_mod_cast hm.pos
  have hv : x.normalize.value = m * 2 ^ q := by rw [value_normalize, h]
  have hlower : (10 : ℚ) ^ (-400 : Int) ≤ x.normalize.value := by
    calc (10 : ℚ) ^ (-400 : Int) ≤ 2 ^ (-1074 : Int) := by
          rw [zpow_neg, zpow_neg]
          exact inv_anti₀ (by positivity) two_zpow_le_ten_zpow
      _ ≤ 2 ^ q := zpow_le_zpow_right₀ (by norm_num) hm.least
      _ ≤ m * 2 ^ q := le_mul_of_one_le_left (by positivity) (by exact_mod_cast hm.pos)
      _ = x.normalize.value := hv.symm
  have hupper : x.normalize.value < 10 ^ (400 : Int) := by
    calc x.normalize.value = m * 2 ^ q := hv
      _ < 2 ^ (53 : Int) * 2 ^ q := by
          have : (m : ℚ) < 2 ^ (53 : Int) := by exact_mod_cast hm.lt
          gcongr
      _ = 2 ^ (53 + q) := by rw [← zpow_add₀ (by norm_num)]
      _ ≤ 2 ^ (1074 : Int) :=
          zpow_le_zpow_right₀ (by norm_num) (by have := hm.greatest; omega)
      _ ≤ 10 ^ (400 : Int) := two_zpow_le_ten_zpow
  have hdigits : x.normalize.digits ≠ 0 := by
    intro hz
    rw [value, hz, Nat.cast_zero, zero_mul] at hv
    have : (0 : ℚ) < m * 2 ^ q := by positivity
    exact absurd hv this.ne
  rw [magnitude]
  dsimp only
  rw [if_neg hdigits, if_neg, if_neg]
  · obtain ⟨hs, hscale⟩ := scaleDecimal_spec x.normalize.digits Nat.one_pos x.normalize.exponent
    refine Double.nearestMagnitude_of_eq hs hm ?_
    rw [hscale, Nat.cast_one, div_one, ← hv, value]
  · intro hsmall
    have := hlower.trans_lt x.normalize.value_lt
    rw [zpow_lt_zpow_iff_right₀ (by norm_num)] at this
    omega
  · intro hlarge
    have hone : (1 : ℚ) ≤ x.normalize.digits := by exact_mod_cast Nat.one_le_iff_ne_zero.mpr hdigits
    have : (10 : ℚ) ^ x.normalize.exponent < 10 ^ (400 : Int) :=
      (le_mul_of_one_le_left (by positivity) hone).trans_lt hupper
    rw [zpow_lt_zpow_iff_right₀ (by norm_num)] at this
    omega

end Decimal

/-! ## The shortest decimal -/

namespace Double

/-- The exact decimal of a double stands for it. -/
theorem value_expansion (m : Nat) (q : Int) : (expansion m q).value = m * 2 ^ q := by
  rw [expansion]
  split
  case isTrue h =>
    obtain ⟨k, rfl⟩ := Int.eq_ofNat_of_zero_le h
    rw [Decimal.value, Int.toNat_natCast, Nat.pow_eq, zpow_natCast]
    push_cast
    ring
  case isFalse h =>
    obtain ⟨k, hk⟩ : ∃ k : Nat, q = -(k : Int) := ⟨(-q).toNat, by omega⟩
    subst hk
    rw [Decimal.value, neg_neg, Int.toNat_natCast, Nat.pow_eq, zpow_neg, zpow_neg, zpow_natCast,
      zpow_natCast]
    have hten : (10 : ℚ) ^ k = 2 ^ k * 5 ^ k := by rw [← mul_pow]; norm_num
    push_cast
    rw [hten]
    field_simp

section Finite

variable {x : Double} (hf : x.magnitude < infinityMagnitude)
include hf

/-- The parts of a finite number say what its bits say. -/
theorem isFormat_parts (hz : x.magnitude ≠ 0) : IsFormat x.parts.1 x.parts.2 := by
  rw [infinityMagnitude, exponentUnit] at hf
  rw [parts, exponentUnit]
  split
  · constructor <;> dsimp only <;> omega
  · constructor <;> dsimp only <;> omega

theorem formatMagnitude_parts : formatMagnitude x.parts.1 x.parts.2 = x.magnitude := by
  rw [infinityMagnitude, exponentUnit] at hf
  rw [parts, exponentUnit]
  split
  · rw [formatMagnitude, exponentUnit]
    dsimp only
    omega
  · rw [formatMagnitude, exponentUnit]
    dsimp only
    omega

/-- The decimal that a finite number is written with rounds to the number. -/
theorem magnitude_shortest : x.shortest.magnitude = x.magnitude := by
  unfold shortest
  split
  case isTrue hz =>
    rw [show x.magnitude = 0 by simpa [isZero] using hz]
    decide +kernel
  case isFalse hz =>
    split
    case h_1 c hc =>
      rw [Decimal.magnitude_normalize]
      simpa using List.find?_some hc
    case h_2 =>
      have hp := isFormat_parts hf (by simpa [isZero] using hz)
      rw [Decimal.magnitude_normalize, Decimal.magnitude_of_value hp (value_expansion _ _),
        formatMagnitude_parts hf, min_eq_right hf.le]

end Finite

end Double

end DeviceCode
