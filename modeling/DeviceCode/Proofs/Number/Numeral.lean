import DeviceCode.Number.Numeral
import DeviceCode.Proofs.Basic
import DeviceCode.Proofs.Number.Decimal

/-!
# Numerals

The written form of a decimal is made of digits before and behind a point and an exponent
(`decimalText_eq`), and is read as a decimal with the same digits but for zeros at their end.  So a
number is read back from its written form (`read?_text`); only the bits of a NaN are lost.
-/

namespace DeviceCode

/-! ## Whole numbers -/

theorem isDigit_toDigits {n : Nat} {c : Char} (h : c ∈ Nat.toDigits 10 n) : c.isDigit :=
  Nat.isDigit_of_mem_toDigits (by decide) (by decide) h

theorem ne_of_isDigit {c d : Char} (hc : c.isDigit) (hd : d.isDigit = false) : c ≠ d := by
  rintro rfl
  rw [hc] at hd
  cases hd

/-- The digits of a whole number; there is a sign in front of them if it is negative. -/
theorem toList_repr_int (z : Int) :
    (∃ c ds, z.repr.toList = c :: ds ∧ z = Nat.ofDigitChars 10 (c :: ds) 0 ∧
        (c :: ds).all Char.isDigit ∧ c ≠ '-' ∧ c ≠ '+') ∨
      ∃ ds, z.repr.toList = '-' :: ds ∧ z = -Nat.ofDigitChars 10 ds 0 ∧ ds ≠ [] ∧
        ds.all Char.isDigit := by
  cases z with
  | ofNat n =>
      obtain ⟨c, ds, hc⟩ := List.exists_cons_of_ne_nil (Nat.toDigits_ne_nil (n := n) (b := 10))
      have hd : ∀ d ∈ c :: ds, d.isDigit := fun d hd => isDigit_toDigits (hc ▸ hd)
      have hc' := hd c List.mem_cons_self
      refine .inl ⟨c, ds, Nat.toList_repr.trans hc, ?_, List.all_eq_true.mpr hd,
        ne_of_isDigit hc' rfl, ne_of_isDigit hc' rfl⟩
      rw [← hc, Nat.ofDigitChars_ten_toDigits]
      rfl
  | negSucc n =>
      refine .inr ⟨Nat.toDigits 10 (n + 1), ?_, ?_, Nat.toDigits_ne_nil,
        List.all_eq_true.mpr fun _ => isDigit_toDigits⟩
      · rw [Int.repr, String.toList_append, Nat.toList_repr]
        rfl
      · rw [Nat.ofDigitChars_ten_toDigits]
        rfl

namespace Double

/-! ## Decimals -/

/-- What a numeral is made of: digits before and behind a point, and an exponent. -/
structure Numeral where
  whole : List Char
  fraction : List Char
  exponent : Option Int

namespace Numeral

def exponentText (n : Numeral) : List Char := n.exponent.elim [] fun k => 'e' :: k.repr.toList

/-- How a numeral is written: whole digits, a point if there are more, and an exponent if there is
one. -/
def text (n : Numeral) : List Char :=
  n.whole ++ (if n.fraction = [] then [] else '.' :: n.fraction) ++ n.exponentText

/-- The decimal that a numeral stands for. -/
def decimal (n : Numeral) : Decimal :=
  ⟨Nat.ofDigitChars 10 (n.whole ++ n.fraction) 0, n.exponent.getD 0 - n.fraction.length⟩

/-- A numeral is proper if it has whole digits, and digits only. -/
structure IsProper (n : Numeral) : Prop where
  nonempty : n.whole ≠ []
  whole : ∀ c ∈ n.whole, c.isDigit
  fraction : ∀ c ∈ n.fraction, c.isDigit

theorem readExponent?_exponentText (n : Numeral) :
    readExponent? n.exponentText = some (n.exponent.getD 0) := by
  rw [exponentText]
  cases n.exponent with
  | none => rfl
  | some k =>
      change readExponent? ('e' :: k.repr.toList) = some k
      rcases toList_repr_int k with ⟨c, ds, ht, hk, hd, h₁, h₂⟩ | ⟨ds, ht, hk, hne, hd⟩
      · rw [ht]
        simp [readExponent?, h₁, h₂, hd, hk]
      · rw [ht]
        simp [readExponent?, hne, hd, hk]

/-- A proper numeral is read as the decimal of its digits. -/
theorem readDecimal?_text {n : Numeral} (hn : n.IsProper) :
    readDecimal? n.text = some n.decimal := by
  have hexponent : ∀ c ∈ n.exponentText.head?, c = 'e' := by
    rw [exponentText]
    cases n.exponent <;> simp
  have hdigit : ∀ c ∈ n.exponentText.head?, c.isDigit = false := by
    intro c hc
    rw [hexponent c hc]
    rfl
  rw [readDecimal?, text]
  by_cases hf : n.fraction = []
  · obtain ⟨htake, hdrop⟩ := span_append hn.whole hdigit
    simp only [hf, if_true, List.append_nil, htake, hdrop]
    split
    case h_1 r hr => exact absurd (hexponent '.' (by rw [hr]; rfl)) (by decide)
    case h_2 => simp [hn.nonempty, readExponent?_exponentText, decimal, hf]
  · obtain ⟨htake, hdrop⟩ := span_append hn.fraction hdigit
    obtain ⟨htake', hdrop'⟩ := span_append (r := '.' :: (n.fraction ++ n.exponentText)) hn.whole
      (by simp)
    simp [hf, htake, hdrop, htake', hdrop', hn.nonempty, readExponent?_exponentText, decimal]

end Numeral

/-! ## Written forms -/

section Written

variable {ds : List Char}

theorem ofDigitChars_zero_cons (ds : List Char) :
    Nat.ofDigitChars 10 ('0' :: ds) 0 = Nat.ofDigitChars 10 ds 0 := rfl

/-- In positional notation the digits stand around the point, with zeros where there are none. -/
theorem exists_numeral_positional (hne : ds ≠ []) (hd : ∀ c ∈ ds, c.isDigit) (k : Int) :
    ∃ n : Numeral, n.IsProper ∧ n.text = positional ds k ∧
      n.decimal.normalize =
        (Decimal.mk (Nat.ofDigitChars 10 ds 0) (k + 1 - ds.length)).normalize := by
  have hzero : ∀ j, ∀ c ∈ List.replicate j '0', c.isDigit := by
    intro j c hc
    rw [List.eq_of_mem_replicate hc]
    rfl
  rw [positional]
  by_cases hk : k < 0
  · -- zeros between the point and the digits
    refine ⟨⟨['0'], List.replicate (-k - 1).toNat '0' ++ ds, none⟩, ⟨nofun, hzero 1, ?_⟩, ?_, ?_⟩
    · intro c hc
      exact (List.mem_append.mp hc).elim (hzero _ c) (hd c)
    · simp [Numeral.text, Numeral.exponentText, hk, hne]
    · simp [Numeral.decimal, Nat.ofDigitChars_append, ofDigitChars_zero_cons,
        Nat.ofDigitChars_replicate_zero]
      congr 2
      omega
  · rw [if_neg hk]
    by_cases hlen : ds.length ≤ k.toNat + 1
    · -- zeros between the digits and the point
      refine ⟨⟨ds ++ List.replicate (k.toNat + 1 - ds.length) '0', ['0'], none⟩,
        ⟨by simp [hne], ?_, hzero 1⟩, ?_, ?_⟩
      · intro c hc
        exact (List.mem_append.mp hc).elim (hd c) (hzero _ c)
      · simp [Numeral.text, Numeral.exponentText, hlen]
      · have hdigits : Nat.ofDigitChars 10
            (ds ++ List.replicate (k.toNat + 1 - ds.length) '0' ++ ['0']) 0 =
            Nat.ofDigitChars 10 ds 0 * 10 ^ (k.toNat + 1 - ds.length + 1) := by
          rw [List.append_assoc, ← List.replicate_succ', Nat.ofDigitChars_append,
            Nat.ofDigitChars_replicate_zero, Nat.mul_comm]
        rw [Numeral.decimal, hdigits, Decimal.normalize_mul_pow]
        congr 2
        simp
        omega
    · have hwhole : (ds.take (k.toNat + 1)).length = k.toNat + 1 := by
        rw [List.length_take]
        omega
      refine ⟨⟨ds.take (k.toNat + 1), ds.drop (k.toNat + 1), none⟩,
        ⟨?_, fun c hc => hd c (List.mem_of_mem_take hc),
          fun c hc => hd c (List.mem_of_mem_drop hc)⟩, ?_, ?_⟩
      · exact List.ne_nil_of_length_pos (by rw [hwhole]; omega)
      · have hdrop : ds.drop (k.toNat + 1) ≠ [] := by simp; omega
        simp [Numeral.text, Numeral.exponentText, hlen, hdrop]
      · rw [Numeral.decimal, List.take_append_drop]
        congr 2
        simp
        omega

/-- In scientific notation one digit stands in front of the point. -/
theorem exists_numeral_scientific (hne : ds ≠ []) (hd : ∀ c ∈ ds, c.isDigit) (k : Int) :
    ∃ n : Numeral, n.IsProper ∧ n.text = scientific ds k ∧
      n.decimal = Decimal.mk (Nat.ofDigitChars 10 ds 0) (k + 1 - ds.length) := by
  obtain ⟨c, r, rfl⟩ := List.exists_cons_of_ne_nil hne
  refine ⟨⟨[c], r, some k⟩, ⟨nofun, ?_, fun d h => hd d (List.mem_cons_of_mem _ h)⟩, ?_, ?_⟩
  · rintro d hd'
    exact hd d (by simp_all)
  · cases r with
    | nil => rfl
    | cons d r => rfl
  · rw [Numeral.decimal]
    congr 1
    simp

/-- The written form of a decimal is a numeral for the same number. -/
theorem exists_numeral_decimalText (x : Decimal) :
    ∃ n : Numeral, n.IsProper ∧ n.text = decimalText x ∧ n.decimal.normalize = x.normalize := by
  have hd : ∀ c ∈ Nat.toDigits 10 x.digits, c.isDigit := fun _ => isDigit_toDigits
  have hx : x = ⟨Nat.ofDigitChars 10 (Nat.toDigits 10 x.digits) 0,
      x.exponent + (Nat.toDigits 10 x.digits).length - 1 + 1 -
        (Nat.toDigits 10 x.digits).length⟩ := by
    rw [Nat.ofDigitChars_ten_toDigits, Int.sub_add_cancel, Int.add_sub_cancel]
  rw [decimalText]
  split
  · obtain ⟨n, hn, ht, hdec⟩ := exists_numeral_positional Nat.toDigits_ne_nil hd
      (x.exponent + (Nat.toDigits 10 x.digits).length - 1)
    exact ⟨n, hn, ht, by rw [hdec, ← hx]⟩
  · obtain ⟨n, hn, ht, hdec⟩ := exists_numeral_scientific Nat.toDigits_ne_nil hd
      (x.exponent + (Nat.toDigits 10 x.digits).length - 1)
    exact ⟨n, hn, ht, by rw [hdec, ← hx]⟩

end Written

/-! ## Numbers -/

/-- The number with the NaN that arithmetic produces for every NaN. -/
def canonical (x : Double) : Double := if x.isNaN then ofMagnitude false quietMagnitude else x

theorem toLower_of_isDigit {c : Char} (hc : c.isDigit) : c.toLower = c := by
  have hle : c.val ≤ '9'.val := of_decide_eq_true (Bool.and_eq_true_iff.mp hc).2
  have hupper : ¬(c.val ≥ 'A'.val ∧ c.val ≤ 'Z'.val) := fun h =>
    absurd (UInt32.le_trans h.1 hle) (by decide)
  exact dif_neg hupper

/-- A number that begins with a digit is no name. -/
theorem readMagnitude?_numeral {n : Numeral} (hn : n.IsProper) :
    readMagnitude? n.text = some n.decimal.magnitude := by
  obtain ⟨c, r, hc⟩ := List.exists_cons_of_ne_nil hn.nonempty
  have hd : c.isDigit := hn.whole c (by rw [hc]; exact List.mem_cons_self)
  have hne : ∀ w d, d.isDigit = false → n.text.map Char.toLower ≠ d :: w := by
    intro w d hd' he
    rw [Numeral.text, hc] at he
    simp only [List.cons_append, List.map_cons, List.cons.injEq, toLower_of_isDigit hd] at he
    exact ne_of_isDigit hd hd' he.1
  rw [readMagnitude?, if_neg, if_neg, Numeral.readDecimal?_text hn, Option.map_some]
  · exact hne _ 'n' rfl
  · rintro (he | he)
    · exact hne _ 'i' rfl he
    · exact hne _ 'i' rfl he

theorem readMagnitude?_decimalText {x : Double} (hf : x.magnitude < infinityMagnitude) :
    readMagnitude? (decimalText x.shortest) = some x.magnitude := by
  obtain ⟨n, hn, ht, hdec⟩ := exists_numeral_decimalText x.shortest
  rw [← ht, readMagnitude?_numeral hn, Decimal.magnitude_congr hdec, magnitude_shortest hf]

/-- A number is read back from its written form, but for the bits of a NaN. -/
theorem read?_text (x : Double) : read? x.text.toList = some x.canonical := by
  have hsign : ∀ s, (∀ c ∈ s.head?, c ≠ '-' ∧ c ≠ '+') → readMagnitude? s = some x.magnitude →
      read? (if x.isNegative then '-' :: s else s) = some x := by
    intro s hs hm
    cases hx : x.isNegative with
    | true =>
        rw [if_pos rfl, read?, hm, Option.map_some, ← hx, ofMagnitude_magnitude]
    | false =>
        rw [if_neg nofun, read?.eq_def]
        split
        case h_1 => exact absurd rfl (hs _ rfl).1
        case h_2 => exact absurd rfl (hs _ rfl).2
        case h_3 => rw [hm, Option.map_some, ← hx, ofMagnitude_magnitude]
  rw [text, canonical]
  cases hn : x.isNaN with
  | true =>
      rw [if_pos rfl, if_pos rfl]
      rfl
  | false =>
      simp only [Bool.false_eq_true, if_false, String.toList_ofList]
      cases hi : x.isInfinite with
      | true =>
          rw [if_pos rfl]
          refine hsign _ (by simp) ?_
          rw [of_decide_eq_true hi]
          rfl
      | false =>
          have hf : x.magnitude < infinityMagnitude := by
            simp only [isNaN, isInfinite, decide_eq_false_iff_not] at hn hi
            omega
          obtain ⟨n, hp, ht, -⟩ := exists_numeral_decimalText x.shortest
          obtain ⟨c, r, hc⟩ := List.exists_cons_of_ne_nil hp.nonempty
          have hd : c.isDigit := hp.whole c (by rw [hc]; exact List.mem_cons_self)
          simp only [Bool.false_eq_true, if_false]
          refine hsign _ ?_ (readMagnitude?_decimalText hf)
          rw [← ht, Numeral.text, hc]
          rintro _ ⟨⟩
          exact ⟨ne_of_isDigit hd rfl, ne_of_isDigit hd rfl⟩

end Double

end DeviceCode
