import DeviceCode.Proofs.Text.Utf8

/-!
# The order of texts and of their bytes

The leading byte of a character tells how many bytes there are and has the highest bits of the
character, and each follower has the next six.  So a greater character has greater bytes whatever
comes behind, and texts are in the order of their bytes (`toUTF8_lt_iff`).
-/

namespace DeviceCode

namespace Utf8

/-! ## Bytes of a character -/

/-- The bytes of a code point, by their number. -/
inductive Encodes : Nat → List UInt8 → Prop
  | one {v : Nat} (h : v ≤ 0x7f) : Encodes v [.ofNat v]
  | two {v : Nat} (h : 0x7f < v) (h' : v ≤ 0x7ff) :
    Encodes v [.ofNat (v / 64 % 32 + 0xc0), .ofNat (v % 64 + 0x80)]
  | three {v : Nat} (h : 0x7ff < v) (h' : v ≤ 0xffff) :
    Encodes v [.ofNat (v / 4096 % 16 + 0xe0), .ofNat (v / 64 % 64 + 0x80), .ofNat (v % 64 + 0x80)]
  | four {v : Nat} (h : 0xffff < v) (h' : v < 0x110000) :
    Encodes v [.ofNat (v / 262144 % 8 + 0xf0), .ofNat (v / 4096 % 64 + 0x80),
      .ofNat (v / 64 % 64 + 0x80), .ofNat (v % 64 + 0x80)]

/-- Characters are encoded in one to four bytes. -/
theorem encodes_utf8EncodeChar (c : Char) : Encodes c.val.toNat (String.utf8EncodeChar c) := by
  have hmax : c.val.toNat < 0x110000 := by
    rcases c.valid with hv | hv
    · exact Nat.lt_trans hv (by decide)
    · exact hv.2
  rw [String.utf8EncodeChar]
  generalize c.val.toNat = v at hmax
  split
  case isTrue h => exact .one h
  case isFalse hone =>
    split
    case isTrue h => exact .two (Nat.lt_of_not_le hone) h
    case isFalse htwo =>
      split
      case isTrue h => exact .three (Nat.lt_of_not_le htwo) h
      case isFalse hthree => exact .four (Nat.lt_of_not_le hthree) hmax

/-- Bytes are compared by the numbers that they are made of. -/
theorem ofNat_cons_lt_cons {n k : Nat} (hn : n < 256) (hk : k < 256) {r s : List UInt8} :
    UInt8.ofNat n :: r < UInt8.ofNat k :: s ↔ n < k ∨ n = k ∧ r < s := by
  rw [List.cons_lt_cons_iff, UInt8.lt_iff_toNat_lt, ← UInt8.toNat_inj,
    UInt8.toNat_ofNat_of_lt' hn, UInt8.toNat_ofNat_of_lt' hk]

/-- The bytes of a greater code point are greater, whatever follows either. -/
theorem Encodes.append_lt_append {v w : Nat} {bs cs : List UInt8} (hv : Encodes v bs)
    (hw : Encodes w cs) (h : v < w) (r s : List UInt8) : bs ++ r < cs ++ s := by
  -- the bytes take six bits each, and a leading one has room for what is left of a code point
  have hdiv (n : Nat) : n / 64 / 64 = n / 4096 ∧ n / 4096 / 64 = n / 262144 ∧
      (n < 0x110000 → n / 262144 % 8 = n / 262144) :=
    ⟨Nat.div_div_eq_div_mul n 64 64, Nat.div_div_eq_div_mul n 4096 64, by omega⟩
  have hdivv := hdiv v
  have hdivw := hdiv w
  cases hv
  all_goals
    cases hw
    all_goals
      simp (disch := omega) only [List.cons_append, List.nil_append, ofNat_cons_lt_cons]
      omega

/-! ## Bytes of a text -/

theorem utf8EncodeChar_ne_nil (c : Char) : String.utf8EncodeChar c ≠ [] := by
  obtain ⟨b, bytes, _, hc, _⟩ := exists_followers c
  rw [hc]
  exact List.cons_ne_nil _ _

/-- The first characters that differ decide, and so do their bytes. -/
theorem flatMap_lt_of_lt {cs ds : List Char} (h : cs < ds) :
    cs.flatMap String.utf8EncodeChar < ds.flatMap String.utf8EncodeChar := by
  induction h with
  | @nil d ds =>
      obtain ⟨b, bytes, hd⟩ := List.exists_cons_of_ne_nil (utf8EncodeChar_ne_nil d)
      rw [List.flatMap_cons, hd]
      exact List.nil_lt_cons _ _
  | @rel c cs d ds h =>
      rw [List.flatMap_cons, List.flatMap_cons]
      exact (encodes_utf8EncodeChar c).append_lt_append (encodes_utf8EncodeChar d) h _ _
  | @cons c cs ds _ ih =>
      rw [List.flatMap_cons, List.flatMap_cons]
      exact List.append_left_lt ih

end Utf8

/-- Texts are in the order of their bytes. -/
theorem toUTF8_lt_iff {a b : String} : a.toUTF8.data.toList < b.toUTF8.data.toList ↔ a < b := by
  have hlt : ∀ {a b : String}, a < b → a.toUTF8.data.toList < b.toUTF8.data.toList := by
    intro a b h
    rw [toUTF8_eq_flatMap, toUTF8_eq_flatMap]
    exact Utf8.flatMap_lt_of_lt (String.lt_iff.mp h)
  refine ⟨fun h => Decidable.byContradiction fun hn => ?_, hlt⟩
  by_cases he : b = a
  · exact List.lt_irrefl _ (he ▸ h)
  · exact List.lt_asymm h (hlt (Std.lt_of_le_of_ne (String.not_lt.mp hn) he))

end DeviceCode
