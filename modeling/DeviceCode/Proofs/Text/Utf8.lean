import Mathlib.Data.List.Forall2
import DeviceCode.Text.Utf8

/-!
# Characters in bytes

The bytes that a character is encoded in are a leading byte and as many followers as it asks for,
each in its range.  So the search for a fault passes over them, and finds none in a text
(`fault?_toUTF8`).
-/

namespace DeviceCode

theorem toUTF8_eq_flatMap (text : String) :
    text.toUTF8.data.toList = text.toList.flatMap String.utf8EncodeChar := by
  rw [String.toUTF8_eq_toByteArray, ← String.utf8Encode_toList, List.utf8Encode,
    List.data_toByteArray]

/-- A text is read back from its bytes. -/
theorem fromUTF8?_toUTF8 (text : String) :
    String.fromUTF8? ⟨text.toUTF8.data.toList.toArray⟩ = some text := by
  rw [Array.toArray_toList, String.fromUTF8?, String.toUTF8_eq_toByteArray,
    dif_pos text.isValidUTF8]
  rfl

namespace Utf8

/-! ## Followers -/

/-- A follower is in the range that the leading byte allows for it. -/
def InRange (range : Nat × Nat) (b : UInt8) : Prop := range.1 ≤ b.toNat ∧ b.toNat ≤ range.2

/-- Followers in their ranges complete a character. -/
theorem following_append {ranges : List (Nat × Nat)} {bytes : List UInt8}
    (h : List.Forall₂ InRange ranges bytes) (r : List UInt8) (n : Nat) :
    following ranges (bytes ++ r) n = .complete r := by
  induction h generalizing n with
  | nil => rfl
  | cons hb _ ih => exact (if_pos hb).trans (ih (n + 1))

/-- The byte after the leading one, or a later one, with six bits of the character. -/
def follower (n : Nat) : UInt8 := .ofNat (n % 64 + 0x80)

/-- A follower has six bits of the character. -/
theorem inRange_follower {lo hi n : Nat} :
    InRange (lo, hi) (follower n) ↔ lo ≤ n % 64 + 0x80 ∧ n % 64 + 0x80 ≤ hi := by
  have hsize : n % 64 + 0x80 < UInt8.size := by
    have hn := Nat.mod_lt n (show 64 > 0 by decide)
    change n % 64 + 0x80 < 256
    omega
  rw [InRange, follower, UInt8.toNat_ofNat_of_lt' hsize]

theorem inRange_any (n : Nat) : InRange (0x80, 0xbf) (follower n) :=
  inRange_follower.mpr (by omega)

/-! ## Leading bytes -/

variable {v : Nat}

theorem followers?_two (h : 0x7f < v) (h' : v ≤ 0x7ff) :
    followers? (v / 64 % 32 + 0xc0) = some [(0x80, 0xbf)] := by
  rw [followers?, if_neg (by omega), if_neg (by omega), if_pos (by omega)]

/-- Three bytes: the first follower is narrowed for short forms and for surrogates. -/
theorem followers?_three (h : 0x7ff < v) (h' : v ≤ 0xffff) (hvalid : v.isValidChar) :
    ∃ range, followers? (v / 4096 % 16 + 0xe0) = some [range, (0x80, 0xbf)] ∧
      InRange range (follower (v / 64)) := by
  by_cases he0 : v / 4096 % 16 = 0
  · refine ⟨(0xa0, 0xbf), by rw [he0]; rfl, inRange_follower.mpr ?_⟩
    omega
  · by_cases hed : v / 4096 % 16 = 13
    · refine ⟨(0x80, 0x9f), by rw [hed]; rfl, inRange_follower.mpr ?_⟩
      rcases hvalid with hvalid | hvalid
      · omega
      · omega
    · refine ⟨(0x80, 0xbf), ?_, inRange_any _⟩
      rw [followers?, if_neg (by omega), if_neg (by omega), if_neg (by omega), if_neg (by omega),
        if_neg (by omega), if_pos (by omega)]

/-- Four bytes: the first follower is narrowed for short forms and for the last code point. -/
theorem followers?_four (h : 0xffff < v) (hvalid : v.isValidChar) :
    ∃ range, followers? (v / 262144 % 8 + 0xf0) = some [range, (0x80, 0xbf), (0x80, 0xbf)] ∧
      InRange range (follower (v / 4096)) := by
  have hv : v < 0x110000 := by
    rcases hvalid with hvalid | hvalid
    · omega
    · exact hvalid.2
  by_cases hf0 : v / 262144 % 8 = 0
  · refine ⟨(0x90, 0xbf), by rw [hf0]; rfl, inRange_follower.mpr ?_⟩
    omega
  · by_cases hf4 : v / 262144 % 8 = 4
    · refine ⟨(0x80, 0x8f), by rw [hf4]; rfl, inRange_follower.mpr ?_⟩
      omega
    · refine ⟨(0x80, 0xbf), ?_, inRange_any _⟩
      rw [followers?, if_neg (by omega), if_neg (by omega), if_neg (by omega), if_neg (by omega),
        if_neg (by omega), if_neg (by omega), if_neg (by omega), if_pos (by omega)]

/-! ## Texts -/

/-- A character is encoded in a leading byte and its followers. -/
theorem exists_followers (c : Char) : ∃ b bytes ranges, String.utf8EncodeChar c = b :: bytes ∧
    followers? b.toNat = some ranges ∧ List.Forall₂ InRange ranges bytes := by
  have hlead : ∀ n < 256, (UInt8.ofNat n).toNat = n := fun n hn => UInt8.toNat_ofNat_of_lt' hn
  have hvalid : c.val.toNat.isValidChar := c.valid
  rw [String.utf8EncodeChar]
  generalize c.val.toNat = v at hvalid
  split
  case isTrue h =>
    refine ⟨_, _, [], rfl, ?_, .nil⟩
    rw [hlead _ (by omega), followers?, if_pos (by omega)]
  case isFalse hone =>
    split
    case isTrue htwo =>
      refine ⟨_, _, _, rfl, ?_, .cons (inRange_any v) .nil⟩
      rw [hlead _ (by omega)]
      exact followers?_two (by omega) htwo
    case isFalse htwo =>
      split
      case isTrue hthree =>
        obtain ⟨range, hrange, hfirst⟩ := followers?_three (by omega) hthree hvalid
        refine ⟨_, _, _, rfl, ?_, .cons hfirst (.cons (inRange_any v) .nil)⟩
        rw [hlead _ (by omega), hrange]
      case isFalse hthree =>
        obtain ⟨range, hrange, hfirst⟩ := followers?_four (by omega) hvalid
        refine ⟨_, _, _, rfl, ?_,
          .cons hfirst (.cons (inRange_any (v / 64)) (.cons (inRange_any v) .nil))⟩
        rw [hlead _ (by omega), hrange]

theorem faultFrom?_append (c : Char) (r : List UInt8) (index : Nat) :
    ∃ index', faultFrom? index (String.utf8EncodeChar c ++ r) = faultFrom? index' r := by
  obtain ⟨b, bytes, ranges, hc, hranges, hbytes⟩ := exists_followers c
  refine ⟨index + ranges.length + 1, ?_⟩
  rw [hc, List.cons_append, faultFrom?]
  split
  case h_1 hnone => cases hranges.symm.trans hnone
  case h_2 ranges' hsome =>
    obtain rfl := Option.some.inj (hranges.symm.trans hsome)
    have hfollowing := following_append hbytes r 0
    split
    case h_1 rest hrest =>
      exact congrArg _ (Following.complete.inj (hrest.symm.trans hfollowing))
    case h_2 hwrong => cases hfollowing.symm.trans hwrong
    case h_3 hended => cases hfollowing.symm.trans hended

theorem faultFrom?_flatMap (cs : List Char) (index : Nat) :
    faultFrom? index (cs.flatMap String.utf8EncodeChar) = none := by
  induction cs generalizing index with
  | nil => rw [List.flatMap_nil, faultFrom?]
  | cons c cs ih =>
      obtain ⟨index', h⟩ := faultFrom?_append c (cs.flatMap String.utf8EncodeChar) index
      rw [List.flatMap_cons, h]
      exact ih index'

/-- The bytes of a text have no fault. -/
theorem fault?_toUTF8 (text : String) : fault? text.toUTF8.data.toList = none := by
  rw [toUTF8_eq_flatMap]
  exact faultFrom?_flatMap text.toList 0

end Utf8

end DeviceCode
