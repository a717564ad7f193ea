import Mathlib.Algebra.Ring.Nat
import Mathlib.Data.List.Basic
import DeviceCode.Binary.Wire
import DeviceCode.Proofs.Text.Utf8

/-!
# Values are read back from the wire

`Reads x s a` says that `x` reads the bytes `s`, whatever stands behind them, as the value `a`, and
takes no byte more.  Lengths are written in 64 bits, so it is about bytes whose number has 64 bits.

`Pins x s a` says that nothing else can be read: if `x` succeeds on bytes that go along with `s` as
far as both reach, they have all of `s` in front, and the value is `a`.  In particular `x` fails on
the bytes of `s` up to any place before its end.

Both compose along `>>=`, where the bytes are appended, and `Decodes` is the two together.
-/

namespace DeviceCode.Binary

variable {α β : Type}

/-- The bytes `s` are read as `a`, and those behind them are left. -/
def Reads (x : Take α) (s : Bytes) (a : α) : Prop :=
  s.length < 2 ^ 64 → ∀ rest, x (s ++ rest) = .ok (a, rest)

namespace Reads

theorem pure (a : α) : Reads (pure a) [] a := fun _ _ => rfl

theorem bind {x : Take α} {f : α → Take β} {s t : Bytes} {a : α} {b : β} (hx : Reads x s a)
    (hf : Reads (f a) t b) : Reads (x >>= f) (s ++ t) b := by
  intro hs rest
  rw [List.length_append] at hs
  rw [List.append_assoc]
  exact bind_eq_ok.mpr ⟨a, t ++ rest, hx (by omega) _, hf (by omega) rest⟩

/-- The last value that is read. -/
theorem bind_nil {x : Take α} {f : α → Take β} {s : Bytes} {a : α} {b : β} (hx : Reads x s a)
    (hf : Reads (f a) [] b) : Reads (x >>= f) s b := by
  have h := hx.bind hf
  rwa [List.append_nil] at h

theorem map {x : Take α} {s : Bytes} {a : α} (g : α → β) (hx : Reads x s a) :
    Reads (g <$> x) s (g a) := by
  rw [map_eq_pure_bind]
  exact hx.bind_nil (.pure _)

end Reads

/-- Of two sequences of bytes, one is the beginning of the other. -/
def Along (s t : Bytes) : Prop := s <+: t ∨ t <+: s

namespace Along

variable {s t u : Bytes}

/-- What goes along with the whole goes along with its front. -/
theorem left (h : Along (s ++ t) u) : Along s u :=
  h.elim (fun h => .inl ((List.prefix_append s t).trans h))
    fun h => List.prefix_or_prefix_of_prefix (List.prefix_append s t) h

/-- Two sequences with the same front go along if their backs do. -/
theorem right (h : Along (s ++ t) (s ++ u)) : Along t u :=
  h.imp (List.prefix_append_right_inj s).mp (List.prefix_append_right_inj s).mp

end Along

/-- Bytes that go along with `s` are read as `a`, and only if they have all of `s` in front. -/
def Pins (x : Take α) (s : Bytes) (a : α) : Prop :=
  ∀ t b r, x t = .ok (b, r) → Along s t → b = a ∧ t = s ++ r

namespace Pins

theorem pure (a : α) : Pins (pure a) [] a := by
  intro t b r h _
  cases h
  exact ⟨rfl, rfl⟩

theorem throw (f : Fault) (s : Bytes) (a : α) : Pins (throw f) s a := by
  intro t b r h
  cases h

/-- What the first pins, and then the second, both pin together. -/
theorem bind {x : Take α} {f : α → Take β} {s t : Bytes} {a : α} {b : β} (hx : Pins x s a)
    (hf : Pins (f a) t b) : Pins (x >>= f) (s ++ t) b := by
  intro u c r' h hu
  obtain ⟨a', r, h₁, h₂⟩ := bind_eq_ok.mp h
  obtain ⟨rfl, rfl⟩ := hx _ _ _ h₁ hu.left
  obtain ⟨rfl, rfl⟩ := hf _ _ _ h₂ hu.right
  exact ⟨rfl, (List.append_assoc _ _ _).symm⟩

theorem bind_nil {x : Take α} {f : α → Take β} {s : Bytes} {a : α} {b : β} (hx : Pins x s a)
    (hf : Pins (f a) [] b) : Pins (x >>= f) s b := by
  have h := hx.bind hf
  rwa [List.append_nil] at h

theorem map {x : Take α} {s : Bytes} {a : α} (g : α → β) (hx : Pins x s a) :
    Pins (g <$> x) s (g a) := by
  rw [map_eq_pure_bind]
  exact hx.bind_nil (.pure _)

end Pins

/-- The bytes `s` mean `a`: they are read as `a`, and as long as they go along nothing else is
read. -/
structure Decodes (x : Take α) (s : Bytes) (a : α) : Prop where
  reads : Reads x s a
  pins : Pins x s a

namespace Decodes

theorem pure (a : α) : Decodes (pure a) [] a := ⟨.pure a, .pure a⟩

theorem bind {x : Take α} {f : α → Take β} {s t : Bytes} {a : α} {b : β} (hx : Decodes x s a)
    (hf : Decodes (f a) t b) : Decodes (x >>= f) (s ++ t) b :=
  ⟨hx.reads.bind hf.reads, hx.pins.bind hf.pins⟩

theorem bind_nil {x : Take α} {f : α → Take β} {s : Bytes} {a : α} {b : β} (hx : Decodes x s a)
    (hf : Decodes (f a) [] b) : Decodes (x >>= f) s b :=
  ⟨hx.reads.bind_nil hf.reads, hx.pins.bind_nil hf.pins⟩

theorem map {x : Take α} {s : Bytes} {a : α} (g : α → β) (hx : Decodes x s a) :
    Decodes (g <$> x) s (g a) :=
  ⟨hx.reads.map g, hx.pins.map g⟩

end Decodes

theorem decodes_takeByte (b : UInt8) : Decodes takeByte [b] b := by
  refine ⟨fun _ _ => rfl, fun t c r h ht => ?_⟩
  cases t with
  | nil => cases h
  | cons d t =>
      cases h
      rcases ht with ht | ht
      · obtain ⟨rfl, -⟩ := List.cons_prefix_cons.mp ht
        exact ⟨rfl, rfl⟩
      · obtain ⟨rfl, -⟩ := List.cons_prefix_cons.mp ht
        exact ⟨rfl, rfl⟩

/-! ## Numbers -/

theorem toNat_ofNat_byte {n : Nat} (h : n < 256) : (UInt8.ofNat n).toNat = n :=
  UInt8.toNat_ofNat_of_lt' h

/-- A number is read if its bytes fit the width and the last of them is small enough. -/
theorem reads_takeNat {last width n : Nat} (hl : last < 128) (h : n < (last + 1) * 128 ^ width) :
    Reads (takeNat last (width + 1)) (putNat n) n := by
  induction width generalizing n with
  | zero =>
      have hn : n < 128 := by omega
      rw [putNat, if_pos hn, takeNat]
      refine (decodes_takeByte _).reads.bind_nil ?_
      rw [toNat_ofNat_byte (by omega), if_pos hn, if_neg (by omega)]
      exact .pure n
  | succ width ih =>
      rw [takeNat, putNat]
      by_cases hn : n < 128
      · rw [if_pos hn]
        refine (decodes_takeByte _).reads.bind_nil ?_
        rw [toNat_ofNat_byte (by omega), if_pos hn, if_neg (by omega)]
        exact .pure n
      · -- the byte has the lowest seven bits, the others are read with one byte less
        have hb : (UInt8.ofNat (n % 128 + 128)).toNat = n % 128 + 128 := toNat_ofNat_byte (by omega)
        have hrest : n / 128 < (last + 1) * 128 ^ width := by
          rw [Nat.div_lt_iff_lt_mul (by decide), Nat.mul_assoc, ← Nat.pow_succ]
          exact h
        have hsum : n % 128 + 128 - 128 + 128 * (n / 128) = n := by omega
        rw [if_neg hn]
        refine (decodes_takeByte _).reads.bind ?_
        rw [hb, if_neg (by omega)]
        refine (ih hrest).bind_nil ?_
        rw [hsum]
        exact .pure n

/-- A number that does not fit the width is not read as another one. -/
theorem pins_takeNat (last width n : Nat) : Pins (takeNat last width) (putNat n) n := by
  induction width generalizing n with
  | zero => exact .throw _ _ _
  | succ width ih =>
      rw [takeNat, putNat]
      by_cases hn : n < 128
      · rw [if_pos hn]
        refine (decodes_takeByte _).pins.bind_nil ?_
        rw [toNat_ofNat_byte (by omega), if_pos hn]
        split
        · exact .throw _ _ _
        · exact .pure n
      · have hb : (UInt8.ofNat (n % 128 + 128)).toNat = n % 128 + 128 := toNat_ofNat_byte (by omega)
        have hsum : n % 128 + 128 - 128 + 128 * (n / 128) = n := by omega
        rw [if_neg hn]
        refine (decodes_takeByte _).pins.bind ?_
        rw [hb, if_neg (by omega)]
        refine (ih (n / 128)).bind_nil ?_
        rw [hsum]
        exact .pure n

/-- A length of 64 bits is read in ten groups of seven. -/
theorem reads_takeNat64 {n : Nat} (h : n < 2 ^ 64) : Reads takeNat64 (putNat n) n :=
  reads_takeNat (by decide) (by simpa using h)

theorem decodes_takeNat64 {n : Nat} (h : n < 2 ^ 64) : Decodes takeNat64 (putNat n) n :=
  ⟨reads_takeNat64 h, pins_takeNat 1 10 n⟩

/-- A number of 32 bits, as the numbers of forms are. -/
theorem decodes_takeNat32 {n : Nat} (h : n < 2 ^ 32) : Decodes (takeNat 15 5) (putNat n) n :=
  ⟨reads_takeNat (by decide) (by simpa using h), pins_takeNat 15 5 n⟩

theorem decodes_takeUInt32 (n : UInt32) : Decodes takeUInt32 (putUInt32 n) n := by
  have h := (decodes_takeNat32 n.toNat_lt).map UInt32.ofNat
  rwa [UInt32.ofNat_toNat] at h

/-- An integer of 64 bits has a code of 64 bits. -/
theorem zigzag_lt (v : Int64) : zigzag v.toInt < 2 ^ 64 := by
  have h₁ := v.toInt_lt
  have h₂ := v.le_toInt
  unfold zigzag
  split
  · omega
  · omega

theorem decodes_takeInt64 (v : Int64) : Decodes takeInt64 (putInt64 v) v := by
  have h := (decodes_takeNat64 (zigzag_lt v)).map fun n => Int64.ofInt (unzigzag n)
  rwa [unzigzag_zigzag, Int64.ofInt_toInt] at h

/-- A number of fixed width is written byte by byte, the lowest first. -/
theorem decodes_takeFixed (width : Nat) {n : Nat} (h : n < 256 ^ width) :
    Decodes (takeFixed width) (putFixed width n) n := by
  induction width generalizing n with
  | zero =>
      obtain rfl : n = 0 := by simpa using h
      exact .pure 0
  | succ width ih =>
      have hrest : n / 256 < 256 ^ width := by
        rw [Nat.div_lt_iff_lt_mul (by decide), ← Nat.pow_succ]
        exact h
      have hsum : n % 256 + 256 * (n / 256) = n := by omega
      rw [takeFixed, putFixed]
      refine (decodes_takeByte _).bind ?_
      rw [toNat_ofNat_byte (by omega)]
      refine (ih hrest).bind_nil ?_
      rw [hsum]
      exact .pure n

/-! ## Choices -/

/-- Only two bytes are truth values. -/
theorem decodes_takeBool (b : Bool) : Decodes takeBool (putBool b) b := by
  cases b with
  | false => exact (decodes_takeByte 0).bind (.pure false)
  | true => exact (decodes_takeByte 1).bind (.pure true)

/-- One byte tells whether there is something. -/
theorem decodes_takeOption {put : α → Bytes} {take : Take α} (h : ∀ a, Decodes take (put a) a)
    (o : Option α) : Decodes (takeOption take) (putOption put o) o := by
  cases o with
  | none => exact (decodes_takeByte 0).bind (.pure none)
  | some a => exact (decodes_takeByte 1).bind ((h a).map some)

/-- A choice is written as its place among all that there are. -/
theorem decodes_takeVariant [DecidableEq α] {all : List α} {a : α} (h : a ∈ all)
    (hs : all.length < 2 ^ 32) : Decodes (takeVariant all) (putVariant all a) a := by
  have hi : all.idxOf a < all.length := List.idxOf_lt_length_of_mem h
  have hget : all[all.idxOf a]? = some a := by simp [hi]
  refine (decodes_takeNat32 (Nat.lt_trans hi hs)).bind_nil ?_
  rw [hget]
  exact .pure a

/-! ## Sequences -/

/-- A list of known length is written element by element. -/
theorem decodes_takeMany {put : α → Bytes} {take : Take α} (h : ∀ a, Decodes take (put a) a)
    (as : List α) : Decodes (takeMany take as.length) (as.flatMap put) as := by
  induction as with
  | nil => exact .pure []
  | cons a as ih => exact (h a).bind (ih.bind_nil (.pure _))

/-- If each element has a byte, a list is no longer than its bytes. -/
theorem length_le_length_flatMap {put : α → Bytes} (h : ∀ a, 0 < (put a).length) (as : List α) :
    as.length ≤ (as.flatMap put).length := by
  induction as with
  | nil => exact Nat.le_refl 0
  | cons a as ih =>
      have := h a
      rw [List.flatMap_cons, List.length_append, List.length_cons]
      omega

/-- What stands behind its length is read if the length has 64 bits. -/
theorem decodes_counted {f : Nat → Take α} {n : Nat} {s : Bytes} {a : α} (hn : n ≤ s.length)
    (hf : Decodes (f n) s a) : Decodes (takeNat64 >>= f) (putNat n ++ s) a := by
  refine ⟨fun hs => ?_, (pins_takeNat 1 10 n).bind hf.pins⟩
  have hlength := hs
  rw [List.length_append] at hlength
  exact (reads_takeNat64 (by omega)).bind hf.reads hs

/-- A list is read if its members are.  Each of them has a byte, so the bytes bound their number. -/
theorem decodes_takeList {put : α → Bytes} {take : Take α} (h : ∀ a, Decodes take (put a) a)
    (hpos : ∀ a, 0 < (put a).length) (as : List α) :
    Decodes (takeList take) (putList put as) as :=
  decodes_counted (length_le_length_flatMap hpos as) (decodes_takeMany h as)

/-- Bytes of known number are taken as they are. -/
theorem decodes_takeBytes (s : Bytes) : Decodes (takeBytes s.length) s s := by
  constructor
  · intro _ rest
    simp [takeBytes]
  · intro t b r h ht
    unfold takeBytes at h
    split at h
    case isTrue => cases h
    case isFalse hlength =>
      have hst : s <+: t := by
        rcases ht with hst | hts
        · exact hst
        · have hle := hts.length_le
          have heq : t = s := hts.eq_of_length (by omega)
          exact heq ▸ List.prefix_rfl
      obtain ⟨u, rfl⟩ := hst
      simp only [List.take_left, List.drop_left, Except.ok.injEq, Prod.mk.injEq] at h
      obtain ⟨rfl, rfl⟩ := h
      exact ⟨rfl, rfl⟩

/-- A string is written as the number of its bytes and these, which are valid as text. -/
theorem decodes_takeString (s : String) : Decodes takeString (putString s) s := by
  refine decodes_counted (Nat.le_refl _) ((decodes_takeBytes _).bind_nil ?_)
  rw [fromUTF8?_toUTF8]
  exact .pure s

/-! ## Lengths -/

theorem length_putNat_pos (n : Nat) : 0 < (putNat n).length := by
  rw [putNat]
  split
  · exact Nat.one_pos
  · exact Nat.succ_pos _

theorem length_putString_pos (s : String) : 0 < (putString s).length := by
  rw [putString, List.length_append]
  exact Nat.add_pos_left (length_putNat_pos _) _

end DeviceCode.Binary
