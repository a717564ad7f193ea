/-!
# Where bytes stop being UTF-8

`Utf8.fault?` finds the first place at which bytes cannot be continued to well-formed UTF-8, and
tells bytes that are wrong from bytes that end too early.
-/

namespace DeviceCode

inductive Utf8Fault where
  /-- `length` bytes from `index` on begin no character. -/
  | invalid (index length : Nat)
  /-- The bytes end inside the character that begins at `index`. -/
  | incomplete (index : Nat)
deriving DecidableEq, Repr

namespace Utf8Fault

def message : Utf8Fault → String
  | .invalid index length =>
    "invalid utf-8 sequence of " ++ toString length ++ " bytes from index " ++ toString index
  | .incomplete index => "incomplete utf-8 byte sequence from index " ++ toString index

end Utf8Fault

namespace Utf8

/-- The ranges of the bytes that follow the leading byte `b`; `none` if `b` leads no character. The
first follower is narrowed where a shorter form exists, for surrogates, and above the last code
point. -/
def followers? (b : Nat) : Option (List (Nat × Nat)) :=
  let any := (0x80, 0xbf)
  if b < 0x80 then some []
  else if b < 0xc2 then none
  else if b < 0xe0 then some [any]
  else if b = 0xe0 then some [(0xa0, 0xbf), any]
  else if b = 0xed then some [(0x80, 0x9f), any]
  else if b < 0xf0 then some [any, any]
  else if b = 0xf0 then some [(0x90, 0xbf), any, any]
  else if b < 0xf4 then some [any, any, any]
  else if b = 0xf4 then some [(0x80, 0x8f), any, any]
  else none

/-- The bytes after a leading byte: how many fit, and whether all did, one did not, or they
ended. -/
inductive Following where
  | complete (rest : List UInt8)
  | wrong (fitting : Nat)
  | ended

def following : List (Nat × Nat) → List UInt8 → Nat → Following
  | [], rest, _ => .complete rest
  | _ :: _, [], _ => .ended
  | (lo, hi) :: ranges, b :: rest, n =>
    if lo ≤ b.toNat ∧ b.toNat ≤ hi then following ranges rest (n + 1) else .wrong n

theorem following_length {ranges : List (Nat × Nat)} {bytes rest : List UInt8} {n : Nat}
    (h : following ranges bytes n = .complete rest) : rest.length ≤ bytes.length := by
  induction ranges generalizing bytes n with
  | nil => simp only [following, Following.complete.injEq] at h; simp [h]
  | cons r ranges ih =>
    cases bytes with
    | nil => simp [following] at h
    | cons b bytes =>
      simp only [following] at h
      split at h
      · exact Nat.le_trans (ih h) (by simp)
      · simp at h

/-- The first fault of `bytes`, the first of which has the given index. -/
def faultFrom? (index : Nat) (bytes : List UInt8) : Option Utf8Fault :=
  match bytes with
  | [] => none
  | b :: rest =>
    match followers? b.toNat with
    | none => some (.invalid index 1)
    | some ranges =>
      match h : following ranges rest 0 with
      | .complete rest' =>
        have : rest'.length ≤ rest.length := following_length h
        faultFrom? (index + ranges.length + 1) rest'
      | .wrong n => some (.invalid index (n + 1))
      | .ended => some (.incomplete index)
termination_by bytes.length
decreasing_by simp only [List.length_cons]; omega

/-- The first fault of `bytes`; `none` if they are well-formed. -/
def fault? (bytes : List UInt8) : Option Utf8Fault := faultFrom? 0 bytes

end Utf8

end DeviceCode
