/-!
# Values as bytes

Each kind of value has one way to be written and a scan that reads it back from the front of some
bytes. A whole number is written seven bits to a byte, the lowest first, with the high bit set on
all bytes but the last; a reader takes no more bytes than the width of the number can need.
-/

namespace DeviceCode.Binary

abbrev Bytes := List UInt8

/-- Why no value can be read from the front of some bytes. -/
inductive Fault where
  | ended
  | longNumber
  | notABool
  | notAnOption
  | notText
  | unknownVariant
deriving DecidableEq, Repr

def Fault.message : Fault → String
  | ended => "Hit the end of buffer, expected more data"
  | longNumber =>
    "Found a varint that didn't terminate. Is the usize too big for this platform?"
  | notABool => "Found a bool that wasn't 0 or 1"
  | notAnOption => "Found an Option discriminant that wasn't 0 or 1"
  | notText => "Tried to parse invalid utf-8"
  | unknownVariant => "Serde Deserialization Error"

/-- Reads a value from the front of some bytes. -/
abbrev Take := StateT Bytes (Except Fault)

variable {α : Type}

def takeByte : Take UInt8 := fun
  | [] => .error .ended
  | b :: rest => .ok (b, rest)

/-- A success of `x` takes at least `k` bytes. -/
def Shrinks (k : Nat) (x : Take α) : Prop :=
  ∀ s a r, x s = .ok (a, r) → r.length + k ≤ s.length

/-- A sequence succeeds if both scans do, the second one on the bytes that the first one leaves. -/
theorem bind_eq_ok {β : Type} {x : Take α} {f : α → Take β} {s r' : Bytes} {b : β} :
    (x >>= f) s = .ok (b, r') ↔ ∃ a r, x s = .ok (a, r) ∧ f a r = .ok (b, r') := by
  change (x s >>= fun p => f p.1 p.2) = _ ↔ _
  cases h : x s with
  | error e => exact ⟨(nomatch ·), fun ⟨_, _, h, _⟩ => nomatch h⟩
  | ok p => exact ⟨fun h => ⟨p.1, p.2, rfl, h⟩, fun ⟨_, _, h₁, h₂⟩ => by cases h₁; exact h₂⟩

/-- What two scans take at least adds up. -/
theorem Shrinks.bind {β : Type} {k l : Nat} {x : Take α} {f : α → Take β} (hx : Shrinks k x)
    (hf : ∀ a, Shrinks l (f a)) : Shrinks (k + l) (x >>= f) := by
  intro s b r' h
  obtain ⟨a, r, h₁, h₂⟩ := bind_eq_ok.1 h
  have := hx _ _ _ h₁
  have := hf _ _ _ _ h₂
  omega

theorem Shrinks.mono {k l : Nat} {x : Take α} (hx : Shrinks k x) (h : l ≤ k) : Shrinks l x := by
  intro s a r e
  have := hx _ _ _ e
  omega

theorem Shrinks.map {β : Type} {k : Nat} {x : Take α} {g : α → β} (hx : Shrinks k x) :
    Shrinks k (g <$> x) := by
  intro s b r h
  change (x s >>= fun p => pure (g p.1, p.2)) = _ at h
  cases e : x s with
  | error f => rw [e] at h; cases h
  | ok p => rw [e] at h; cases h; exact hx _ _ _ e

theorem shrinks_pure (a : α) : Shrinks 0 (pure a : Take α) := by
  intro s b r h
  cases h
  exact Nat.le_refl _

theorem shrinks_throw (k : Nat) (f : Fault) : Shrinks k (throw f : Take α) := by
  intro s a r h
  cases h

theorem shrinks_takeByte : Shrinks 1 takeByte := by
  intro s b r h
  cases s with
  | nil => cases h
  | cons c s => cases h; exact Nat.le_refl _

/-! ## Numbers -/

/-- Seven bits to a byte, the lowest first, so zero is a byte as well. -/
def putNat (n : Nat) : Bytes :=
  if n < 128 then [.ofNat n] else .ofNat (n % 128 + 128) :: putNat (n / 128)
termination_by n
decreasing_by omega

/-- Reads a number of at most `width` bytes, the last of which is at most `last` if all are used. -/
def takeNat (last : Nat) : (width : Nat) → Take Nat
  | 0 => throw .longNumber
  | width + 1 => do
    let b ← takeByte
    if b.toNat < 128 then
      if width = 0 ∧ last < b.toNat then throw .longNumber else pure b.toNat
    else
      let n ← takeNat last width
      pure (b.toNat - 128 + 128 * n)

theorem shrinks_takeNat (last width : Nat) : Shrinks 1 (takeNat last width) := by
  induction width with
  | zero => exact shrinks_throw _ _
  | succ width ih =>
    rw [takeNat]
    refine shrinks_takeByte.bind (l := 0) fun b => ?_
    split
    · split
      · exact shrinks_throw _ _
      · exact shrinks_pure _
    · exact (ih.bind fun _ => shrinks_pure _).mono (Nat.zero_le _)

def putUInt32 (n : UInt32) : Bytes := putNat n.toNat

/-- Thirty-two bits are four times seven and four more. -/
def takeUInt32 : Take UInt32 := (fun n => .ofNat n) <$> takeNat 15 5

/-- Sixty-four bits are nine times seven and one more. -/
def takeNat64 : Take Nat := takeNat 1 10

/-- The whole numbers in the order 0, -1, 1, -2, 2, … -/
def zigzag (v : Int) : Nat := if 0 ≤ v then 2 * v.toNat else 2 * (-v).toNat - 1

def unzigzag (n : Nat) : Int := if n % 2 = 0 then (n / 2 : Nat) else -((n / 2 + 1 : Nat) : Int)

@[simp] theorem unzigzag_zigzag (v : Int) : unzigzag (zigzag v) = v := by
  unfold zigzag unzigzag
  split <;> split <;> omega

def putInt64 (v : Int64) : Bytes := putNat (zigzag v.toInt)

def takeInt64 : Take Int64 := (fun n => .ofInt (unzigzag n)) <$> takeNat64

/-- The lowest `width` bytes of a number, the lowest first. -/
def putFixed : (width : Nat) → Nat → Bytes
  | 0, _ => []
  | width + 1, n => .ofNat (n % 256) :: putFixed width (n / 256)

def takeFixed : (width : Nat) → Take Nat
  | 0 => pure 0
  | width + 1 => do
    let b ← takeByte
    let n ← takeFixed width
    pure (b.toNat + 256 * n)

theorem shrinks_takeFixed (width : Nat) : Shrinks 0 (takeFixed width) := by
  induction width with
  | zero => exact shrinks_pure _
  | succ width ih =>
    exact (shrinks_takeByte.bind fun _ => ih.bind fun _ => shrinks_pure _).mono (Nat.zero_le _)

/-! ## Choices -/

def putBool (b : Bool) : Bytes := [if b then 1 else 0]

def takeBool : Take Bool := do
  let b ← takeByte
  if b = 0 then pure false else if b = 1 then pure true else throw .notABool

def putOption (put : α → Bytes) : Option α → Bytes
  | none => [0]
  | some a => 1 :: put a

def takeOption (take : Take α) : Take (Option α) := do
  let b ← takeByte
  if b = 0 then pure none else if b = 1 then some <$> take else throw .notAnOption

/-- One of the values of a list, by its position. -/
def putVariant [DecidableEq α] (all : List α) (a : α) : Bytes := putNat (all.idxOf a)

def takeVariant (all : List α) : Take α := do
  let n ← takeNat 15 5
  match all[n]? with
  | some a => pure a
  | none => throw .unknownVariant

theorem shrinks_takeVariant (all : List α) : Shrinks 1 (takeVariant all) := by
  refine (shrinks_takeNat _ _).bind (l := 0) fun n => ?_
  split
  · exact shrinks_pure _
  · exact shrinks_throw _ _

/-! ## Sequences -/

/-- The number of the values stands in front of them. -/
def putList (put : α → Bytes) (as : List α) : Bytes := putNat as.length ++ as.flatMap put

def takeMany (take : Take α) : Nat → Take (List α)
  | 0 => pure []
  | n + 1 => do
    let a ← take
    let as ← takeMany take n
    pure (a :: as)

def takeList (take : Take α) : Take (List α) := do
  let n ← takeNat64
  takeMany take n

/-- The first `n` bytes. -/
def takeBytes (n : Nat) : Take Bytes := fun bytes =>
  if bytes.length < n then .error .ended else .ok (bytes.take n, bytes.drop n)

/-- The number of the bytes, not of the characters, stands in front of them. -/
def putString (s : String) : Bytes :=
  let bytes := s.toUTF8.data.toList
  putNat bytes.length ++ bytes

def takeString : Take String := do
  let n ← takeNat64
  let bytes ← takeBytes n
  match String.fromUTF8? ⟨bytes.toArray⟩ with
  | some s => pure s
  | none => throw .notText

theorem shrinks_takeBytes (n : Nat) : Shrinks 0 (takeBytes n) := by
  intro s a r h
  unfold takeBytes at h
  split at h
  · cases h
  · cases h
    simp

theorem shrinks_takeString : Shrinks 0 takeString := by
  refine (((shrinks_takeNat _ _).mono (Nat.zero_le _)).bind fun n =>
    (shrinks_takeBytes n).bind (l := 0) fun bytes => ?_)
  split
  · exact shrinks_pure _
  · exact shrinks_throw _ _

end DeviceCode.Binary
