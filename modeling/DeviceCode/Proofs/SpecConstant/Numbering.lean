import DeviceCode.Proofs.SortedMap
import DeviceCode.Proofs.SpecConstant.Lowering

/-!
# How numbers are given

A lowering at run time meets string IDs one after the other, and gives each that has no number yet
the next free one.  `Module.numbering?` tells the numbers it ends with from the string IDs alone.
They continue those that lowered calls told before (`Continues`): these are kept, and a new number
is that of one string ID only.
-/

namespace DeviceCode

namespace SpecConstant

/-! ## Free numbers -/

instance instLawfulOrderMaxUInt32 : Std.LawfulOrderMax UInt32 where
  max_le_iff a b c := by
    change (if a ≤ b then b else a) ≤ c ↔ a ≤ c ∧ b ≤ c
    split
    case isTrue hab => exact ⟨fun hc => ⟨UInt32.le_trans hab hc, hc⟩, fun hc => hc.2⟩
    case isFalse hab =>
      have hba : b ≤ a := UInt32.le_of_lt (UInt32.not_le.mp hab)
      exact ⟨fun hc => ⟨hc, UInt32.le_trans hba hc⟩, fun hc => hc.1⟩
  max_eq_or a b := by
    change (if a ≤ b then b else a) = a ∨ (if a ≤ b then b else a) = b
    split
    · exact .inr rfl
    · exact .inl rfl

theorem nextId?_eq_some_iff {n k : UInt32} : nextId? n = some k ↔ k.toNat = n.toNat + 1 := by
  have hk : k.toNat < UInt32.size := k.toNat_lt
  have hn : n.toNat + 1 < UInt32.size → (n + 1).toNat = n.toNat + 1 := by
    intro h
    rw [UInt32.toNat_add]
    exact Nat.mod_eq_of_lt h
  unfold nextId?
  split
  case isTrue h => rw [Option.some.injEq, ← UInt32.toNat_inj, hn h, eq_comm]
  case isFalse h => exact iff_of_false nofun (by omega)

theorem mem_values {ids : SpecIds} {id : UInt32} :
    id ∈ ids.values ↔ ∃ s, ids.get? s = some id := by
  simp [SortedMap.values, SortedMap.get?_eq_some_iff]

/-- The free number is zero where no numbers are given, and else the one after the greatest. -/
theorem freeId?_eq (ids : SpecIds) :
    freeId? ids = match ids.values.max? with
      | none => some 0
      | some greatest => nextId? greatest := by
  unfold freeId?
  cases ids.values with
  | nil => rfl
  | cons v vs => rw [List.max?_cons']

/-- The first free number is greater than all that are told. -/
theorem lt_of_freeId? {ids : SpecIds} {next : UInt32} (h : freeId? ids = some next) {s : String}
    {id : UInt32} (hs : ids.get? s = some id) : id < next := by
  have hid : id ∈ ids.values := mem_values.mpr ⟨s, hs⟩
  rw [freeId?_eq] at h
  cases hmax : ids.values.max? with
  | none =>
      rw [List.max?_eq_none_iff.mp hmax] at hid
      cases hid
  | some greatest =>
      rw [hmax] at h
      have hle : id ≤ greatest := (List.max?_eq_some_iff.mp hmax).2 id hid
      rw [UInt32.lt_iff_toNat_lt, nextId?_eq_some_iff.mp h]
      exact Nat.lt_succ_of_le (UInt32.le_iff_toNat_le.mp hle)

/-- There is a free number if all that are told are below the greatest one. -/
theorem exists_freeId? {ids : SpecIds}
    (h : ∀ s id, ids.get? s = some id → id.toNat + 1 < UInt32.size) :
    ∃ next, freeId? ids = some next := by
  rw [freeId?_eq]
  cases hmax : ids.values.max? with
  | none => exact ⟨0, rfl⟩
  | some greatest =>
      obtain ⟨s, hs⟩ := mem_values.mp (List.max?_eq_some_iff.mp hmax).1
      exact ⟨greatest + 1, if_pos (h s greatest hs)⟩

/-! ## Numberings -/

/-- Numbers that are given to string IDs, and the next one to give. -/
structure Numbering where
  ids : SpecIds
  next : UInt32

namespace Numbering

/-- Gives a string ID the next number if it has none. -/
def give? (n : Numbering) (s : String) : Option Numbering :=
  match n.ids.get? s with
  | some _ => some n
  | none => (nextId? n.next).map fun next => ⟨n.ids.insert s n.next, next⟩

/-- Gives string IDs their numbers, one after the other. -/
def giveAll? (n : Numbering) (ss : List String) : Option Numbering := ss.foldlM give? n

/-- The number of a string ID; zero if it has none. -/
def number (n : Numbering) (s : String) : UInt32 := (n.ids.get? s).getD 0

/-- A numbering goes on from the numbers of a map: it keeps them, its next number is above all, and
two string IDs only have one number if they had it before. -/
structure Continues (n : Numbering) (ids : SpecIds) : Prop where
  keeps : ∀ s id, ids.get? s = some id → n.ids.get? s = some id
  below : ∀ s id, n.ids.get? s = some id → id < n.next
  distinct : ∀ s t id, n.ids.get? s = some id → n.ids.get? t = some id →
    s = t ∨ ids.get? s = some id ∧ ids.get? t = some id

variable {n n' : Numbering} {ids : SpecIds} {s : String} {ss : List String}

theorem number_of_get? {id : UInt32} (h : n.ids.get? s = some id) : n.number s = id := by
  rw [number, h, Option.getD_some]

/-- Giving a number either changes nothing or gives the next number to a string ID without one. -/
theorem give?_cases (h : n.give? s = some n') :
    (n' = n ∧ ∃ id, n.ids.get? s = some id) ∨
      (n.ids.get? s = none ∧ n'.ids = n.ids.insert s n.next ∧
        n'.next.toNat = n.next.toNat + 1) := by
  unfold give? at h
  split at h
  case h_1 id hs =>
    cases h
    exact .inl ⟨rfl, id, hs⟩
  case h_2 hs =>
    obtain ⟨next, hnext, rfl⟩ := Option.map_eq_some_iff.mp h
    exact .inr ⟨hs, rfl, nextId?_eq_some_iff.mp hnext⟩

@[simp] theorem get?_insert (ids : SpecIds) (s t : String) (id : UInt32) :
    (ids.insert s id).get? t = if t = s then some id else ids.get? t :=
  SortedMap.get?_alter

/-- A number that was given stays. -/
theorem keeps_of_give? (h : n.give? s = some n') {t : String} {id : UInt32}
    (ht : n.ids.get? t = some id) : n'.ids.get? t = some id := by
  rcases give?_cases h with ⟨rfl, _⟩ | ⟨hs, hids, _⟩
  · exact ht
  · have hne : t ≠ s := by
      rintro rfl
      rw [hs] at ht
      cases ht
    rw [hids, get?_insert, if_neg hne, ht]

/-- Each string ID has a number once it was met. -/
theorem get?_of_give? (h : n.give? s = some n') : ∃ id, n'.ids.get? s = some id := by
  rcases give?_cases h with ⟨rfl, hs⟩ | ⟨_, hids, _⟩
  · exact hs
  · exact ⟨n.next, by rw [hids, get?_insert, if_pos rfl]⟩

/-- One more number continues the numbers that were told. -/
theorem Continues.give? (hn : n.Continues ids) (h : n.give? s = some n') : n'.Continues ids := by
  rcases give?_cases h with ⟨rfl, _⟩ | ⟨_, hids, hnext⟩
  · exact hn
  have hlt : n.next < n'.next := UInt32.lt_iff_toNat_lt.mpr (by omega)
  have hget : ∀ t, n'.ids.get? t = if t = s then some n.next else n.ids.get? t := by
    intro t
    rw [hids, get?_insert]
  -- a number given before is below the one that is given now
  have hold : ∀ t, n.ids.get? t ≠ some n.next := fun t ht => UInt32.lt_irrefl _ (hn.below t _ ht)
  refine ⟨fun t id ht => keeps_of_give? h (hn.keeps t id ht), ?_, ?_⟩
  · intro t id ht
    rw [hget] at ht
    split at ht
    · cases ht
      exact hlt
    · exact UInt32.lt_trans (hn.below t id ht) hlt
  · intro t u id ht hu
    rw [hget] at ht hu
    split at ht
    case isTrue hts =>
      cases ht
      split at hu
      case isTrue hus => exact .inl (hts.trans hus.symm)
      case isFalse => exact absurd hu (hold u)
    case isFalse =>
      split at hu
      case isTrue =>
        cases hu
        exact absurd ht (hold t)
      case isFalse => exact hn.distinct t u id ht hu

theorem giveAll?_append {ss ss' : List String} :
    n.giveAll? (ss ++ ss') = (n.giveAll? ss).bind (·.giveAll? ss') := List.foldlM_append

theorem keeps_of_giveAll? (h : n.giveAll? ss = some n') {t : String} {id : UInt32}
    (ht : n.ids.get? t = some id) : n'.ids.get? t = some id := by
  induction ss generalizing n with
  | nil =>
      cases h
      exact ht
  | cons s ss ih =>
      obtain ⟨n₁, hs, hss⟩ := Option.bind_eq_some_iff.mp h
      exact ih hss (keeps_of_give? hs ht)

theorem get?_of_giveAll? (h : n.giveAll? ss = some n') (hs : s ∈ ss) :
    ∃ id, n'.ids.get? s = some id := by
  induction ss generalizing n with
  | nil => cases hs
  | cons t ss ih =>
      obtain ⟨n₁, ht, hss⟩ := Option.bind_eq_some_iff.mp h
      rcases List.mem_cons.mp hs with rfl | hs
      · obtain ⟨id, hid⟩ := get?_of_give? ht
        exact ⟨id, keeps_of_giveAll? hss hid⟩
      · exact ih hss hs

theorem Continues.giveAll? (hn : n.Continues ids) (h : n.giveAll? ss = some n') :
    n'.Continues ids := by
  induction ss generalizing n with
  | nil =>
      cases h
      exact hn
  | cons s ss ih =>
      obtain ⟨n₁, hs, hss⟩ := Option.bind_eq_some_iff.mp h
      exact ih (hn.give? hs) hss

end Numbering

theorem continues_of_freeId? {ids : SpecIds} {next : UInt32} (h : freeId? ids = some next) :
    Numbering.Continues ⟨ids, next⟩ ids where
  keeps _ _ hs := hs
  below _ _ hs := lt_of_freeId? h hs
  distinct _ _ _ hs ht := .inr ⟨hs, ht⟩

/-! ## The numbering of a lowering -/

/-- The string ID of a symbolic call. -/
def symbolicId? (i : Instruction) : Option String :=
  match symbolicCall? i with
  | .ok (some c) => some c.id
  | _ => none

theorem symbolicId?_of_some {i : Instruction} {c : SymbolicCall}
    (h : symbolicCall? i = .ok (some c)) : symbolicId? i = some c.id := by
  rw [symbolicId?, h]

theorem symbolicId?_of_none {i : Instruction} (h : symbolicCall? i = .ok none) :
    symbolicId? i = none := by
  rw [symbolicId?, h]

/-- What a lowering has given so far. -/
def Progress.numbering (p : Progress) : Numbering := ⟨p.ids, p.next⟩

/-- A constant gets its number as the numbering gives it. -/
theorem idFor_eq (p : Progress) (s : String) :
    p.idFor s =
      match p.numbering.give? s with
      | none => .error .idsExhausted
      | some n => .ok (n.number s, { p with ids := n.ids, next := n.next }) := by
  have hids : p.numbering.ids = p.ids := rfl
  have hnext : p.numbering.next = p.next := rfl
  rw [Progress.idFor, Numbering.give?, hids, hnext]
  cases hs : p.ids.get? s with
  | some id =>
      dsimp only
      rw [Numbering.number_of_get? hs]
      rfl
  | none =>
      cases nextId? p.next with
      | none => rfl
      | some next =>
          have hnumber : Numbering.number ⟨p.ids.insert s p.next, next⟩ s = p.next := by
            rw [Numbering.number, Numbering.get?_insert, if_pos rfl, Option.getD_some]
          simp only [Option.map_some, hnumber]

/-- The number for a string ID is the one it is given. -/
theorem give?_of_idFor {p p' : Progress} {s : String} {id : UInt32}
    (h : p.idFor s = .ok (id, p')) : p.numbering.give? s = some p'.numbering := by
  rw [idFor_eq] at h
  split at h
  case h_1 => cases h
  case h_2 hn =>
    cases h
    exact hn

end SpecConstant

namespace Module

open SpecConstant

/-- The string IDs of the symbolic calls in order. -/
def symbolicIds (m : Module) : List String := m.instructions.filterMap symbolicId?

/-- The numbering that a lowering ends with, if there are numbers enough. -/
def numbering? (m : Module) : Option Numbering :=
  (freeId? m.specIds).bind fun next => Numbering.giveAll? ⟨m.specIds, next⟩ m.symbolicIds

variable {m : Module} {n : Numbering}

/-- The numbers of a lowering continue those that lowered calls told. -/
theorem continues_of_numbering? (h : m.numbering? = some n) : n.Continues m.specIds := by
  obtain ⟨next, hnext, hn⟩ := Option.bind_eq_some_iff.mp h
  exact (continues_of_freeId? hnext).giveAll? hn

theorem get?_of_numbering? (h : m.numbering? = some n) {i : Instruction} (hi : i ∈ m.instructions)
    {c : SymbolicCall} (hc : symbolicCall? i = .ok (some c)) :
    n.ids.get? c.id = some (n.number c.id) := by
  obtain ⟨next, _, hn⟩ := Option.bind_eq_some_iff.mp h
  obtain ⟨id, hid⟩ :=
    Numbering.get?_of_giveAll? hn (List.mem_filterMap.mpr ⟨i, hi, symbolicId?_of_some hc⟩)
  rw [hid, Numbering.number_of_get? hid]

end Module

end DeviceCode
