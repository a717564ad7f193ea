/-!
# Maps in the order of their keys

A map from strings is the list of its entries with ascending keys, so two maps with the same entries
are equal. Strings are compared by code points, which is the order of their UTF-8 bytes.
-/

namespace DeviceCode

variable {α : Type}

/-- Entries with strictly ascending keys. -/
structure SortedMap (α : Type) where
  entries : List (String × α)
  ascending : entries.Pairwise fun a b => a.1 < b.1

namespace SortedMap

def empty : SortedMap α := ⟨[], .nil⟩

def get? (m : SortedMap α) (key : String) : Option α :=
  (m.entries.find? (·.1 == key)).map (·.2)

def contains (m : SortedMap α) (key : String) : Bool := m.entries.any (·.1 == key)

def keys (m : SortedMap α) : List String := m.entries.map (·.1)

def values (m : SortedMap α) : List α := m.entries.map (·.2)

def size (m : SortedMap α) : Nat := m.entries.length

/-- Changes the entry of `key`, or adds one, in a list with ascending keys. -/
def alterEntries (key : String) (f : Option α → α) : List (String × α) → List (String × α)
  | [] => [(key, f none)]
  | (k, v) :: rest =>
    if key < k then (key, f none) :: (k, v) :: rest
    else if key = k then (key, f (some v)) :: rest
    else (k, v) :: alterEntries key f rest

theorem key_mem_alterEntries {key : String} {f : Option α → α} {l : List (String × α)}
    {e : String × α} (h : e ∈ alterEntries key f l) : e.1 = key ∨ ∃ d ∈ l, d.1 = e.1 := by
  induction l with
  | nil =>
    simp only [alterEntries, List.mem_singleton] at h
    exact .inl (congrArg Prod.fst h)
  | cons kv rest ih =>
    obtain ⟨k, v⟩ := kv
    simp only [alterEntries] at h
    split at h
    · rcases List.mem_cons.1 h with h | h
      · exact .inl (congrArg Prod.fst h)
      · exact .inr ⟨e, h, rfl⟩
    · split at h
      · rcases List.mem_cons.1 h with h | h
        · exact .inl (congrArg Prod.fst h)
        · exact .inr ⟨e, List.mem_cons_of_mem _ h, rfl⟩
      · rcases List.mem_cons.1 h with h | h
        · exact .inr ⟨(k, v), List.mem_cons_self, (congrArg Prod.fst h).symm⟩
        · rcases ih h with h | ⟨d, hd, hde⟩
          · exact .inl h
          · exact .inr ⟨d, List.mem_cons_of_mem _ hd, hde⟩

theorem ascending_alterEntries {key : String} {f : Option α → α} {l : List (String × α)}
    (h : l.Pairwise fun a b => a.1 < b.1) :
    (alterEntries key f l).Pairwise fun a b => a.1 < b.1 := by
  induction l with
  | nil => exact List.pairwise_singleton _ _
  | cons kv rest ih =>
    obtain ⟨k, v⟩ := kv
    obtain ⟨hk, hrest⟩ := List.pairwise_cons.1 h
    simp only [alterEntries]
    split
    · rename_i hlt
      refine List.pairwise_cons.2 ⟨fun e he => ?_, h⟩
      rcases List.mem_cons.1 he with rfl | he
      · exact hlt
      · exact String.lt_trans hlt (hk e he)
    · split
      · rename_i heq
        subst heq
        exact List.pairwise_cons.2 ⟨hk, hrest⟩
      · rename_i hlt hne
        refine List.pairwise_cons.2 ⟨fun e he => ?_, ih hrest⟩
        rcases key_mem_alterEntries he with h | ⟨d, hd, hde⟩
        · simp only [h]
          exact Decidable.byContradiction fun hn =>
            hne (String.le_antisymm (String.not_lt.1 hn) (String.not_lt.1 hlt))
        · exact hde ▸ hk d hd

/-- Changes the entry of `key`, or adds one. -/
def alter (m : SortedMap α) (key : String) (f : Option α → α) : SortedMap α :=
  ⟨alterEntries key f m.entries, ascending_alterEntries m.ascending⟩

/-- Sets the entry of `key`. -/
def insert (m : SortedMap α) (key : String) (value : α) : SortedMap α :=
  m.alter key fun _ => value

theorem ext {m n : SortedMap α} (h : m.entries = n.entries) : m = n := by
  cases m
  cases n
  congr

end SortedMap

end DeviceCode
