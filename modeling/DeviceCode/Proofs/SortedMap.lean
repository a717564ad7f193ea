import Mathlib.Data.List.Sort
import DeviceCode.SortedMap
import DeviceCode.Proofs.Basic

/-!
# Looking keys up

The keys of a map are distinct, so looking a key up finds its entry, and a change is seen at its key
only.  They ascend, so maps with the same entries are equal.
-/

namespace DeviceCode.SortedMap

variable {α : Type} {m : SortedMap α} {k key : String} {v : α} {f : Option α → α}

theorem keys_nodup (m : SortedMap α) : (m.entries.map (·.1)).Nodup := by
  rw [List.nodup_iff_pairwise_ne, List.pairwise_map]
  refine m.ascending.imp fun {a b} h he => ?_
  rw [he] at h
  exact String.lt_irrefl _ h

theorem get?_eq_some_iff : m.get? k = some v ↔ (k, v) ∈ m.entries := by
  rw [get?, Option.map_eq_some_iff]
  constructor
  · rintro ⟨⟨k', v'⟩, he, rfl⟩
    obtain ⟨hm, rfl⟩ := (find?_eq_some_iff_of_nodup m.keys_nodup).mp he
    exact hm
  · exact fun hm => ⟨(k, v), (find?_eq_some_iff_of_nodup m.keys_nodup).mpr ⟨hm, rfl⟩, rfl⟩

/-- Maps with the same entries are equal. -/
theorem ext_mem {n : SortedMap α} (h : ∀ e, e ∈ m.entries ↔ e ∈ n.entries) : m = n := by
  have hanti : Std.Antisymm fun a b : String × α => a.1 < b.1 :=
    ⟨fun _ _ hab hba => absurd (String.lt_trans hab hba) (String.lt_irrefl _)⟩
  have hirrefl : Std.Irrefl fun a b : String × α => a.1 < b.1 := ⟨fun _ => String.lt_irrefl _⟩
  exact ext (m.ascending.eq_of_mem_iff n.ascending h)

theorem keys_eq_of_mem_iff {β : Type} {n : SortedMap β} (h : ∀ k, k ∈ m.keys ↔ k ∈ n.keys) :
    m.keys = n.keys :=
  (List.pairwise_map.mpr m.ascending).eq_of_mem_iff (List.pairwise_map.mpr n.ascending) h

/-- A change is seen at its key only. -/
theorem find?_alterEntries {l : List (String × α)} (h : l.Pairwise fun a b => a.1 < b.1) :
    ((alterEntries key f l).find? (·.1 == k)).map (·.2) =
      if k = key then some (f ((l.find? (·.1 == key)).map (·.2)))
      else (l.find? (·.1 == k)).map (·.2) := by
  induction l with
  | nil =>
      by_cases hk : k = key
      · simp [alterEntries, hk]
      · simp [alterEntries, hk, Ne.symm hk]
  | cons e rest ih =>
      obtain ⟨k', v'⟩ := e
      obtain ⟨hlt, hrest⟩ := List.pairwise_cons.mp h
      rw [alterEntries]
      by_cases hkey : key < k'
      · -- all keys are greater, so there is no entry yet
        have hne : k' ≠ key := fun he => String.lt_irrefl _ (he ▸ hkey)
        have hnone : rest.find? (·.1 == key) = none := by
          simp only [List.find?_eq_none, beq_iff_eq]
          exact fun e he hk => String.lt_irrefl _ (hk ▸ String.lt_trans hkey (hlt e he))
        rw [if_pos hkey]
        by_cases hk : k = key
        · simp [hk, hne, hnone]
        · simp [hk, Ne.symm hk]
      · rw [if_neg hkey]
        by_cases he : key = k'
        · subst he
          rw [if_pos rfl]
          by_cases hk : k = key
          · simp [hk]
          · simp [hk, Ne.symm hk]
        · rw [if_neg he, List.find?_cons]
          by_cases hk : k' = k
          · subst hk
            simp [Ne.symm he]
          · rw [beq_false_of_ne hk]
            simp [ih hrest, hk, Ne.symm he]

@[simp] theorem get?_alter :
    (m.alter key f).get? k = if k = key then some (f (m.get? key)) else m.get? k :=
  find?_alterEntries m.ascending

/-! ## Inserting in order -/

/-- A key that is greater than all others comes last. -/
theorem alterEntries_of_forall_lt {f : Option α → α} {l : List (String × α)}
    (h : ∀ e ∈ l, e.1 < k) : alterEntries k f l = l ++ [(k, f none)] := by
  induction l with
  | nil => rfl
  | cons e rest ih =>
      obtain ⟨hlt, hrest⟩ := List.forall_mem_cons.mp h
      have hle : ¬ k < e.1 := fun hgt => String.lt_irrefl _ (String.lt_trans hlt hgt)
      have hne : k ≠ e.1 := fun heq => String.lt_irrefl _ (heq ▸ hlt)
      rw [alterEntries, if_neg hle, if_neg hne, ih hrest]
      rfl

/-- Entries that are inserted in the order of their keys stay in that order. -/
theorem entries_foldl_insert {β : Type} {key : β → String} {value : β → α} {l : List β}
    (hl : l.Pairwise fun a b => key a < key b) (hm : ∀ e ∈ m.entries, ∀ b ∈ l, e.1 < key b) :
    (l.foldl (fun m b => m.insert (key b) (value b)) m).entries =
      m.entries ++ l.map fun b => (key b, value b) := by
  induction l generalizing m with
  | nil => exact (List.append_nil _).symm
  | cons b l ih =>
      obtain ⟨hb, hl⟩ := List.pairwise_cons.mp hl
      have hinsert : (m.insert (key b) (value b)).entries = m.entries ++ [(key b, value b)] :=
        alterEntries_of_forall_lt fun e he => hm e he b List.mem_cons_self
      rw [List.foldl_cons, ih hl, hinsert, List.append_assoc, List.map_cons, List.singleton_append]
      rw [hinsert, List.forall_mem_append, List.forall_mem_singleton]
      exact ⟨fun e he b' hb' => hm e he b' (List.mem_cons_of_mem _ hb'), hb⟩

end DeviceCode.SortedMap
