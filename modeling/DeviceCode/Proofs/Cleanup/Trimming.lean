import DeviceCode.Partition.Split
import DeviceCode.Proofs.Cleanup.Liveness

/-!
# Cleanups of trimmed modules

A cleanup deletes what is dead.  Where some of that was deleted before, it leaves the same module
(`clean_trim`): what is live stays live, because the way to it leads through what is live.  So a
cleanup has nothing to do after another one (`clean_clean`), and it is no matter whether unused
declarations are deleted first (`clean_dropPrototypes`).
-/

namespace DeviceCode.Module

/-- Deletes functions and global variables by their names, and debug records by their numbers. -/
def trim (m : Module) (keep : String → Bool) (keepRecord : UInt32 → Bool) : Module :=
  { m.keepNames keep with debugRecords := m.debugRecords.filter (keepRecord ·.id) }

variable {m : Module} {keep keep' : String → Bool} {keepRecord : UInt32 → Bool} {name s : String}

/-! ## Deleting by name -/

theorem names_keepNames (m : Module) (keep : String → Bool) :
    (m.keepNames keep).names = m.names.filter keep := by
  rw [names, names, List.filter_append, List.filter_map, List.filter_map]
  rfl

theorem nodup_names_keepNames (h : m.names.Nodup) (keep : String → Bool) :
    (m.keepNames keep).names.Nodup := by
  rw [names_keepNames]
  exact h.filter keep

/-- Deleting twice is deleting what either deletes. -/
theorem keepNames_keepNames (m : Module) (keep keep' : String → Bool) :
    (m.keepNames keep).keepNames keep' = m.keepNames fun s => keep' s && keep s := by
  simp only [keepNames, List.filter_filter]

/-- Only the names that are there matter. -/
theorem keepNames_congr (h : ∀ s ∈ m.names, keep s = keep' s) :
    m.keepNames keep = m.keepNames keep' := by
  have hfunctions : m.functions.filter (keep ·.name) = m.functions.filter (keep' ·.name) :=
    List.filter_congr fun f hf => h _ (mem_names.mpr (.inl ⟨f, hf, rfl⟩))
  have hglobals : m.globals.filter (keep ·.name) = m.globals.filter (keep' ·.name) :=
    List.filter_congr fun g hg => h _ (mem_names.mpr (.inr ⟨g, hg, rfl⟩))
  rw [keepNames, keepNames, hfunctions, hglobals]

/-- A name that is kept is as visible as before. -/
theorem mem_visibleNames_keepNames :
    name ∈ (m.keepNames keep).visibleNames ↔ name ∈ m.visibleNames ∧ keep name := by
  rw [mem_visibleNames, mem_visibleNames]
  simp only [keepNames, List.mem_filter]
  constructor
  · rintro (⟨f, ⟨hf, hk⟩, hb, hl, rfl⟩ | ⟨g, ⟨hg, hk⟩, hi, hl, rfl⟩)
    · exact ⟨.inl ⟨f, hf, hb, hl, rfl⟩, hk⟩
    · exact ⟨.inr ⟨g, hg, hi, hl, rfl⟩, hk⟩
  · rintro ⟨⟨f, hf, hb, hl, rfl⟩ | ⟨g, hg, hi, hl, rfl⟩, hk⟩
    · exact .inl ⟨f, ⟨hf, hk⟩, hb, hl, rfl⟩
    · exact .inr ⟨g, ⟨hg, hk⟩, hi, hl, rfl⟩

theorem mem_symbolsOf_keepNames (h : m.names.Nodup) :
    s ∈ (m.keepNames keep).symbolsOf name ↔ s ∈ m.symbolsOf name ∧ keep name := by
  rw [mem_symbolsOf (nodup_names_keepNames h keep), mem_symbolsOf h]
  simp only [keepNames, List.mem_filter]
  constructor
  · rintro (⟨f, ⟨hf, hk⟩, rfl, hs⟩ | ⟨g, ⟨hg, hk⟩, rfl, hs⟩)
    · exact ⟨.inl ⟨f, hf, rfl, hs⟩, hk⟩
    · exact ⟨.inr ⟨g, hg, rfl, hs⟩, hk⟩
  · rintro ⟨⟨f, hf, rfl, hs⟩ | ⟨g, hg, rfl, hs⟩, hk⟩
    · exact .inl ⟨f, ⟨hf, hk⟩, rfl, hs⟩
    · exact .inr ⟨g, ⟨hg, hk⟩, rfl, hs⟩

/-! ## What stays live -/

theorem mem_liveNames_of_visible (h : name ∈ m.visibleNames) : name ∈ m.liveNames := by
  refine mem_liveNames.mpr ⟨.start h, mem_names.mpr ?_⟩
  rcases mem_visibleNames.mp h with ⟨f, hf, _, _, he⟩ | ⟨g, hg, _, _, he⟩
  · exact .inl ⟨f, hf, he⟩
  · exact .inr ⟨g, hg, he⟩

/-- What leads on belongs to the module. -/
theorem mem_liveNames_of_mem_symbolsOf (h : Reached m.symbolsOf m.visibleNames name)
    (hs : s ∈ m.symbolsOf name) : name ∈ m.liveNames := by
  refine mem_liveNames.mpr ⟨h, ?_⟩
  by_contra hn
  rw [symbolsOf_eq_nil hn] at hs
  cases hs

/-- If all live names are kept, the search takes the same ways, for these lead through live names
only. -/
theorem reached_keepNames (h : m.names.Nodup) (hkeep : ∀ s ∈ m.liveNames, keep s) :
    Reached (m.keepNames keep).symbolsOf (m.keepNames keep).visibleNames name ↔
      Reached m.symbolsOf m.visibleNames name := by
  constructor
  · intro hr
    refine hr.mono ?_ ?_
    · exact fun s hs => (mem_visibleNames_keepNames.mp hs).1
    · exact fun _ _ s hs => ((mem_symbolsOf_keepNames h).mp hs).1
  · intro hr
    refine hr.mono ?_ ?_
    · intro s hs
      exact mem_visibleNames_keepNames.mpr ⟨hs, hkeep s (mem_liveNames_of_visible hs)⟩
    · intro x hx s hs
      exact (mem_symbolsOf_keepNames h).mpr ⟨hs, hkeep x (mem_liveNames_of_mem_symbolsOf hx hs)⟩

theorem mem_liveNames_keepNames (h : m.names.Nodup) (hkeep : ∀ s ∈ m.liveNames, keep s) :
    name ∈ (m.keepNames keep).liveNames ↔ name ∈ m.liveNames := by
  rw [mem_liveNames, mem_liveNames, reached_keepNames h hkeep, names_keepNames, List.mem_filter]
  constructor
  · rintro ⟨hr, hn, _⟩
    exact ⟨hr, hn⟩
  · rintro ⟨hr, hn⟩
    exact ⟨hr, hn, hkeep name (mem_liveNames.mpr ⟨hr, hn⟩)⟩

/-- The names that are dead are deleted, whether or not some of them are gone already. -/
theorem removeDead_keepNames (h : m.names.Nodup) (hkeep : ∀ s ∈ m.liveNames, keep s) :
    (m.keepNames keep).removeDead.1 = m.removeDead.1 := by
  change (m.keepNames keep).keepNames _ = m.keepNames _
  rw [keepNames_keepNames]
  refine keepNames_congr fun s _ => ?_
  rw [Bool.eq_iff_iff, Bool.and_eq_true, List.contains_iff_mem, List.contains_iff_mem,
    mem_liveNames_keepNames h hkeep]
  exact and_iff_left_of_imp (hkeep s)

/-! ## Debug records -/

/-- The records that are live keep each other live. -/
theorem removeDeadRecords_filter (hkeep : ∀ id ∈ m.liveRecords, keepRecord id) :
    (removeDeadRecords { m with
      debugRecords := m.debugRecords.filter (keepRecord ·.id) }).1 = m.removeDeadRecords.1 := by
  have hmentioned : mentionedRecords { m with
      debugRecords := m.debugRecords.filter (keepRecord ·.id) } = m.mentionedRecords := rfl
  have hlive : ∀ id, id ∈ liveRecords { m with
      debugRecords := m.debugRecords.filter (keepRecord ·.id) } ↔ id ∈ m.liveRecords := by
    intro id
    rw [mem_liveRecords, mem_liveRecords, hmentioned]
    refine or_congr_right ?_
    constructor
    · rintro ⟨r, hr, hm, hu⟩
      exact ⟨r, (List.mem_filter.mp hr).1, hm, hu⟩
    · rintro ⟨r, hr, hm, hu⟩
      exact ⟨r, List.mem_filter.mpr ⟨hr, hkeep _ (mem_liveRecords.mpr (.inl hm))⟩, hm, hu⟩
  simp only [removeDeadRecords, List.filter_filter, mk.injEq, true_and]
  refine List.filter_congr fun r _ => ?_
  rw [Bool.eq_iff_iff, Bool.and_eq_true, List.contains_iff_mem, List.contains_iff_mem, hlive]
  exact and_iff_left_of_imp (hkeep r.id)

/-! ## Cleanups -/

/-- A cleanup deletes what was deleted before, if this was dead. -/
theorem clean_keepNames (h : m.names.Nodup) (hkeep : ∀ s ∈ m.liveNames, keep s) :
    (m.keepNames keep).clean = m.clean := by
  rw [clean, clean, removeDead_keepNames h hkeep]

/-- A cleanup leaves the same module if something that it deletes is gone already. -/
theorem clean_trim (h : m.names.Nodup) (hkeep : ∀ s ∈ m.liveNames, keep s)
    (hrecord : ∀ id ∈ m.removeDead.1.liveRecords, keepRecord id) :
    (m.trim keep keepRecord).clean = m.clean := by
  have hdead : (m.trim keep keepRecord).removeDead.1 = { m.removeDead.1 with
      debugRecords := m.removeDead.1.debugRecords.filter (keepRecord ·.id) } := by
    rw [← removeDead_keepNames h hkeep]
    rfl
  rw [clean, clean, hdead, removeDeadRecords_filter hrecord]

/-- Where names are distinct, no declarations are left to delete in the end. -/
theorem clean_eq (h : m.names.Nodup) : m.clean = m.removeDead.1.removeDeadRecords.1 := by
  -- deleting records changes neither the declarations nor what mentions them
  have hu : m.removeDead.1.removeDeadRecords.1.unusedPrototypes (fun _ => true) = [] :=
    unusedPrototypes_removeDead h fun _ => true
  rw [clean]
  exact dropPrototypes_eq_self hu

/-- A cleanup keeps the live names and then the live records. -/
theorem clean_eq_trim (h : m.names.Nodup) :
    m.clean = m.trim (m.liveNames.contains ·) (m.removeDead.1.liveRecords.contains ·) := by
  rw [clean_eq h]
  rfl

/-- A second cleanup changes nothing. -/
theorem clean_clean (h : m.names.Nodup) : m.clean.clean = m.clean := by
  rw [clean_eq_trim h]
  refine (clean_trim h ?_ ?_).trans (clean_eq_trim h)
  · exact fun s hs => List.contains_iff_mem.mpr hs
  · exact fun id hid => List.contains_iff_mem.mpr hid

/-! ## Unused declarations -/

/-- Prototypes are deleted by their names, which no other entity has. -/
theorem dropPrototypes_eq_keepNames (h : m.names.Nodup) (p : String → Bool) :
    m.dropPrototypes p = m.keepNames fun s => !(m.unusedPrototypes p).contains s := by
  have hglobals : ∀ g ∈ m.globals, (!(m.unusedPrototypes p).contains g.name) = true := by
    intro g hg
    rw [Bool.not_eq_true', Bool.eq_false_iff, ne_eq, List.contains_iff_mem]
    intro hu
    obtain ⟨f, hf, he⟩ := List.mem_map.mp hu
    exact function_name_ne h (List.mem_filter.mp hf).1 hg he
  rw [dropPrototypes, keepNames, List.filter_eq_self.mpr hglobals]

/-- An unused prototype is a declaration that nothing mentions. -/
theorem mem_unusedPrototypes {p : String → Bool} :
    name ∈ m.unusedPrototypes p ↔
      ∃ f ∈ m.functions, f.body = none ∧ p f.name ∧ ¬ m.isReferenced f.name ∧ f.name = name := by
  simp [unusedPrototypes, Function.isDeclaration, and_assoc]

/-- What is live is no unused prototype, as something that is live mentions it. -/
theorem not_mem_unusedPrototypes_of_live (h : m.names.Nodup) (hl : name ∈ m.liveNames)
    (p : String → Bool) : name ∉ m.unusedPrototypes p := by
  intro hu
  obtain ⟨f, hf, hb, _, hr, rfl⟩ := mem_unusedPrototypes.mp hu
  refine hr (isReferenced_iff.mpr ?_)
  rcases exists_live_mention h hf hb hl with ⟨f', hf', _, hs⟩ | ⟨g, hg, _, hs⟩
  · exact .inl ⟨f', hf', hs⟩
  · exact .inr ⟨g, hg, hs⟩

/-- A cleanup deletes unused prototypes anyway. -/
theorem clean_dropPrototypes (h : m.names.Nodup) (p : String → Bool) :
    (m.dropPrototypes p).clean = m.clean := by
  rw [dropPrototypes_eq_keepNames h]
  refine clean_keepNames h fun s hs => ?_
  simpa using not_mem_unusedPrototypes_of_live h hs p

end DeviceCode.Module
