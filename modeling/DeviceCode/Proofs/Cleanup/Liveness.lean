import DeviceCode.Cleanup
import DeviceCode.Proofs.Module.Lookup
import DeviceCode.Proofs.Reachability

/-!
# What a cleanup keeps

Deleting dead definitions keeps what is reached from the visible ones.  A declaration is never a
start of that search, so one that is kept is mentioned by something that is kept, and no unused
declaration is left behind.
-/

namespace DeviceCode

theorem Linkage.isDiscardable_eq_false {l : Linkage} :
    l.isDiscardable = false ↔ l = .external ∨ l = .weakODR := by
  cases l <;> decide

namespace Module

variable {m : Module} {name : String}

/-! ## Live names -/

/-- A name is visible if its definition is, and declarations have none. -/
theorem mem_visibleNames :
    name ∈ m.visibleNames ↔
      (∃ f ∈ m.functions, f.body.isSome ∧ (f.linkage = .external ∨ f.linkage = .weakODR) ∧
        f.name = name) ∨
      ∃ g ∈ m.globals, g.initializer.isSome ∧ (g.linkage = .external ∨ g.linkage = .weakODR) ∧
        g.name = name := by
  simp only [visibleNames, List.mem_append, List.mem_map, List.mem_filter, Bool.and_eq_true,
    Bool.not_eq_true', Function.isDeclaration, GlobalVariable.isDeclaration,
    Option.isNone_eq_false_iff, Linkage.isDiscardable_eq_false, and_assoc]

/-- A name is live if the search reaches it and it is there. -/
theorem mem_liveNames :
    name ∈ m.liveNames ↔ Reached m.symbolsOf m.visibleNames name ∧ name ∈ m.names :=
  mem_reach fun _ => symbolsOf_eq_nil

/-! ## Unused declarations -/

/-- A name is referenced if some function or initializer mentions it. -/
theorem isReferenced_iff :
    m.isReferenced name ↔ (∃ f ∈ m.functions, name ∈ f.symbols) ∨
      ∃ g ∈ m.globals, name ∈ g.symbols := by
  simp [isReferenced]

/-- Only definitions are visible, so a live declaration is mentioned. -/
theorem exists_live_mention (h : m.names.Nodup) {f : Function} (hf : f ∈ m.functions)
    (hb : f.body = none) (hl : f.name ∈ m.liveNames) :
    (∃ f' ∈ m.functions, f'.name ∈ m.liveNames ∧ f.name ∈ f'.symbols) ∨
      ∃ g ∈ m.globals, g.name ∈ m.liveNames ∧ f.name ∈ g.symbols := by
  obtain ⟨hr, _⟩ := mem_liveNames.mp hl
  cases hr with
  | start hs =>
      rcases mem_visibleNames.mp hs with ⟨f', hf', hb', _, he⟩ | ⟨g, hg, _, _, he⟩
      · rw [eq_of_function_name h hf' hf he, hb] at hb'
        cases hb'
      · exact absurd he.symm (function_name_ne h hf hg)
  | step hx hs =>
      rcases (mem_symbolsOf h).mp hs with ⟨f', hf', rfl, hm⟩ | ⟨g, hg, rfl, hm⟩
      · exact .inl ⟨f', hf', mem_liveNames.mpr ⟨hx, mem_names.mpr (.inl ⟨f', hf', rfl⟩)⟩, hm⟩
      · exact .inr ⟨g, hg, mem_liveNames.mpr ⟨hx, mem_names.mpr (.inr ⟨g, hg, rfl⟩)⟩, hm⟩

/-- After the deletion of dead definitions no declaration is unused. -/
theorem unusedPrototypes_removeDead (h : m.names.Nodup) (p : String → Bool) :
    m.removeDead.1.unusedPrototypes p = [] := by
  rw [unusedPrototypes, List.map_eq_nil_iff, List.filter_eq_nil_iff]
  intro f hf hu
  obtain ⟨hf, hl⟩ : f ∈ m.functions ∧ f.name ∈ m.liveNames := by
    simpa [removeDead, keepNames] using hf
  obtain ⟨⟨hb, _⟩, hr⟩ : (f.body = none ∧ p f.name) ∧ ¬ m.removeDead.1.isReferenced f.name := by
    simpa [Function.isDeclaration] using hu
  apply hr
  rw [isReferenced_iff]
  rcases exists_live_mention h hf hb hl with ⟨f', hf', hl', hs⟩ | ⟨g, hg, hl', hs⟩
  · exact .inl ⟨f', by simp [removeDead, keepNames, hf', hl'], hs⟩
  · exact .inr ⟨g, by simp [removeDead, keepNames, hg, hl'], hs⟩

/-- Where names are distinct, only declarations are deleted. -/
theorem mem_dropPrototypes_of_body (h : m.names.Nodup) {p : String → Bool} {f : Function}
    (hf : f ∈ m.functions) (hb : f.body ≠ none) : f ∈ (m.dropPrototypes p).functions := by
  refine List.mem_filter.mpr ⟨hf, ?_⟩
  rw [Bool.not_eq_true', Bool.eq_false_iff, ne_eq, List.contains_iff_mem]
  intro hu
  obtain ⟨f', hf', he⟩ := List.mem_map.mp hu
  obtain ⟨hf', hd⟩ := List.mem_filter.mp hf'
  rw [eq_of_function_name h hf' hf he] at hd
  simp [Function.isDeclaration, hb] at hd

theorem mem_of_mem_dropPrototypes {p : String → Bool} {f : Function}
    (hf : f ∈ (m.dropPrototypes p).functions) : f ∈ m.functions :=
  (List.mem_filter.mp hf).1

theorem dropPrototypes_eq_self {p : String → Bool} (h : m.unusedPrototypes p = []) :
    m.dropPrototypes p = m := by
  simp [dropPrototypes, h]

/-- What is mentioned without the prototypes was mentioned with them. -/
theorem isReferenced_of_dropPrototypes {p : String → Bool}
    (h : (m.dropPrototypes p).isReferenced name) : m.isReferenced name := by
  rw [isReferenced_iff] at h ⊢
  exact h.imp_left fun ⟨f, hf, hs⟩ => ⟨f, mem_of_mem_dropPrototypes hf, hs⟩

/-- A function that is mentioned stays. -/
theorem mem_dropPrototypes_of_isReferenced {p : String → Bool} {f : Function}
    (hf : f ∈ m.functions) (hr : m.isReferenced f.name) : f ∈ (m.dropPrototypes p).functions := by
  refine List.mem_filter.mpr ⟨hf, ?_⟩
  simp only [unusedPrototypes, Bool.not_eq_true', Bool.eq_false_iff, ne_eq, List.contains_iff_mem,
    List.mem_map, List.mem_filter]
  rintro ⟨f', ⟨_, hu⟩, he⟩
  simp [he, hr] at hu

/-- What is mentioned is not deleted, so no mention is left without its symbol. -/
theorem mem_names_dropPrototypes {p : String → Bool} (hn : name ∈ m.names)
    (h : m.isReferenced name) : name ∈ (m.dropPrototypes p).names := by
  rw [mem_names] at hn ⊢
  refine hn.imp_left ?_
  rintro ⟨f, hf, rfl⟩
  exact ⟨f, mem_dropPrototypes_of_isReferenced hf h, rfl⟩

/-! ## Debug records -/

/-- Functions mention records for themselves and in their instructions. -/
theorem mem_mentionedRecords {id : UInt32} :
    id ∈ m.mentionedRecords ↔ ∃ f ∈ m.functions, f.debug = some id ∨ id ∈ f.metadata := by
  simp only [mentionedRecords, List.mem_append, List.mem_filterMap, List.mem_flatMap]
  constructor
  · rintro (⟨f, hf, hd⟩ | ⟨f, hf, hd⟩)
    · exact ⟨f, hf, .inl hd⟩
    · exact ⟨f, hf, .inr hd⟩
  · rintro ⟨f, hf, hd | hd⟩
    · exact .inl ⟨f, hf, hd⟩
    · exact .inr ⟨f, hf, hd⟩

/-- The search for records takes one step, from a record to its unit. -/
theorem mem_liveRecords {id : UInt32} :
    id ∈ m.liveRecords ↔ id ∈ m.mentionedRecords ∨
      ∃ r ∈ m.debugRecords, r.id ∈ m.mentionedRecords ∧ r.entry.unit? = some id := by
  simp [liveRecords, List.mem_filterMap, and_assoc]

end Module

end DeviceCode
