import DeviceCode.Cleanup
import DeviceCode.Partition.Split
import DeviceCode.Proofs.Basic
import DeviceCode.Proofs.Module.WellFormed

/-!
# Looking names up

Where no two functions or global variables share a name, a name stands for the one thing that has
it: the first function of a name is the last one, and no function hides a global variable.
-/

namespace DeviceCode

namespace Module

variable {m : Module} {name s : String} {f : Function} {g : GlobalVariable}

/-- The names of a module are those of its functions and of its global variables. -/
theorem mem_names :
    name ∈ m.names ↔ (∃ f ∈ m.functions, f.name = name) ∨ ∃ g ∈ m.globals, g.name = name := by
  simp [names]

theorem nodup_functions (h : m.names.Nodup) : (m.functions.map (·.name)).Nodup :=
  (List.nodup_append.mp h).1

theorem nodup_globals (h : m.names.Nodup) : (m.globals.map (·.name)).Nodup :=
  (List.nodup_append.mp h).2.1

theorem eq_of_function_name (h : m.names.Nodup) {f f' : Function} (hf : f ∈ m.functions)
    (hf' : f' ∈ m.functions) (he : f.name = f'.name) : f = f' :=
  List.inj_on_of_nodup_map (nodup_functions h) hf hf' he

theorem function_name_ne (h : m.names.Nodup) (hf : f ∈ m.functions) (hg : g ∈ m.globals) :
    f.name ≠ g.name :=
  (List.nodup_append.mp h).2.2 _ (List.mem_map_of_mem hf) _ (List.mem_map_of_mem hg)

/-- The function that is found for a name is the one that has it. -/
theorem function?_eq_some_iff (h : m.names.Nodup) :
    m.function? name = some f ↔ f ∈ m.functions ∧ f.name = name :=
  find?_eq_some_iff_of_nodup (nodup_functions h)

theorem global?_eq_some_iff (h : m.names.Nodup) :
    m.global? name = some g ↔ g ∈ m.globals ∧ g.name = name :=
  find?_eq_some_iff_of_nodup (nodup_globals h)

theorem lastFunction?_eq_some_iff (h : m.names.Nodup) :
    m.lastFunction? name = some f ↔ f ∈ m.functions ∧ f.name = name := by
  have hr : (m.functions.reverse.map (·.name)).Nodup := by
    rw [List.map_reverse, List.nodup_reverse]
    exact nodup_functions h
  rw [lastFunction?, find?_eq_some_iff_of_nodup hr, List.mem_reverse]

/-- A name leads where the bodies and the initializers of that name lead. -/
theorem mem_symbolsOf (h : m.names.Nodup) :
    s ∈ m.symbolsOf name ↔ (∃ f ∈ m.functions, f.name = name ∧ s ∈ f.symbols) ∨
      ∃ g ∈ m.globals, g.name = name ∧ s ∈ g.symbols := by
  cases hf : m.function? name with
  | some f =>
      obtain ⟨hm, rfl⟩ := (function?_eq_some_iff h).mp hf
      rw [symbolsOf, hf]
      constructor
      · exact fun hs => .inl ⟨f, hm, rfl, hs⟩
      · rintro (⟨f', hf', he, hs⟩ | ⟨g, hg, he, _⟩)
        · rwa [← eq_of_function_name h hf' hm he]
        · exact absurd he.symm (function_name_ne h hm hg)
  | none =>
      have hnone : ∀ f ∈ m.functions, f.name ≠ name := by simpa [function?] using hf
      rw [symbolsOf, hf]
      cases hg : m.global? name with
      | some g =>
          obtain ⟨hm, rfl⟩ := (global?_eq_some_iff h).mp hg
          constructor
          · exact fun hs => .inr ⟨g, hm, rfl, hs⟩
          · rintro (⟨f, hf', he, _⟩ | ⟨g', hg', he, hs⟩)
            · exact absurd he (hnone f hf')
            · rwa [← List.inj_on_of_nodup_map (nodup_globals h) hg' hm he]
      | none =>
          have hnone' : ∀ g ∈ m.globals, g.name ≠ name := by simpa [global?] using hg
          refine iff_of_false List.not_mem_nil ?_
          rintro (⟨f, hf', he, _⟩ | ⟨g, hg', he, _⟩)
          · exact hnone f hf' he
          · exact hnone' g hg' he

theorem symbolsOf_eq_nil (h : name ∉ m.names) : m.symbolsOf name = [] := by
  rw [mem_names] at h
  have hf : m.function? name = none := by
    simp only [function?, List.find?_eq_none, beq_iff_eq]
    exact fun f hf he => h (.inl ⟨f, hf, he⟩)
  have hg : m.global? name = none := by
    simp only [global?, List.find?_eq_none, beq_iff_eq]
    exact fun g hg he => h (.inr ⟨g, hg, he⟩)
  simp [symbolsOf, hf, hg]

end Module

end DeviceCode
