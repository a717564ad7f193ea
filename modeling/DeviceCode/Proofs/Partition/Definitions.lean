import DeviceCode.Proofs.Assembly.RoundTrip
import DeviceCode.Proofs.Partition.Content
import DeviceCode.Proofs.Partition.SpecIds

/-!
# What a partition defines

A partition turns into declarations the functions that its kernels do not need, unless they have the
name of a global variable.  Where names are apart, all functions that it defines are needed
(`definesOnly_partition_of_apart`).
-/

namespace DeviceCode

/-- A declaration has less to write than its definition. -/
theorem Function.IsWritable.stub {f : Function} (h : f.IsWritable) : f.stub.IsWritable where
  name := h.name
  parameters := h.parameters
  blocks := List.forall_mem_nil _
  declaration _ := ⟨rfl, rfl⟩

namespace Module

/-- All functions that have a body have names of a kind. -/
def DefinesOnly (m : Module) (P : String → Prop) : Prop :=
  ∀ f ∈ m.functions, f.body ≠ none → P f.name

/-- No function that has a body has the name of a global variable. -/
def DefinesApart (m : Module) : Prop :=
  ∀ f ∈ m.functions, f.body ≠ none → ∀ g ∈ m.globals, f.name ≠ g.name

variable {m : Module} {kernels : List String} {name : String}

/-- Where all names are apart, definitions are apart from variables. -/
theorem definesApart_of_nodup (h : m.names.Nodup) : m.DefinesApart :=
  fun _ hf _ _ hg => function_name_ne h hf hg

/-! ## Needed functions -/

/-- What the search for needed functions meets is needed, also if names are not apart. -/
theorem needed_of_mem_callClosure (h : name ∈ m.callClosure kernels) : m.Needed kernels name := by
  have hr := (mem_callClosure_iff_reached.mp h).1
  clear h
  induction hr with
  | start hk => exact .kernel hk
  | step _ hc ih =>
      obtain ⟨f, g, hf, rfl, hg, rfl, hb, hc⟩ := mem_definedCallees_iff_isLast.mp hc
      exact .call hf.mem ih hg.mem (Option.isSome_iff_ne_none.mpr hb) hc

/-- Without calls nothing is needed but the kernels. -/
theorem mem_kernels_of_needed (hcallees : ∀ f ∈ m.functions, f.callees = [])
    (h : m.Needed kernels name) : name ∈ kernels := by
  cases h with
  | kernel hk => exact hk
  | call hf _ _ _ hc =>
      rw [hcallees _ hf] at hc
      cases hc

/-- A function that has a body in a partition has it in the module, and it is needed or has the name
of a global variable. -/
theorem needed_of_mem_partition {f : Function} (hf : f ∈ (m.partition kernels).functions)
    (hb : f.body ≠ none) :
    f ∈ m.functions ∧ (m.Needed kernels f.name ∨ ∃ g ∈ m.globals, g.name = f.name) := by
  have hstub := functions_clean_subset _ hf
  refine ⟨mem_functions_of_mem_stub hstub hb, ?_⟩
  obtain ⟨f', -, rfl⟩ := List.mem_map.mp hstub
  split at hb
  case isTrue hkeep =>
    rw [if_pos hkeep]
    have hneeded : m.isNeeded (m.callClosure kernels) f'.name := by
      refine (Bool.or_eq_true _ _ |>.mp hkeep).resolve_left fun hdeclaration => hb ?_
      exact Option.isNone_iff_eq_none.mp hdeclaration
    rw [isNeeded, Bool.or_eq_true, List.contains_iff_mem, List.any_eq_true] at hneeded
    simp only [beq_iff_eq] at hneeded
    exact hneeded.imp_left needed_of_mem_callClosure
  case isFalse => exact absurd rfl hb

/-- A partition defines what its kernels need; a function that shares its name with a variable keeps
its body as well. -/
theorem definesOnly_partition (m : Module) (kernels : List String) :
    (m.partition kernels).DefinesOnly fun name =>
      m.Needed kernels name ∨ ∃ g ∈ m.globals, g.name = name :=
  fun _ hf hb => (needed_of_mem_partition hf hb).2

/-- The same where no function shares its name with a variable. -/
theorem definesOnly_partition_of_apart (h : m.DefinesApart) (kernels : List String) :
    (m.partition kernels).DefinesOnly (m.Needed kernels) := by
  intro f hf hb
  obtain ⟨hm, hneeded | ⟨g, hg, he⟩⟩ := needed_of_mem_partition hf hb
  · exact hneeded
  · exact absurd he.symm (h f hm hb g hg)

/-- Payloads are no definitions. -/
theorem DefinesOnly.canonical {P : String → Prop} (h : m.DefinesOnly P) :
    m.canonical.DefinesOnly P := by
  intro f' hf' hb
  obtain ⟨f, hf, rfl⟩ := List.mem_map.mp hf'
  exact h f hf fun hnone => hb (by rw [Function.canonical, hnone, Option.map_none])

/-! ## Partitions in writing -/

/-- A partition has no variables of its own. -/
theorem mem_globals_of_mem_partition {g : GlobalVariable}
    (hg : g ∈ (m.partition kernels).globals) : g ∈ m.globals := by
  rw [← stubbed_globals m kernels]
  exact (List.mem_filter.mp hg).1

/-- The partitions of a module that can be written can be written. -/
theorem IsWritable.partition (h : m.IsWritable) (kernels : List String) :
    (m.partition kernels).IsWritable where
  globals g hg := h.globals g (mem_globals_of_mem_partition hg)
  functions f' hf' := by
    obtain ⟨f, hf, rfl⟩ := List.mem_map.mp (functions_clean_subset _ hf')
    split
    · exact h.functions f hf
    · exact (h.functions f hf).stub

end Module

end DeviceCode
