import DeviceCode.Proofs.Cleanup.Trimming
import DeviceCode.Proofs.SpecConstant.Faults
import DeviceCode.Proofs.SpecConstant.SecondRun

/-!
# What zeros take away

A function with zeros has no call of a symbolic intrinsic left, and what only such calls mentioned
is not mentioned any more.  Nothing else that a cleanup looks at is changed, so a cleanup before the
zeros deletes nothing that it would keep after them (`clean_withZeros`).
-/

namespace DeviceCode

/-- What is seen alike of a name and of its substitute is not changed. -/
theorem Operand.substitute_congr {α : Type} {view : Operand → α} {new : Operand} {name : String}
    (h : view new = view (.value name)) (o : Operand) : view (substitute name new o) = view o := by
  by_cases ho : o = .value name
  · rw [ho, substitute, if_pos rfl, h]
  · rw [substitute_of_ne ho]

namespace Instruction

variable {i : Instruction} {name : String} {new : Operand} {zeros : List (String × Operand)}

theorem filterMap_operands_substitute {α : Type} {view : Operand → Option α}
    (h : view new = view (.value name)) :
    (i.substitute name new).operands.filterMap view = i.operands.filterMap view := by
  rw [operands_substitute, List.filterMap_map]
  exact List.filterMap_congr fun o _ => Operand.substitute_congr h o

/-- An operand that mentions nothing, like a scalar constant, may stand for a value. -/
theorem mentions_substitute (hs : new.symbol? = none) (hm : new.metadata? = none) :
    (i.substitute name new).symbols = i.symbols ∧
      (i.substitute name new).metadata = i.metadata := by
  constructor
  · rw [symbols, symbols, directCallee?_substitute, filterMap_operands_substitute hs]
    rfl
  · rw [metadata, metadata, filterMap_operands_substitute hm]
    rfl

/-- Zeros mention nothing, and results are no symbols; so the instruction mentions what it did. -/
theorem mentions_substituteAll
    (hz : ∀ z ∈ zeros, z.2.symbol? = none ∧ z.2.metadata? = none) :
    (i.substituteAll zeros).symbols = i.symbols ∧
      (i.substituteAll zeros).metadata = i.metadata := by
  induction zeros generalizing i with
  | nil => exact ⟨rfl, rfl⟩
  | cons z zeros ih =>
      obtain ⟨⟨hs, hm⟩, hzs⟩ := List.forall_mem_cons.mp hz
      obtain ⟨hss, hms⟩ := ih (i := i.substitute z.1 z.2) hzs
      obtain ⟨hs, hm⟩ := mentions_substitute hs hm
      exact ⟨hss.trans hs, hms.trans hm⟩

end Instruction

namespace Function

open SpecConstant

variable {f : Function} {s : String}

/-! ## Functions with zeros -/

/-- Substitution goes through the instructions and leaves their order. -/
theorem substituteZeros_eq (zeros : List (String × Operand)) (f : Function) :
    substituteZeros zeros f = f.mapInstructions (Instruction.substituteAll zeros) := by
  induction zeros generalizing f with
  | nil =>
      have hid : Instruction.substituteAll [] = id := rfl
      rcases f with ⟨_, _, _, _, _, _, _, body⟩
      cases body with
      | none => rfl
      | some blocks => simp [substituteZeros, mapInstructions, hid]
  | cons z zeros ih =>
      change substituteZeros zeros (f.mapInstructions _) = _
      rw [ih, mapInstructions, mapInstructions, Option.map_map]
      congr 2
      funext blocks
      simp [Instruction.substituteAll]

/-- Zeros change nothing but the body. -/
theorem withZeros_eq (f : Function) : f.withZeros = { f with body := f.withZeros.body } := by
  rw [withZeros, substituteZeros_eq]
  rfl

@[simp] theorem linkage_withZeros (f : Function) : f.withZeros.linkage = f.linkage := by
  rw [withZeros_eq]

@[simp] theorem attributes_withZeros (f : Function) : f.withZeros.attributes = f.attributes := by
  rw [withZeros_eq]

@[simp] theorem isKernel_withZeros (f : Function) : f.withZeros.isKernel = f.isKernel := by
  rw [withZeros_eq]
  rfl

/-- A declaration has no zeros. -/
theorem withZeros_of_none (hb : f.body = none) : f.withZeros = f := by
  rw [withZeros_eq, (body_withZeros f).mpr hb, ← hb]

theorem withZeros_of_not_symbolic (h : ∀ i ∈ f.instructions, i.isSymbolicCall = false) :
    f.withZeros = f := by
  have hzeros : f.zeros = [] := by
    rw [zeros, List.filterMap_eq_nil_iff]
    intro i hi
    rw [zero?, symbolicCall?_of_not_isSymbolicCall (h i hi)]
  rw [withZeros, hzeros]
  change withoutSymbolicCalls f = f
  cases hb : f.body with
  | none => rw [withoutSymbolicCalls, hb, Option.map_none, ← hb]
  | some blocks =>
      have hblocks : blocks.map Block.withoutSymbolicCalls = blocks := by
        refine (List.map_congr_left fun b hmem => ?_).trans (List.map_id _)
        have hkept : b.instructions.filter (!·.isSymbolicCall) = b.instructions := by
          refine List.filter_eq_self.mpr fun i hi => ?_
          rw [instructions_of_some hb] at h
          rw [h i (List.mem_flatMap.mpr ⟨b, hmem, hi⟩), Bool.not_false]
        rw [Block.withoutSymbolicCalls, hkept, id_eq]
      rw [withoutSymbolicCalls, hb, Option.map_some, hblocks, ← hb]

@[simp] theorem isDeclaration_withZeros (f : Function) :
    f.withZeros.isDeclaration = f.isDeclaration := by
  rw [Bool.eq_iff_iff, isDeclaration, isDeclaration, Option.isNone_iff_eq_none,
    Option.isNone_iff_eq_none, body_withZeros]

/-! ## What is still mentioned -/

theorem mentions_withZeros {i : Instruction} (hi : i ∈ f.withZeros.instructions) :
    ∃ j ∈ f.instructions, j.isSymbolicCall = false ∧ i.directCallee? = j.directCallee? ∧
      i.symbols = j.symbols ∧ i.metadata = j.metadata := by
  obtain ⟨j, hj, hs, rfl⟩ := mem_instructions_withZeros.mp hi
  have hzeros : ∀ z ∈ f.zeros, z.2.symbol? = none ∧ z.2.metadata? = none := by
    intro z hz
    obtain ⟨i, _, hi⟩ := List.mem_filterMap.mp hz
    obtain ⟨_, c, _, hc⟩ := zero?_eq_some_iff.mp hi
    rw [← hc]
    exact ⟨rfl, rfl⟩
  exact ⟨j, hj, hs, Instruction.directCallee?_substituteAll,
    Instruction.mentions_substituteAll hzeros⟩

theorem symbols_withZeros_subset (f : Function) : f.withZeros.symbols ⊆ f.symbols := by
  intro s hs
  obtain ⟨i, hi, hs⟩ := List.mem_flatMap.mp hs
  obtain ⟨j, hj, _, _, he, _⟩ := mentions_withZeros hi
  exact List.mem_flatMap.mpr ⟨j, hj, he ▸ hs⟩

theorem metadata_withZeros_subset (f : Function) : f.withZeros.metadata ⊆ f.metadata := by
  intro id hid
  obtain ⟨i, hi, hid⟩ := List.mem_flatMap.mp hid
  obtain ⟨j, hj, _, _, _, he⟩ := mentions_withZeros hi
  exact List.mem_flatMap.mpr ⟨j, hj, he ▸ hid⟩

/-- All calls but those of symbolic intrinsics are still made. -/
theorem mem_callees_withZeros : s ∈ f.withZeros.callees ↔ s ∈ f.callees ∧ ¬ isSymbolicName s := by
  rw [callees, callees, instructions_withZeros, List.filterMap_map, List.mem_filterMap,
    List.mem_filterMap]
  simp only [Function.comp_apply, Instruction.directCallee?_substituteAll, List.mem_filter]
  have hsymbolic : ∀ i : Instruction, i.directCallee? = some s →
      i.isSymbolicCall = isSymbolicName s := by
    intro i hi
    rw [Instruction.isSymbolicCall, hi, Option.any_some]
  constructor
  · rintro ⟨i, ⟨hi, hn⟩, hc⟩
    rw [hsymbolic i hc, Bool.not_eq_true', Bool.eq_false_iff] at hn
    exact ⟨⟨i, hi, hc⟩, hn⟩
  · rintro ⟨⟨i, hi, hc⟩, hn⟩
    refine ⟨i, ⟨hi, ?_⟩, hc⟩
    rwa [hsymbolic i hc, Bool.not_eq_true', Bool.eq_false_iff]

end Function

namespace Module

open SpecConstant

variable {m m' : Module} {changed : Bool} {name : String}

/-! ## Modules with zeros -/

/-- The module with zeros in place of its symbolic calls. -/
def withZeros (m : Module) : Module := { m with functions := m.functions.map Function.withZeros }

@[simp] theorem names_withZeros (m : Module) : m.withZeros.names = m.names := by
  simp only [names, withZeros, List.map_map, Function.comp_def, Function.name_withZeros]

theorem mem_functions_withZeros {f' : Function} :
    f' ∈ m.withZeros.functions ↔ ∃ f ∈ m.functions, f.withZeros = f' :=
  List.mem_map

theorem withZeros_of_not_symbolic (h : m.hasSymbolicCall = false) : m.withZeros = m := by
  have hfunctions : m.functions.map Function.withZeros = m.functions := by
    refine (List.map_congr_left fun f hf => ?_).trans (List.map_id _)
    exact Function.withZeros_of_not_symbolic fun i hi =>
      isSymbolicCall_eq_false h (List.mem_flatMap.mpr ⟨f, hf, hi⟩)
  rw [withZeros, hfunctions]

/-- A lowering to defaults puts zeros in place of symbolic calls and then deletes unused
declarations, if any, of symbolic intrinsics. -/
theorem eq_dropPrototypes_withZeros (h : m.lowerSpecConstants .default = (m', .ok changed)) :
    ∃ p : String → Bool, (∀ s, p s → isSymbolicName s) ∧ m' = m.withZeros.dropPrototypes p := by
  obtain ⟨_, hm⟩ := lowerSpecConstants_default h
  cases hs : m.hasSymbolicCall with
  | true =>
      rw [hs, if_pos rfl] at hm
      exact ⟨isSymbolicName, fun _ => id, hm⟩
  | false =>
      rw [hs, if_neg Bool.false_ne_true] at hm
      have hunused : m.unusedPrototypes (fun _ => false) = [] := by simp [unusedPrototypes]
      refine ⟨fun _ => false, fun _ hp => absurd hp Bool.false_ne_true, ?_⟩
      rw [withZeros_of_not_symbolic hs, dropPrototypes_eq_self hunused, hm]

/-! ## When a lowering to defaults succeeds -/

/-- With a free number and well-formed calls only, a lowering to defaults succeeds. -/
theorem lowerSpecConstants_default_succeeds {next : UInt32} (hnext : freeId? m.specIds = some next)
    (hcalls : ∀ i ∈ m.instructions, ∃ c, symbolicCall? i = .ok c) :
    ∃ m' changed, m.lowerSpecConstants .default = (m', .ok changed) := by
  have hentries : ∀ entry ∈ m.namedInstructions, ¬ entry.2.IsMalformed := by
    intro entry he
    refine Instruction.not_isMalformed_iff.mpr (hcalls entry.2 ?_)
    rw [← map_snd_namedInstructions]
    exact List.mem_map_of_mem he
  obtain ⟨t, ht⟩ := (foldlM_visit_of_wellFormed hentries
    ⟨⟨m.specIds, next⟩, [], false⟩).resolve_right (foldlM_visit_default _ _)
  have hsnd := m.lowerSpecConstants_snd .default
  rw [hnext] at hsnd
  dsimp only at hsnd
  rw [ht] at hsnd
  exact ⟨_, t.changed, Prod.ext rfl hsnd⟩

/-! ## Cleanups -/

/-- The visible names are the same. -/
@[simp] theorem visibleNames_withZeros (m : Module) :
    m.withZeros.visibleNames = m.visibleNames := by
  simp only [visibleNames, withZeros, List.filter_map, List.map_map, Function.comp_def,
    Function.isDeclaration_withZeros, Function.linkage_withZeros, Function.name_withZeros]

theorem symbolsOf_withZeros_subset (h : m.names.Nodup) (name : String) :
    m.withZeros.symbolsOf name ⊆ m.symbolsOf name := by
  have h' : m.withZeros.names.Nodup := by rwa [names_withZeros]
  intro s hs
  rcases (mem_symbolsOf h').mp hs with ⟨f', hf', rfl, hm⟩ | ⟨g, hg, rfl, hm⟩
  · obtain ⟨f, hf, rfl⟩ := mem_functions_withZeros.mp hf'
    rw [Function.name_withZeros]
    exact (mem_symbolsOf h).mpr (.inl ⟨f, hf, rfl, f.symbols_withZeros_subset hm⟩)
  · exact (mem_symbolsOf h).mpr (.inr ⟨g, hg, rfl, hm⟩)

theorem liveNames_withZeros_subset (h : m.names.Nodup) :
    m.withZeros.liveNames ⊆ m.liveNames := by
  intro s hs
  obtain ⟨hr, hn⟩ := mem_liveNames.mp hs
  rw [names_withZeros] at hn
  refine mem_liveNames.mpr ⟨hr.mono ?_ fun y _ => symbolsOf_withZeros_subset h y, hn⟩
  rw [visibleNames_withZeros]
  exact List.Subset.refl _

theorem mentionedRecords_withZeros_subset (h : m.names.Nodup) :
    m.withZeros.removeDead.1.mentionedRecords ⊆ m.removeDead.1.mentionedRecords := by
  intro id hid
  obtain ⟨f', hf', hid⟩ := mem_mentionedRecords.mp hid
  obtain ⟨hf', hl⟩ := List.mem_filter.mp hf'
  obtain ⟨f, hf, rfl⟩ := mem_functions_withZeros.mp hf'
  rw [Function.name_withZeros, List.contains_iff_mem] at hl
  refine mem_mentionedRecords.mpr ⟨f, List.mem_filter.mpr ⟨hf, ?_⟩, ?_⟩
  · exact List.contains_iff_mem.mpr (liveNames_withZeros_subset h hl)
  · rcases hid with hd | hm
    · rw [Function.withZeros_eq] at hd
      exact .inl hd
    · exact .inr (f.metadata_withZeros_subset hm)

theorem liveRecords_withZeros_subset (h : m.names.Nodup) :
    m.withZeros.removeDead.1.liveRecords ⊆ m.removeDead.1.liveRecords := by
  intro id hid
  refine mem_liveRecords.mpr ?_
  rcases mem_liveRecords.mp hid with hm | ⟨r, hr, hm, hu⟩
  · exact .inl (mentionedRecords_withZeros_subset h hm)
  · exact .inr ⟨r, hr, mentionedRecords_withZeros_subset h hm, hu⟩

/-- Zeros and deletions do not get in each other's way. -/
theorem withZeros_trim (m : Module) (keep : String → Bool) (keepRecord : UInt32 → Bool) :
    (m.trim keep keepRecord).withZeros = m.withZeros.trim keep keepRecord := by
  simp only [withZeros, trim, keepNames, List.filter_map, Function.comp_def,
    Function.name_withZeros]

/-- What is dead without zeros is dead with them. -/
theorem clean_withZeros (h : m.names.Nodup) : m.clean.withZeros.clean = m.withZeros.clean := by
  have h' : m.withZeros.names.Nodup := by rwa [names_withZeros]
  rw [clean_eq_trim h, withZeros_trim]
  refine clean_trim h' ?_ ?_
  · intro s hs
    exact List.contains_iff_mem.mpr (liveNames_withZeros_subset h hs)
  · intro id hid
    exact List.contains_iff_mem.mpr (liveRecords_withZeros_subset h hid)

end Module

end DeviceCode
