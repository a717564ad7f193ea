import DeviceCode.Partition.Split
import DeviceCode.Proofs.Cleanup.Liveness
import DeviceCode.Proofs.SpecConstant.Agreement

/-!
# The numbers that partitions tell

Each partition of a lowered module tells the numbers of its own constants, from the lowered calls in
the bodies it keeps.  Where all lowered calls of the module agree, a partition tells a part of the
numbers of the whole, so partitions agree with one another.  This is so if the module had no string
IDs attached before it was lowered (`specIds_of_split`).
-/

namespace DeviceCode

namespace Module

open SpecConstant

variable {m m' p : Module} {kernels : List String} {changed : Bool} {s : String} {id : UInt32}

/-! ## Bodies of partitions -/

/-- A body that is left among stubs was a body before. -/
theorem mem_functions_of_mem_stub {keep : String → Bool} {f : Function}
    (hf : f ∈ (m.stub keep).functions) (hb : f.body ≠ none) : f ∈ m.functions := by
  obtain ⟨f', hf', rfl⟩ := List.mem_map.mp hf
  split at hb
  case isTrue h => rwa [if_pos h]
  case isFalse => exact absurd rfl hb

/-- A cleanup only deletes. -/
theorem functions_clean_subset (m : Module) : m.clean.functions ⊆ m.functions := by
  intro f hf
  have hlive : f ∈ m.removeDead.1.removeDeadRecords.1.functions := mem_of_mem_dropPrototypes hf
  exact (List.mem_filter.mp hlive).1

/-- A function that has a body in a partition is a function of the module. -/
theorem mem_functions_of_mem_partition {f : Function} (hf : f ∈ (m.partition kernels).functions)
    (hb : f.body ≠ none) : f ∈ m.functions :=
  mem_functions_of_mem_stub (functions_clean_subset _ hf) hb

/-- A partition has no instructions of its own. -/
theorem instructions_partition_subset (m : Module) (kernels : List String) :
    (m.partition kernels).instructions ⊆ m.instructions := by
  intro i hi
  obtain ⟨f, hf, hi⟩ := List.mem_flatMap.mp hi
  have hb : f.body ≠ none := by
    intro hb
    rw [Function.instructions_of_none hb] at hi
    cases hi
  exact List.mem_flatMap.mpr ⟨f, mem_functions_of_mem_partition hf hb, hi⟩

/-- What a lowered call tells is told by its instruction alone. -/
theorem loweredCalls_subset_of_instructions (h : p.instructions ⊆ m.instructions) :
    p.loweredCalls ⊆ m.loweredCalls := by
  intro call hcall
  obtain ⟨i, hi, hc⟩ := mem_loweredCalls.mp hcall
  exact mem_loweredCalls.mpr ⟨i, h hi, hc⟩

/-! ## Attached string IDs -/

/-- A body of the module has an instruction with the string ID attached. -/
def AttachesId (m : Module) (s : String) : Prop :=
  ∃ f ∈ m.functions, ∃ i ∈ f.instructions, ⟨attachmentKind, .string s⟩ ∈ i.attachments

/-- No instruction of the module has anything attached as a string ID. -/
def AttachesNoId (m : Module) : Prop :=
  ∀ i ∈ m.instructions, ∀ a ∈ i.attachments, a.kind ≠ attachmentKind

instance (m : Module) : Decidable m.AttachesNoId :=
  inferInstanceAs (Decidable (∀ i ∈ m.instructions, ∀ a ∈ i.attachments, a.kind ≠ attachmentKind))

/-- A number that is told is told for an attached string ID. -/
theorem attachesId_of_mem_loweredCalls (h : (s, id) ∈ m.loweredCalls) : m.AttachesId s := by
  obtain ⟨i, hi, hcall⟩ := mem_loweredCalls.mp h
  obtain ⟨f, hf, hi⟩ := List.mem_flatMap.mp hi
  refine ⟨f, hf, i, hi, ?_⟩
  obtain ⟨_, _, _, _, _, ha, _⟩ := loweredCall?_eq_some_iff.mp hcall
  obtain ⟨⟨kind, value⟩, hfind, rfl⟩ := Option.map_eq_some_iff.mp ha
  obtain rfl : kind = attachmentKind := by simpa using List.find?_some hfind
  exact List.mem_of_find?_eq_some hfind

namespace AttachesNoId

variable {i : Instruction}

/-- If nothing is attached, no instruction has an attachment with a string ID. -/
theorem attachment?_eq_none (h : m.AttachesNoId) (hi : i ∈ m.instructions) :
    i.attachment? attachmentKind = none := by
  rw [Instruction.attachment?, Option.map_eq_none_iff, List.find?_eq_none]
  simpa using h i hi

/-- So no lowered call tells a number. -/
theorem loweredCalls_eq_nil (h : m.AttachesNoId) : m.loweredCalls = [] := by
  rw [List.eq_nil_iff_forall_not_mem]
  rintro ⟨s, id⟩ hcall
  obtain ⟨f, hf, i, hi, ha⟩ := attachesId_of_mem_loweredCalls hcall
  exact h i (List.mem_flatMap.mpr ⟨f, hf, hi⟩) _ ha rfl

theorem specIdsAgree (h : m.AttachesNoId) : m.SpecIdsAgree := by
  have hget : ∀ s id, m.specIds.get? s ≠ some id := by
    intro s id hs
    have hcall := mem_loweredCalls_of_get? hs
    rw [h.loweredCalls_eq_nil] at hcall
    cases hcall
  refine ⟨?_, fun s _ id hs => absurd hs (hget s id)⟩
  rw [h.loweredCalls_eq_nil]
  exact nofun

/-- If nothing is attached, each symbolic call has the string ID that it asks for. -/
theorem hasOwnId (h : m.AttachesNoId) (hi : i ∈ m.instructions) : HasOwnId i := by
  have ha : attachedId? i = none := by rw [attachedId?, h.attachment?_eq_none hi]
  intro id _ s hs
  rw [ha] at hs
  cases hs

/-- The string IDs that a lowering attaches are those of the calls it leaves. -/
theorem exists_loweredCall (h : m.AttachesNoId) (hi : i ∈ m.instructions)
    {number : String → UInt32}
    (ha : ⟨attachmentKind, .string s⟩ ∈ (numbered number i).attachments) :
    ∃ id, loweredCall? (numbered number i) = some (s, id) := by
  by_cases hc : ∃ c, symbolicCall? i = .ok (some c)
  · obtain ⟨c, hc⟩ := hc
    rw [numbered_of_some hc] at ha ⊢
    rcases List.mem_append.mp ha with hold | hnew
    · exact absurd rfl (h i hi _ hold)
    · obtain rfl : s = c.id := by simpa using hnew
      refine ⟨number c.id, ?_⟩
      rw [loweredCall?_lower _ hc, recordedAs?_of_attachment?_none hc (h.attachment?_eq_none hi),
        Option.map_some]
  · rw [numbered_of_not_symbolic (not_exists.mp hc)] at ha
    exact absurd rfl (h i hi _ ha)

end AttachesNoId

/-! ## The numbers of partitions -/

/-- A module without attached string IDs is lowered and split.  Then each partition tells the
numbers that the whole tells for the string IDs that its bodies have attached, and it tells one for
each of them.  So partitions give one string ID one number, and one number to one string ID. -/
theorem specIds_of_split {text : String} (hr : Module.read text = .ok m) (hnone : m.AttachesNoId)
    (h : m.lowerSpecConstants .runtime = (m', .ok changed)) (groups : KernelGroups) :
    (∀ p ∈ m'.split groups,
      (∀ s id, p.specIds.get? s = some id ↔ p.AttachesId s ∧ m'.specIds.get? s = some id) ∧
      ∀ s, p.AttachesId s → ∃ id, p.specIds.get? s = some id) ∧
    (∀ p ∈ m'.split groups, ∀ q ∈ m'.split groups, ∀ s id id',
      p.specIds.get? s = some id → q.specIds.get? s = some id' → id = id') ∧
    ∀ p ∈ m'.split groups, ∀ q ∈ m'.split groups, ∀ s t id,
      p.specIds.get? s = some id → q.specIds.get? t = some id → s = t := by
  obtain ⟨n, hn, hm⟩ := instructions_of_numbering (prototypesApart_of_read hr _) h
  have hagree : m'.SpecIdsAgree :=
    hnone.specIdsAgree.of_numbering hn (fun _ => hnone.hasOwnId) hm
  have hinstructions : ∀ p ∈ m'.split groups, p.instructions ⊆ m'.instructions := by
    intro p hp
    obtain ⟨kernels, _, rfl⟩ := List.mem_map.mp hp
    exact instructions_partition_subset m' kernels
  have hwhole : ∀ p ∈ m'.split groups, ∀ s id,
      p.specIds.get? s = some id → m'.specIds.get? s = some id := by
    intro p hp s id
    exact hagree.get?_of_subset (loweredCalls_subset_of_instructions (hinstructions p hp))
  have hattached : ∀ p ∈ m'.split groups, ∀ s,
      p.AttachesId s → ∃ id, p.specIds.get? s = some id := by
    rintro p hp s ⟨f, hf, i, hi, ha⟩
    have hi : i ∈ p.instructions := List.mem_flatMap.mpr ⟨f, hf, hi⟩
    obtain ⟨i', hi', rfl⟩ : ∃ i' ∈ m.instructions, numbered n.number i' = i := by
      simpa [hm] using hinstructions p hp hi
    obtain ⟨id, hcall⟩ := hnone.exists_loweredCall hi' ha
    exact exists_get?_of_mem_loweredCalls (mem_loweredCalls.mpr ⟨_, hi, hcall⟩)
  refine ⟨fun p hp => ⟨fun s id => ⟨fun hs => ?_, ?_⟩, hattached p hp⟩, ?_, ?_⟩
  · exact ⟨attachesId_of_mem_loweredCalls (mem_loweredCalls_of_get? hs), hwhole p hp s id hs⟩
  · rintro ⟨hs, hid⟩
    obtain ⟨id', hid'⟩ := hattached p hp s hs
    rw [hid', ← hid, hwhole p hp s id' hid']
  · intro p hp q hq s id id' hs hs'
    exact Option.some.inj ((hwhole p hp s id hs).symm.trans (hwhole q hq s id' hs'))
  · intro p hp q hq s t id hs ht
    exact hagree.distinct s t id (hwhole p hp s id hs) (hwhole q hq t id ht)

/-- Two kernels that read constants; one of them calls the other. -/
def callingKernels : Module where
  sourceName := none
  globals := []
  functions := [
    .declaration "__sycl_getSpecConstantValue" .i1 [],
    { Function.declaration "f" .void [] with
      convention := .kernel
      body := some [⟨"a", [
        ⟨none, .call .i1 (.direct "__sycl_getSpecConstantValue") [.string "A"], []⟩]⟩] },
    { Function.declaration "g" .void [] with
      convention := .kernel
      body := some [⟨"a", [
        ⟨none, .call .i1 (.direct "__sycl_getSpecConstantValue") [.string "B"], []⟩,
        ⟨none, .call .void (.direct "f") [], []⟩]⟩] }]
  debugRecords := []

/-- Both partitions tell one number for the constant that both read. -/
theorem specIds_of_split_callingKernels :
    ∃ m', Module.read ("declare i1 @__sycl_getSpecConstantValue()\n" ++
        "define spir_kernel void @f() \x7b\na:\n" ++
        "call i1 @__sycl_getSpecConstantValue(\"A\")\n\x7d\n" ++
        "define spir_kernel void @g() \x7b\na:\n" ++
        "call i1 @__sycl_getSpecConstantValue(\"B\")\ncall void @f()\n\x7d\n") =
          .ok callingKernels ∧
      callingKernels.AttachesNoId ∧
      callingKernels.lowerSpecConstants .runtime = (m', .ok true) ∧
      m'.specIds.get? "A" = some 0 ∧ (m'.split (.ofModule .kernel m')).length = 2 ∧
      ∀ p ∈ m'.split (.ofModule .kernel m'), p.AttachesId "A" → p.specIds.get? "A" = some 0 := by
  have hr : Module.read ("declare i1 @__sycl_getSpecConstantValue()\n" ++
      "define spir_kernel void @f() \x7b\na:\n" ++
      "call i1 @__sycl_getSpecConstantValue(\"A\")\n\x7d\n" ++
      "define spir_kernel void @g() \x7b\na:\n" ++
      "call i1 @__sycl_getSpecConstantValue(\"B\")\ncall void @f()\n\x7d\n") =
        .ok callingKernels := by decide +kernel
  have hnone : callingKernels.AttachesNoId := by decide +kernel
  have hl : callingKernels.lowerSpecConstants .runtime =
      ((callingKernels.lowerSpecConstants .runtime).1, .ok true) := by decide +kernel
  have ha : (callingKernels.lowerSpecConstants .runtime).1.specIds.get? "A" = some 0 := by
    decide +kernel
  obtain ⟨hparts, -, -⟩ :=
    specIds_of_split hr hnone hl (.ofModule .kernel (callingKernels.lowerSpecConstants .runtime).1)
  refine ⟨_, hr, hnone, hl, ha, by decide +kernel, fun p hp hs => ?_⟩
  exact ((hparts p hp).1 "A" 0).mpr ⟨hs, ha⟩

end Module

end DeviceCode
