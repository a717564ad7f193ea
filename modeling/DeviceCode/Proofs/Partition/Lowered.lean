import Mathlib
import DeviceCode.Proofs.Partition.SpecIds
import DeviceCode.Proofs.Partition.Visible
import DeviceCode.Proofs.SpecConstant.Zeros

/-!
# Splitting lowered modules

A module is lowered to defaults and split, or it is split and its partitions are lowered to defaults
and cleaned up again.  The result is the same (`hasPartition_of_lowering`).  The kernels need the
same functions in both cases, since symbolic intrinsics have no bodies that a deleted call could
make needed.  Less may be live once the calls are gone, and the second cleanup is what deletes the
rest then.
-/

namespace DeviceCode.Module

open SpecConstant

variable {m m' : Module} {kernels : List String} {granularity : Granularity} {key name : String}
  {changed : Bool}

/-! ## Without unused declarations -/

/-- Nothing is needed through an unused declaration, for it has no callers. -/
theorem needed_dropPrototypes (h : m.names.Nodup) (p : String → Bool) (name : String) :
    (m.dropPrototypes p).Needed kernels name ↔ m.Needed kernels name := by
  constructor
  · exact fun hn => hn.mono (fun f hf _ _ => mem_of_mem_dropPrototypes hf) (List.Subset.refl _)
  · exact fun hn => hn.mono (fun f hf _ hb => mem_dropPrototypes_of_body h hf hb)
      (List.Subset.refl _)

theorem isReferenced_of_stubbed (h : m.names.Nodup) (hr : (m.stubbed kernels).isReferenced name) :
    m.isReferenced name := by
  refine isReferenced_iff.mpr ?_
  rcases isReferenced_iff.mp hr with ⟨f, hf, hs⟩ | ⟨g, hg, hs⟩
  · obtain ⟨hf, _⟩ := (mem_stubbed_functions_body h (body_ne_none_of_mem_symbols hs)).mp hf
    exact .inl ⟨f, hf, hs⟩
  · rw [stubbed_globals] at hg
    exact .inr ⟨g, hg, hs⟩

/-- An unused declaration stays unused when bodies go. -/
theorem mem_unusedPrototypes_stubbed (h : m.names.Nodup) {p : String → Bool}
    (hu : name ∈ m.unusedPrototypes p) : name ∈ (m.stubbed kernels).unusedPrototypes p := by
  obtain ⟨f, hf, hb, hp, hr, rfl⟩ := mem_unusedPrototypes.mp hu
  have hf' : f ∈ (m.stubbed kernels).functions := by
    rw [stubbed_functions h]
    exact List.mem_map.mpr ⟨f, hf, if_pos (.inr hb)⟩
  have hr' : ¬ (m.stubbed kernels).isReferenced f.name := fun hr' =>
    hr (isReferenced_of_stubbed h hr')
  exact mem_unusedPrototypes.mpr ⟨f, hf', hb, hp, hr', rfl⟩

/-- It is no matter whether prototypes go before the bodies do. -/
theorem stubbed_dropPrototypes (h : m.names.Nodup) (p : String → Bool) :
    (m.dropPrototypes p).stubbed kernels =
      (m.stubbed kernels).keepNames fun s => !(m.unusedPrototypes p).contains s := by
  have h' : (m.dropPrototypes p).names.Nodup := by
    rw [dropPrototypes_eq_keepNames h]
    exact nodup_names_keepNames h _
  rw [stubbed_eq h', stubbed_eq h, asNeeded_congr (needed_dropPrototypes h p),
    dropPrototypes_eq_keepNames h]
  simp only [keepNames, List.filter_map, Function.comp_def, asNeeded_name]

/-- A partition has no unused declarations, whether or not the module has. -/
theorem partition_dropPrototypes (h : m.names.Nodup) (p : String → Bool) :
    (m.dropPrototypes p).partition kernels = m.partition kernels := by
  have h' : (m.stubbed kernels).names.Nodup := nodup_names_stubbed h
  change ((m.dropPrototypes p).stubbed kernels).clean = (m.stubbed kernels).clean
  rw [stubbed_dropPrototypes h]
  refine clean_keepNames h' fun s hs => ?_
  rw [Bool.not_eq_true', Bool.eq_false_iff, ne_eq, List.contains_iff_mem]
  exact fun hu => not_mem_unusedPrototypes_of_live h' hs p (mem_unusedPrototypes_stubbed h hu)

/-! ## With zeros -/

/-- Functions that have the names of symbolic intrinsics are declarations, and no kernels. -/
def DeclaresIntrinsics (m : Module) : Prop :=
  ∀ f ∈ m.functions, isSymbolicName f.name → f.body = none ∧ f.isKernel = false

instance (m : Module) : Decidable m.DeclaresIntrinsics :=
  inferInstanceAs (Decidable (∀ f ∈ m.functions, isSymbolicName f.name →
    f.body = none ∧ f.isKernel = false))

/-- The calls that are deleted are calls of declarations, which nothing needs. -/
theorem needed_withZeros (hd : m.DeclaresIntrinsics) :
    m.withZeros.Needed kernels name ↔ m.Needed kernels name := by
  constructor
  · intro hn
    induction hn with
    | kernel hk => exact .kernel hk
    | call hf' _ hg' hb hc ih =>
        obtain ⟨f, hf, rfl⟩ := mem_functions_withZeros.mp hf'
        obtain ⟨g, hg, rfl⟩ := mem_functions_withZeros.mp hg'
        rw [Function.name_withZeros] at ih hc ⊢
        rw [Option.isSome_iff_ne_none, ne_eq, Function.body_withZeros] at hb
        exact .call hf ih hg (Option.isSome_iff_ne_none.mpr hb)
          (Function.mem_callees_withZeros.mp hc).1
  · intro hn
    induction hn with
    | kernel hk => exact .kernel hk
    | @call f g hf _ hg hb hc ih =>
        have hs : ¬ isSymbolicName g.name := by
          intro hs
          rw [(hd g hg hs).1] at hb
          cases hb
        rw [← Function.name_withZeros] at ih ⊢
        refine .call (List.mem_map_of_mem hf) ih (List.mem_map_of_mem hg) ?_ ?_
        · rw [Option.isSome_iff_ne_none, ne_eq, Function.body_withZeros]
          exact Option.isSome_iff_ne_none.mp hb
        · rw [Function.name_withZeros]
          exact Function.mem_callees_withZeros.mpr ⟨hc, hs⟩

/-- Whether a function is needed is the same with and without zeros. -/
theorem asNeeded_withZeros (hd : m.DeclaresIntrinsics) (f : Function) :
    m.withZeros.asNeeded kernels f.withZeros = (m.asNeeded kernels f).withZeros := by
  by_cases hn : m.Needed kernels f.name ∨ f.body = none
  · have hn' : m.withZeros.Needed kernels f.withZeros.name ∨ f.withZeros.body = none := by
      rwa [Function.name_withZeros, Function.body_withZeros, needed_withZeros hd]
    rw [asNeeded, asNeeded, if_pos hn, if_pos hn']
  · have hn' : ¬ (m.withZeros.Needed kernels f.withZeros.name ∨ f.withZeros.body = none) := by
      rwa [Function.name_withZeros, Function.body_withZeros, needed_withZeros hd]
    have hstub : f.stub.withZeros = f.stub := Function.withZeros_of_none rfl
    rw [asNeeded, asNeeded, if_neg hn, if_neg hn', hstub, Function.withZeros_eq]
    rfl

theorem stubbed_withZeros (h : m.names.Nodup) (hd : m.DeclaresIntrinsics) :
    m.withZeros.stubbed kernels = (m.stubbed kernels).withZeros := by
  have h' : m.withZeros.names.Nodup := by rwa [names_withZeros]
  have hfunctions : m.withZeros.functions.map (m.withZeros.asNeeded kernels) =
      (m.functions.map (m.asNeeded kernels)).map Function.withZeros := by
    rw [List.map_map]
    exact (List.map_map ..).trans (List.map_congr_left fun f _ => asNeeded_withZeros hd f)
  rw [stubbed_eq h', stubbed_eq h, hfunctions]
  rfl

/-- The zeros can be put into partitions, which are then cleaned up again. -/
theorem partition_withZeros (h : m.names.Nodup) (hd : m.DeclaresIntrinsics) :
    m.withZeros.partition kernels = (m.partition kernels).withZeros.clean := by
  calc m.withZeros.partition kernels
    _ = (m.withZeros.stubbed kernels).clean := rfl
    _ = (m.stubbed kernels).withZeros.clean := by rw [stubbed_withZeros h hd]
    _ = (m.stubbed kernels).clean.withZeros.clean := (clean_withZeros (nodup_names_stubbed h)).symm

/-! ## Lowering partitions -/

/-- Without attached string IDs the numbers begin with zero. -/
theorem AttachesNoId.freeId?_eq_zero (hnone : m.AttachesNoId) : freeId? m.specIds = some 0 := by
  rw [specIds, hnone.loweredCalls_eq_nil]
  rfl

/-- Where the module can be lowered to defaults, so can its partitions. -/
theorem exists_lowering_of_partition (hnone : m.AttachesNoId)
    (h : m.lowerSpecConstants .default = (m', .ok changed)) (kernels : List String) :
    ∃ q changed, (m.partition kernels).lowerSpecConstants .default = (q, .ok changed) := by
  have hinstructions : (m.partition kernels).instructions ⊆ m.instructions :=
    instructions_partition_subset m kernels
  have hpart : (m.partition kernels).AttachesNoId := fun i hi => hnone i (hinstructions hi)
  refine lowerSpecConstants_default_succeeds hpart.freeId?_eq_zero fun i hi => ?_
  obtain ⟨f, hf, hi⟩ := List.mem_flatMap.mp (hinstructions hi)
  exact (lowerSpecConstants_default h).1 f hf i hi

/-- One partition of the lowered module is the lowered partition, cleaned up. -/
theorem partition_of_lowering (hn : m.names.Nodup) (hd : m.DeclaresIntrinsics)
    (h : m.lowerSpecConstants .default = (m', .ok changed)) {q : Module} {changed' : Bool}
    (hq : (m.partition kernels).lowerSpecConstants .default = (q, .ok changed')) :
    m'.partition kernels = q.clean := by
  obtain ⟨p, _, rfl⟩ := eq_dropPrototypes_withZeros h
  obtain ⟨p', _, rfl⟩ := eq_dropPrototypes_withZeros hq
  have hzeros : m.withZeros.names.Nodup := by rwa [names_withZeros]
  have hpart : (m.partition kernels).withZeros.names.Nodup := by
    rw [names_withZeros]
    exact hn.sublist (isPartition_partition hn kernels).names_sublist
  rw [partition_dropPrototypes hzeros, partition_withZeros hn hd, clean_dropPrototypes hpart]

theorem kernels_of_lowering (hd : m.DeclaresIntrinsics)
    (h : m.lowerSpecConstants .default = (m', .ok changed)) :
    m'.kernels = m.kernels.map Function.withZeros := by
  obtain ⟨p, hp, rfl⟩ := eq_dropPrototypes_withZeros h
  have hkernel : Function.isKernel ∘ Function.withZeros = Function.isKernel :=
    funext Function.isKernel_withZeros
  have hkept : ∀ f ∈ m.withZeros.functions,
      (f.isKernel && !(m.withZeros.unusedPrototypes p).contains f.name) = f.isKernel := by
    intro f' hf'
    obtain ⟨f, hf, rfl⟩ := mem_functions_withZeros.mp hf'
    rw [Bool.and_eq_left_iff_imp, Bool.not_eq_true', Bool.eq_false_iff, ne_eq,
      List.contains_iff_mem]
    intro hk hu
    obtain ⟨_, _, _, hs, _, he⟩ := mem_unusedPrototypes.mp hu
    have hs : isSymbolicName f.name := by
      rw [← Function.name_withZeros, ← he]
      exact hp _ hs
    rw [Function.isKernel_withZeros, (hd f hf hs).2] at hk
    cases hk
  calc (m.withZeros.dropPrototypes p).kernels
    _ = m.withZeros.functions.filter fun f =>
          f.isKernel && !(m.withZeros.unusedPrototypes p).contains f.name := List.filter_filter ..
    _ = m.withZeros.functions.filter Function.isKernel := List.filter_congr hkept
    _ = m.kernels.map Function.withZeros := by
          rw [withZeros, List.filter_map, hkernel, kernels]

/-- A module that is read attaches no string ID and only declares symbolic intrinsics.  If it can be
lowered to defaults, it has the same groups of kernels then, and each of its partitions can be
lowered too.  A cleanup of the lowered partition gives the partition of the lowered module. -/
theorem hasPartition_of_lowering {text : String} (hr : Module.read text = .ok m)
    (hd : m.DeclaresIntrinsics) (hnone : m.AttachesNoId)
    (h : m.lowerSpecConstants .default = (m', .ok changed)) (granularity : Granularity) :
    KernelGroups.ofModule granularity m' = KernelGroups.ofModule granularity m ∧
      ∀ key p, m.HasPartition granularity key p →
        ∃ q changed, p.lowerSpecConstants .default = (q, .ok changed) ∧
          m'.HasPartition granularity key q.clean := by
  have hn : m.names.Nodup := (wellFormed_of_read hr).names
  have hgroups : KernelGroups.ofModule granularity m' = KernelGroups.ofModule granularity m := by
    refine KernelGroups.ofModule_congr fun key => ?_
    rw [kernels_of_lowering hd h]
    exact KernelGroups.namesOfKey_map Function.name_withZeros Function.attributes_withZeros _
  refine ⟨hgroups, fun key p hp => ?_⟩
  obtain ⟨kernels, hg, rfl⟩ := hasPartition_iff.mp hp
  obtain ⟨q, changed, hq⟩ := exists_lowering_of_partition hnone h kernels
  have hg' : (key, kernels) ∈ (KernelGroups.ofModule granularity m').entries := by
    rwa [hgroups]
  exact ⟨q, changed, hq, (hasPartition_of_mem hg').mpr (partition_of_lowering hn hd h hq)⟩

/-- A kernel that reads a constant, with a global variable and a debug record attached to the
call. -/
def attachedToCall : Module where
  sourceName := none
  globals := [⟨"t", .internal, false, some .zero⟩]
  functions := [
    .declaration "__sycl_getSpecConstantValue" .i1 [],
    { Function.declaration "f" .void [] with
      convention := .kernel
      body := some [⟨"a", [
        ⟨none, .call .i1 (.direct "__sycl_getSpecConstantValue") [.string "A"],
          [⟨"n", .symbol "t"⟩, ⟨"d", .metadata 0⟩]⟩]⟩] }]
  debugRecords := [⟨0, .compileUnit "u"⟩]

/-- The partition has the variable and the record.  They are still there when it is lowered, and
only a cleanup makes it the partition of the lowered module, which has neither. -/
theorem attachedToCall_lowered :
    Module.read ("@t = internal global zeroinitializer\n" ++
        "declare i1 @__sycl_getSpecConstantValue()\ndefine spir_kernel void @f() \x7b\na:\n" ++
        "call i1 @__sycl_getSpecConstantValue(\"A\") !n @t !d !0\n\x7d\n" ++
        "!0 = compile_unit \"u\"\n") = .ok attachedToCall ∧
      attachedToCall.DeclaresIntrinsics ∧ attachedToCall.AttachesNoId ∧
      ∃ m' p q, attachedToCall.lowerSpecConstants .default = (m', .ok true) ∧
        attachedToCall.HasPartition .kernel "f" p ∧
        p.lowerSpecConstants .default = (q, .ok true) ∧
        q.globals = attachedToCall.globals ∧ q.debugRecords = attachedToCall.debugRecords ∧
        q.clean.globals = [] ∧ q.clean.debugRecords = [] ∧ m'.HasPartition .kernel "f" q.clean := by
  have hr : Module.read ("@t = internal global zeroinitializer\n" ++
      "declare i1 @__sycl_getSpecConstantValue()\ndefine spir_kernel void @f() \x7b\na:\n" ++
      "call i1 @__sycl_getSpecConstantValue(\"A\") !n @t !d !0\n\x7d\n" ++
      "!0 = compile_unit \"u\"\n") = .ok attachedToCall := by decide +kernel
  have hd : attachedToCall.DeclaresIntrinsics := by decide
  have hnone : attachedToCall.AttachesNoId := by decide
  have hl : attachedToCall.lowerSpecConstants .default =
      ((attachedToCall.lowerSpecConstants .default).1, .ok true) := by decide +kernel
  have hg : ("f", ["f"]) ∈ (KernelGroups.ofModule .kernel attachedToCall).entries := by decide
  have hpart : attachedToCall.partition ["f"] = attachedToCall := by cbv
  have hp : attachedToCall.HasPartition .kernel "f" attachedToCall :=
    (hasPartition_of_mem hg).mpr hpart
  obtain ⟨_, hparts⟩ := hasPartition_of_lowering hr hd hnone hl .kernel
  obtain ⟨q, changed, hq, hq'⟩ := hparts "f" _ hp
  obtain ⟨rfl, rfl⟩ : (attachedToCall.lowerSpecConstants .default).1 = q ∧ true = changed := by
    simpa using hl.symm.trans hq
  exact ⟨hr, hd, hnone, _, _, _, hl, hp, hl, by cbv, by cbv, by cbv, by cbv, hq'⟩

end DeviceCode.Module
