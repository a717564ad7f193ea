import Mathlib
import DeviceCode.Proofs.Partition.Visible

/-!
# Partitions of rearranged modules

What kernels need and what is live depends on what a module has and not on the order that it has it
in.  So the partitions of a module and of the same module in another order differ in their order
only (`hasPartition_of_rearranges`).
-/

namespace DeviceCode.Module

/-- The modules have the same functions, global variables and debug records, each in an order of its
own. -/
structure Rearranges (m m' : Module) : Prop where
  sourceName : m'.sourceName = m.sourceName
  functions : m'.functions.Perm m.functions
  globals : m'.globals.Perm m.globals
  debugRecords : m'.debugRecords.Perm m.debugRecords

/-- What a partition has stands in the order of the module that it is made from. -/
structure OrderedAs (p m : Module) : Prop where
  functions : (p.functions.map (·.name)).Sublist (m.functions.map (·.name))
  globals : p.globals.Sublist m.globals
  debugRecords : p.debugRecords.Sublist m.debugRecords

variable {m m' p p' : Module} {kernels kernels' : List String} {granularity : Granularity}
  {key name : String}

/-- A partition has its entities in the order of its module. -/
theorem IsPartition.orderedAs (hp : m.IsPartition kernels p) : p.OrderedAs m where
  functions := hp.functionNames_sublist
  globals := by
    rw [hp.globals]
    exact List.filter_sublist
  debugRecords := by
    rw [hp.debugRecords]
    exact List.filter_sublist

namespace Rearranges

theorem symm (h : m.Rearranges m') : m'.Rearranges m where
  sourceName := h.sourceName.symm
  functions := h.functions.symm
  globals := h.globals.symm
  debugRecords := h.debugRecords.symm

theorem nodup_names (h : m.Rearranges m') (hn : m.names.Nodup) : m'.names.Nodup :=
  ((h.functions.map _).append (h.globals.map _)).nodup_iff.mpr hn

/-! ## What is needed and what is live -/

/-- What kernels need of one module, they need of the other, as it has the same functions. -/
theorem needed_of_needed (h : m.Rearranges m') (hk : kernels ⊆ kernels')
    (hn : m.Needed kernels name) : m'.Needed kernels' name :=
  hn.mono (fun _ hf _ _ => h.functions.mem_iff.mpr hf) hk

/-- What is live in one module is live in the other. -/
theorem live_of_live (h : m.Rearranges m') (hk : kernels ⊆ kernels') (hl : m.Live kernels name) :
    m'.Live kernels' name :=
  hl.mono (fun _ hf _ _ => h.functions.mem_iff.mpr hf) h.globals.symm.subset hk

theorem needed_iff (h : m.Rearranges m') (hk : kernels'.Perm kernels) :
    m'.Needed kernels' name ↔ m.Needed kernels name :=
  ⟨h.symm.needed_of_needed hk.subset, h.needed_of_needed hk.symm.subset⟩

theorem live_iff (h : m.Rearranges m') (hk : kernels'.Perm kernels) :
    m'.Live kernels' name ↔ m.Live kernels name :=
  ⟨h.symm.live_of_live hk.subset, h.live_of_live hk.symm.subset⟩

/-! ## Partitions -/

/-- Which records are mentioned does not depend on the order of the functions. -/
theorem mem_mentionedRecords_iff (hf : m'.functions.Perm m.functions) {id : UInt32} :
    id ∈ m'.mentionedRecords ↔ id ∈ m.mentionedRecords := by
  rw [mem_mentionedRecords, mem_mentionedRecords]
  exact exists_congr fun f => and_congr_left fun _ => hf.mem_iff

open scoped Classical in
/-- The partitions of rearranged modules for the same kernels are rearranged. -/
theorem isPartition (h : m.Rearranges m') (hk : kernels'.Perm kernels)
    (hp : m.IsPartition kernels p) (hp' : m'.IsPartition kernels' p') : p.Rearranges p' := by
  have hfunctions : p'.functions.Perm p.functions := by
    rw [hp.functions, hp'.functions]
    change (List.map (m'.asNeeded kernels') _).Perm (List.map (m.asNeeded kernels) _)
    have hneeded : m'.asNeeded kernels' = m.asNeeded kernels :=
      asNeeded_congr fun _ => h.needed_iff hk
    simp only [h.live_iff hk, hneeded]
    exact (h.functions.filter _).map _
  refine ⟨?_, hfunctions, ?_, ?_⟩
  · rw [hp.sourceName, hp'.sourceName, h.sourceName]
  · rw [hp.globals, hp'.globals]
    simp only [h.live_iff hk]
    exact h.globals.filter _
  · rw [hp.debugRecords, hp'.debugRecords]
    simp only [mem_mentionedRecords_iff hfunctions, h.debugRecords.mem_iff]
    exact h.debugRecords.filter _

/-! ## Groups -/

/-- A group has the same kernels, in another order. -/
theorem namesOfKey (h : m.Rearranges m') (granularity : Granularity) (key : String) :
    (KernelGroups.namesOfKey granularity key m'.kernels).Perm
      (KernelGroups.namesOfKey granularity key m.kernels) :=
  ((h.functions.filter _).filter _).map _

/-- The keys of both modules are the same, since keys are sorted. -/
theorem keys_ofModule (h : m.Rearranges m') (granularity : Granularity) :
    (KernelGroups.ofModule granularity m').keys = (KernelGroups.ofModule granularity m).keys := by
  refine SortedMap.keys_eq_of_mem_iff fun key => ?_
  rw [KernelGroups.mem_keys_ofModule, KernelGroups.mem_keys_ofModule, ne_eq, ne_eq, not_iff_not]
  constructor
  · intro hnil
    exact List.nil_perm.mp (hnil ▸ h.namesOfKey granularity key)
  · intro hnil
    exact List.perm_nil.mp (hnil ▸ h.namesOfKey granularity key)

end Rearranges

/-- A module that is read is put into another order and both are split.  Then they have the same
groups, with the same kernels in some order, and the same partitions for them, each in the order of
its own module. -/
theorem hasPartition_of_rearranges {text : String} (hr : Module.read text = .ok m)
    (h : m.Rearranges m') (granularity : Granularity) :
    (KernelGroups.ofModule granularity m').keys = (KernelGroups.ofModule granularity m).keys ∧
      ∀ key kernels, (key, kernels) ∈ (KernelGroups.ofModule granularity m).entries →
        ∃ kernels' p p', (key, kernels') ∈ (KernelGroups.ofModule granularity m').entries ∧
          kernels'.Perm kernels ∧
          m.HasPartition granularity key p ∧ m'.HasPartition granularity key p' ∧
          p.Rearranges p' ∧ p.OrderedAs m ∧ p'.OrderedAs m' := by
  have hn : m.names.Nodup := (wellFormed_of_read hr).names
  refine ⟨h.keys_ofModule granularity, fun key kernels hg => ?_⟩
  obtain ⟨hnames, hne⟩ := KernelGroups.mem_entries_ofModule.mp hg
  have hk : (KernelGroups.namesOfKey granularity key m'.kernels).Perm kernels := by
    rw [hnames]
    exact h.namesOfKey granularity key
  have hg' : (key, KernelGroups.namesOfKey granularity key m'.kernels) ∈
      (KernelGroups.ofModule granularity m').entries := by
    refine KernelGroups.mem_entries_ofModule.mpr ⟨rfl, fun hnil => hne ?_⟩
    exact List.nil_perm.mp (hnil ▸ hk)
  have hp : m.IsPartition kernels (m.partition kernels) := isPartition_partition hn kernels
  have hp' := isPartition_partition (h.nodup_names hn)
    (KernelGroups.namesOfKey granularity key m'.kernels)
  exact ⟨_, _, _, hg', hk, (hasPartition_of_mem hg).mpr rfl, (hasPartition_of_mem hg').mpr rfl,
    h.isPartition hk hp hp', hp.orderedAs, hp'.orderedAs⟩

/-- Two kernels of one source file; one stands in a table, and the other one calls a function. -/
def tableAndCall : Module where
  sourceName := none
  globals := [⟨"t", .external, false, some (.array [.symbol "g"])⟩]
  functions := [
    { Function.declaration "f" .void [] with
      convention := .kernel
      attributes := [⟨"sycl-module-id", "a"⟩]
      body := some [⟨"e", [⟨none, .call .void (.direct "h") [], []⟩]⟩] },
    { Function.declaration "g" .void [] with
      convention := .kernel
      attributes := [⟨"sycl-module-id", "a"⟩]
      body := some [] },
    { Function.declaration "h" .void [] with
      linkage := .internal
      debug := some 0
      body := some [] }]
  debugRecords := [⟨0, .compileUnit "u"⟩]

/-- The partitions of the file have the same functions, from last to first where the module has them
in that order. -/
theorem tableAndCall_rearranged :
    Module.read ("@t = global [@g]\n" ++
        "define spir_kernel void @f() #\"sycl-module-id\"=\"a\" \x7b\ne:\ncall void @h()\n\x7d\n" ++
        "define spir_kernel void @g() #\"sycl-module-id\"=\"a\" \x7b\n\x7d\n" ++
        "define internal void @h() !dbg !0 \x7b\n\x7d\n" ++
        "!0 = compile_unit \"u\"\n") = .ok tableAndCall ∧
      tableAndCall.Rearranges { tableAndCall with functions := tableAndCall.functions.reverse } ∧
      ∃ p p', tableAndCall.HasPartition .source "a" p ∧
        HasPartition { tableAndCall with functions := tableAndCall.functions.reverse } .source "a"
          p' ∧
        p.Rearranges p' ∧ p.functions.map (·.name) = ["f", "g", "h"] ∧
        p'.functions.map (·.name) = ["h", "g", "f"] := by
  have hr : Module.read ("@t = global [@g]\n" ++
      "define spir_kernel void @f() #\"sycl-module-id\"=\"a\" \x7b\ne:\ncall void @h()\n\x7d\n" ++
      "define spir_kernel void @g() #\"sycl-module-id\"=\"a\" \x7b\n\x7d\n" ++
      "define internal void @h() !dbg !0 \x7b\n\x7d\n" ++
      "!0 = compile_unit \"u\"\n") = .ok tableAndCall := by
    decide +kernel
  have h : tableAndCall.Rearranges
      { tableAndCall with functions := tableAndCall.functions.reverse } :=
    ⟨rfl, List.reverse_perm _, .refl _, .refl _⟩
  have hg : ("a", ["f", "g"]) ∈ (KernelGroups.ofModule .source tableAndCall).entries := by decide
  obtain ⟨_, hparts⟩ := hasPartition_of_rearranges hr h .source
  obtain ⟨kernels', p, p', hg', _, hp, hp', hpp, _, _⟩ := hparts "a" ["f", "g"] hg
  obtain rfl : kernels' = ["g", "f"] := KernelGroups.eq_of_mem_entries hg' (by decide)
  obtain rfl := (hasPartition_of_mem hg).mp hp
  obtain rfl := (hasPartition_of_mem hg').mp hp'
  exact ⟨hr, h, _, _, hp, hp', hpp, by cbv, by cbv⟩

end DeviceCode.Module
