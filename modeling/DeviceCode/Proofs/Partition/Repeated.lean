import Mathlib
import DeviceCode.Proofs.Partition.Definitions
import DeviceCode.Proofs.Partition.Visible

/-!
# Partitions of partitions

A partition of visible kernels has nothing that those kernels can do without, so it is its own
partition (`partition_partition`).  Its other functions may belong to kernels of other groups, but
the group that it was made for is the same again (`hasPartition_of_hasPartition`).
-/

namespace DeviceCode.Module

variable {m p : Module} {kernels : List String} {granularity : Granularity} {key name : String}

/-- Where all bodies are needed, none is turned into a declaration. -/
theorem stubbed_eq_self (h : m.names.Nodup) (hd : m.DefinesOnly (m.Needed kernels)) :
    m.stubbed kernels = m := by
  have hfunctions : m.functions.map (m.asNeeded kernels) = m.functions := by
    refine (List.map_congr_left fun f hf => ?_).trans (List.map_id _)
    rw [asNeeded, id_eq]
    by_cases hb : f.body = none
    · exact if_pos (.inr hb)
    · exact if_pos (.inl (hd f hf hb))
  rw [stubbed_eq h, hfunctions]

namespace IsPartition

/-- Visible kernels need in their partition what they need in the module. -/
theorem needed_of_needed (hp : m.IsPartition kernels p) (hv : m.DefinesVisibly kernels)
    (h : m.Needed kernels name) : p.Needed kernels name := by
  refine h.mono (fun f hf hn _ => ?_) (List.Subset.refl _)
  exact hp.mem_functions hf hn (hn.live hv)

open scoped Classical in
/-- A partition groups its kernels as the module does, if all kernels of the key are live. -/
theorem namesOfKey_kernels (hp : m.IsPartition kernels p)
    (hlive : ∀ f ∈ m.kernels, granularity.key? f = some key → m.Live kernels f.name) :
    KernelGroups.namesOfKey granularity key p.kernels =
      KernelGroups.namesOfKey granularity key m.kernels := by
  have hkernels : p.kernels =
      (m.kernels.filter fun f => m.Live kernels f.name).map (m.asNeeded kernels) := by
    have hfunctions : p.functions =
        (m.functions.filter fun f => m.Live kernels f.name).map (m.asNeeded kernels) := hp.functions
    rw [Module.kernels, hfunctions, List.filter_map, Module.kernels, List.filter_filter,
      List.filter_filter]
    congr 1
    refine List.filter_congr fun f _ => ?_
    rw [Function.comp_apply, asNeeded_isKernel, Bool.and_comm]
  rw [hkernels, KernelGroups.namesOfKey_map (asNeeded_name m kernels)
    (asNeeded_attributes m kernels), KernelGroups.namesOfKey, KernelGroups.namesOfKey,
    List.filter_filter]
  congr 1
  refine List.filter_congr fun f hf => ?_
  rw [Bool.and_eq_left_iff_imp, decide_eq_true_iff, decide_eq_true_iff]
  exact hlive f hf

end IsPartition

/-- A partition of visible kernels is its own partition. -/
theorem partition_partition (h : m.names.Nodup) (hv : m.DefinesVisibly kernels) :
    (m.partition kernels).partition kernels = m.partition kernels := by
  have hp : m.IsPartition kernels (m.partition kernels) := isPartition_partition h kernels
  have h' : (m.partition kernels).names.Nodup := h.sublist hp.names_sublist
  have hd : (m.partition kernels).DefinesOnly ((m.partition kernels).Needed kernels) := by
    intro f hf hb
    obtain ⟨_, _, hn⟩ := hp.function_of_body hf hb
    exact hp.needed_of_needed hv hn
  calc (m.partition kernels).partition kernels
    _ = ((m.partition kernels).stubbed kernels).clean := rfl
    _ = (m.stubbed kernels).clean.clean := by rw [stubbed_eq_self h' hd]; rfl
    _ = (m.stubbed kernels).clean := clean_clean (nodup_names_stubbed h)

/-- Where the kernels of a group are definitions that other modules see, their partition has the
same group again, and splitting it gives the partition itself for that group. -/
theorem hasPartition_of_hasPartition {text : String} (hr : Module.read text = .ok m)
    (hg : (key, kernels) ∈ (KernelGroups.ofModule granularity m).entries)
    (hv : m.DefinesVisibly kernels) :
    ∃ p, m.HasPartition granularity key p ∧
      (key, kernels) ∈ (KernelGroups.ofModule granularity p).entries ∧
      p.HasPartition granularity key p := by
  have h : m.names.Nodup := (wellFormed_of_read hr).names
  have hp : m.IsPartition kernels (m.partition kernels) := isPartition_partition h kernels
  obtain ⟨hnames, hne⟩ := KernelGroups.mem_entries_ofModule.mp hg
  have hlive : ∀ f ∈ m.kernels, granularity.key? f = some key → m.Live kernels f.name := by
    intro f hf hkey
    have hk : f.name ∈ kernels := by
      rw [hnames]
      exact KernelGroups.mem_namesOfKey.mpr ⟨f, hf, hkey, rfl⟩
    exact Needed.live hv (.kernel hk)
  have hg' : (key, kernels) ∈
      (KernelGroups.ofModule granularity (m.partition kernels)).entries := by
    rw [KernelGroups.mem_entries_ofModule, hp.namesOfKey_kernels hlive]
    exact ⟨hnames, hne⟩
  refine ⟨m.partition kernels, (hasPartition_of_mem hg).mpr rfl, hg', ?_⟩
  exact (hasPartition_of_mem hg').mpr (partition_partition h hv)

/-- A kernel calls another one, which calls it in turn, and mentions a third one. -/
def entangledKernels : Module where
  sourceName := none
  globals := []
  functions := [
    { Function.declaration "f" .void [] with
      convention := .kernel
      body := some [⟨"e", [
        ⟨none, .call .void (.direct "g") [], []⟩,
        ⟨none, .operation "use" [.symbol "h"], []⟩]⟩] },
    { Function.declaration "g" .void [] with
      convention := .kernel
      body := some [⟨"e", [⟨none, .call .void (.direct "f") [], []⟩]⟩] },
    { Function.declaration "h" .void [] with
      convention := .kernel
      debug := some 0
      body := some [] }]
  debugRecords := [⟨0, .compileUnit "u"⟩]

/-- The partition of the first kernel has a body of the second one, a declaration of the third one
and groups for both.  It is still the same when it is split again. -/
theorem entangledKernels_partition :
    Module.read ("define spir_kernel void @f() \x7b\ne:\ncall void @g()\nuse @h\n\x7d\n" ++
        "define spir_kernel void @g() \x7b\ne:\ncall void @f()\n\x7d\n" ++
        "define spir_kernel void @h() !dbg !0 \x7b\n\x7d\n!0 = compile_unit \"u\"\n") =
          .ok entangledKernels ∧
      ("f", ["f"]) ∈ (KernelGroups.ofModule .kernel entangledKernels).entries ∧
      entangledKernels.DefinesVisibly ["f"] ∧
      ∃ p, entangledKernels.HasPartition .kernel "f" p ∧
        p.functions.map (fun f => (f.name, f.body.isSome)) =
          [("f", true), ("g", true), ("h", false)] ∧
        p.debugRecords = [] ∧
        (KernelGroups.ofModule .kernel p).keys = ["f", "g", "h"] ∧
        p.HasPartition .kernel "f" p := by
  have hr : Module.read ("define spir_kernel void @f() \x7b\ne:\ncall void @g()\nuse @h\n\x7d\n" ++
      "define spir_kernel void @g() \x7b\ne:\ncall void @f()\n\x7d\n" ++
      "define spir_kernel void @h() !dbg !0 \x7b\n\x7d\n!0 = compile_unit \"u\"\n") =
        .ok entangledKernels := by decide +kernel
  have hg : ("f", ["f"]) ∈ (KernelGroups.ofModule .kernel entangledKernels).entries := by decide
  have hv : entangledKernels.DefinesVisibly ["f"] := by decide
  obtain ⟨p, hp, _, hpp⟩ := hasPartition_of_hasPartition hr hg hv
  obtain rfl := (hasPartition_of_mem hg).mp hp
  exact ⟨hr, hg, hv, _, hp, by cbv, by cbv, by cbv, hpp⟩

end DeviceCode.Module
