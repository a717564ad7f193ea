import Mathlib
import DeviceCode.Proofs.Partition.Visible

/-!
# Partitions by source file and by kernel

A source file's partition puts together the partitions of its kernels, where these are definitions
that other modules see: it has what one of them has, and the bodies that one of them has
(`mem_source_partition_iff`).
-/

namespace DeviceCode.Module

variable {m p : Module} {kernels : List String} {key name : String} {f : Function}

namespace IsPartition

/-- A partition has a function of each live name, if only as a declaration. -/
theorem exists_function_iff (hp : m.IsPartition kernels p) :
    (∃ f ∈ p.functions, f.name = name) ↔
      m.Live kernels name ∧ ∃ f ∈ m.functions, f.name = name := by
  constructor
  · rintro ⟨f', hf', rfl⟩
    obtain ⟨f, hf, hl, he, _⟩ := hp.exists_live hf'
    exact ⟨he ▸ hl, f, hf, he⟩
  · rintro ⟨hl, f, hf, rfl⟩
    exact ⟨_, hp.asNeeded_mem hf hl, asNeeded_name m kernels f⟩

/-- A body is in the partition if its function is both needed and live. -/
theorem mem_functions_iff (hp : m.IsPartition kernels p) (hb : f.body ≠ none) :
    f ∈ p.functions ↔ f ∈ m.functions ∧ m.Live kernels f.name ∧ m.Needed kernels f.name :=
  ⟨fun hf => hp.function_of_body hf hb, fun ⟨hf, hl, hn⟩ => hp.mem_functions hf hn hl⟩

end IsPartition

/-- Kernel by kernel, the partition of a key is that of one kernel. -/
theorem hasPartition_kernel_iff (h : m.names.Nodup) {granularity : Granularity}
    (hg : (key, kernels) ∈ (KernelGroups.ofModule granularity m).entries) (hn : name ∈ kernels) :
    m.HasPartition .kernel name p ↔ m.partition [name] = p := by
  obtain ⟨f, hf, hk, rfl⟩ := KernelGroups.mem_of_mem_entries hg hn
  exact hasPartition_of_mem (KernelGroups.mem_entries_kernel (nodup_functions h) hf hk)

/-- Where the kernels of a source file are definitions that other modules see, each of them has a
partition of its own, and the partition of the file has the functions and global variables that one
of these has.  It has a function with a body exactly if one of these has the same function. -/
theorem mem_source_partition_iff {text : String} (hr : Module.read text = .ok m)
    (hg : (key, kernels) ∈ (KernelGroups.ofModule .source m).entries)
    (hv : m.DefinesVisibly kernels) :
    (∀ k ∈ kernels, ∃ q, m.HasPartition .kernel k q) ∧
      ∃ p, m.HasPartition .source key p ∧
        (∀ name, (∃ f ∈ p.functions, f.name = name) ↔
          ∃ k ∈ kernels, ∃ q, m.HasPartition .kernel k q ∧ ∃ f ∈ q.functions, f.name = name) ∧
        (∀ g, g ∈ p.globals ↔
          ∃ k ∈ kernels, ∃ q, m.HasPartition .kernel k q ∧ g ∈ q.globals) ∧
        ∀ f, f.body ≠ none → (f ∈ p.functions ↔
          ∃ k ∈ kernels, ∃ q, m.HasPartition .kernel k q ∧ f ∈ q.functions) := by
  have h : m.names.Nodup := (wellFormed_of_read hr).names
  have hne : kernels ≠ [] := by
    obtain ⟨rfl, hne⟩ := KernelGroups.mem_entries_ofModule.mp hg
    exact hne
  have hp : m.IsPartition kernels (m.partition kernels) := isPartition_partition h kernels
  have hq : ∀ k, m.IsPartition [k] (m.partition [k]) := fun k => isPartition_partition h [k]
  -- whatever is said of one of the kernels' partitions is said of the one that the kernel makes
  have hone : ∀ P : Module → Prop,
      (∃ k ∈ kernels, ∃ q, m.HasPartition .kernel k q ∧ P q) ↔
        ∃ k ∈ kernels, P (m.partition [k]) := by
    intro P
    refine exists_congr fun k => and_congr_right fun hk => ?_
    simp only [hasPartition_kernel_iff h hg hk, exists_eq_left']
  refine ⟨fun k hk => ⟨_, (hasPartition_kernel_iff h hg hk).mpr rfl⟩, m.partition kernels,
    (hasPartition_of_mem hg).mpr rfl, ?_, ?_, ?_⟩
  · intro name
    rw [hone, hp.exists_function_iff, live_iff_exists hv hne]
    simp only [(hq _).exists_function_iff]
    constructor
    · rintro ⟨⟨k, hk, hl⟩, hf⟩
      exact ⟨k, hk, hl, hf⟩
    · rintro ⟨k, hk, hl, hf⟩
      exact ⟨⟨k, hk, hl⟩, hf⟩
  · intro g
    rw [hone, hp.mem_globals, live_iff_exists hv hne]
    simp only [(hq _).mem_globals]
    constructor
    · rintro ⟨hg, k, hk, hl⟩
      exact ⟨k, hk, hg, hl⟩
    · rintro ⟨k, hk, hg, hl⟩
      exact ⟨hg, k, hk, hl⟩
  · intro f hb
    rw [hone, hp.mem_functions_iff hb]
    simp only [(hq _).mem_functions_iff hb]
    constructor
    · rintro ⟨hf, _, hn⟩
      obtain ⟨k, hk, hn⟩ := needed_iff_exists.mp hn
      exact ⟨k, hk, hf, hn.live (hv.singleton hk), hn⟩
    · rintro ⟨k, hk, hf, _, hn⟩
      have hn : m.Needed kernels f.name := needed_iff_exists.mpr ⟨k, hk, hn⟩
      exact ⟨hf, hn.live hv, hn⟩

/-- A function that reads a table of functions. -/
def tableReader : Function :=
  { Function.declaration "reader" .void [] with
    linkage := .internal
    body := some [⟨"e", [⟨none, .operation "load" [.symbol "t"], []⟩]⟩] }

/-- Of two kernels of one source file, one mentions a function and the other one calls it. -/
def mentionedAndCalled : Module where
  sourceName := none
  globals := [⟨"t", .internal, false, some (.array [.symbol "reader"])⟩]
  functions := [
    { Function.declaration "a" .void [] with
      convention := .kernel
      attributes := [⟨"sycl-module-id", "s"⟩]
      body := some [⟨"e", [⟨none, .operation "use" [.symbol "reader"], []⟩]⟩] },
    { Function.declaration "b" .void [] with
      convention := .kernel
      attributes := [⟨"sycl-module-id", "s"⟩]
      body := some [⟨"e", [⟨none, .call .void (.direct "reader") [], []⟩]⟩] },
    tableReader]
  debugRecords := []

/-- The function has its body for the file and for the kernel that calls it.  The other kernel has a
declaration of it and does without the table. -/
theorem mentionedAndCalled_partitions :
    Module.read ("@t = internal global [@reader]\n" ++
        "define spir_kernel void @a() #\"sycl-module-id\"=\"s\" \x7b\ne:\nuse @reader\n\x7d\n" ++
        "define spir_kernel void @b() #\"sycl-module-id\"=\"s\" \x7b\ne:\n" ++
        "call void @reader()\n\x7d\ndefine internal void @reader() \x7b\ne:\nload @t\n\x7d\n") =
          .ok mentionedAndCalled ∧
      ("s", ["a", "b"]) ∈ (KernelGroups.ofModule .source mentionedAndCalled).entries ∧
      mentionedAndCalled.DefinesVisibly ["a", "b"] ∧
      ∃ p q q', mentionedAndCalled.HasPartition .source "s" p ∧
        mentionedAndCalled.HasPartition .kernel "a" q ∧
        mentionedAndCalled.HasPartition .kernel "b" q' ∧
        tableReader ∈ p.functions ∧ tableReader ∈ q'.functions ∧
        q.functions = [mentionedAndCalled.functions[0], tableReader.stub] ∧ q.globals = [] ∧
        p.globals = mentionedAndCalled.globals := by
  have hr : Module.read ("@t = internal global [@reader]\n" ++
      "define spir_kernel void @a() #\"sycl-module-id\"=\"s\" \x7b\ne:\nuse @reader\n\x7d\n" ++
      "define spir_kernel void @b() #\"sycl-module-id\"=\"s\" \x7b\ne:\n" ++
      "call void @reader()\n\x7d\ndefine internal void @reader() \x7b\ne:\nload @t\n\x7d\n") =
        .ok mentionedAndCalled := by decide +kernel
  have hg : ("s", ["a", "b"]) ∈ (KernelGroups.ofModule .source mentionedAndCalled).entries := by
    decide
  have hv : mentionedAndCalled.DefinesVisibly ["a", "b"] := by decide
  have h : mentionedAndCalled.names.Nodup := by decide
  obtain ⟨_, p, hp, _, _, hbodies⟩ := mem_source_partition_iff hr hg hv
  have ha : mentionedAndCalled.HasPartition .kernel "a" (mentionedAndCalled.partition ["a"]) :=
    (hasPartition_kernel_iff h hg (by decide)).mpr rfl
  have hb : mentionedAndCalled.HasPartition .kernel "b" (mentionedAndCalled.partition ["b"]) :=
    (hasPartition_kernel_iff h hg (by decide)).mpr rfl
  have hcalled : (mentionedAndCalled.partition ["b"]).functions =
      [mentionedAndCalled.functions[1], tableReader] := by cbv
  have hmem : tableReader ∈ (mentionedAndCalled.partition ["b"]).functions := by
    rw [hcalled]
    exact List.mem_cons_of_mem _ (List.mem_singleton_self _)
  have hglobals : p.globals = mentionedAndCalled.globals := by
    rw [← (hasPartition_of_mem hg).mp hp]
    cbv
  refine ⟨hr, hg, hv, p, _, _, hp, ha, hb, ?_, hmem, by cbv, by cbv, hglobals⟩
  exact (hbodies tableReader (by decide)).mpr ⟨"b", by decide, _, hb, hmem⟩

end DeviceCode.Module
