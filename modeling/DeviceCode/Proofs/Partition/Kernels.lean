import DeviceCode.Proofs.Assembly.WellFormed
import DeviceCode.Proofs.Module.Equality
import DeviceCode.Proofs.Partition.Content
import DeviceCode.Proofs.Partition.Groups

/-!
# Kernels in their partitions

The bodies of a group's kernels are needed in its partition, yet a kernel is also subject to the
search for what is live.  A kernel that other modules cannot see stays only if something that is
live mentions it.
-/

namespace DeviceCode

namespace Module

/-- A live needed body or a live initializer mentions the name. -/
def LiveMention (m : Module) (kernels : List String) (name : String) : Prop :=
  (∃ f ∈ m.functions, m.Needed kernels f.name ∧ m.Live kernels f.name ∧ name ∈ f.symbols) ∨
    ∃ g ∈ m.globals, m.Live kernels g.name ∧ name ∈ g.symbols

variable {m p : Module} {kernels : List String} {f : Function}

/-- A function that is needed stays for itself if other modules see it, and else only if something
live mentions it. -/
theorem live_function_iff (h : m.names.Nodup) (hf : f ∈ m.functions)
    (hn : m.Needed kernels f.name) :
    m.Live kernels f.name ↔
      (f.body.isSome ∧ (f.linkage = .external ∨ f.linkage = .weakODR)) ∨
        m.LiveMention kernels f.name := by
  constructor
  · intro hl
    generalize he : f.name = name at hl
    cases hl with
    | function hf' _ hb hv =>
        rw [eq_of_function_name h hf hf' he]
        exact .inl ⟨hb, hv⟩
    | global hg _ _ => exact absurd he (function_name_ne h hf hg)
    | body hf' hn' hl' hs => exact .inr (.inl ⟨_, hf', hn', hl', hs⟩)
    | initializer hg hl' hs => exact .inr (.inr ⟨_, hg, hl', hs⟩)
  · rintro (⟨hb, hv⟩ | ⟨f', hf', hn', hl', hs⟩ | ⟨g, hg, hl', hs⟩)
    · exact .function hf hn hb hv
    · exact .body hf' hn' hl' hs
    · exact .initializer hg hl' hs

namespace IsPartition

/-- A function that is needed and live is in the partition as it is. -/
theorem mem_functions (hp : m.IsPartition kernels p) (hf : f ∈ m.functions)
    (hn : m.Needed kernels f.name) (hl : m.Live kernels f.name) : f ∈ p.functions := by
  have hmem : m.asNeeded kernels f ∈ p.functions := hp.asNeeded_mem hf hl
  rwa [asNeeded, if_pos (.inl hn)] at hmem

/-- A function of the partition comes from a live function of its name. -/
theorem exists_live (hp : m.IsPartition kernels p) {f' : Function} (hf' : f' ∈ p.functions) :
    ∃ f ∈ m.functions, m.Live kernels f.name ∧ f.name = f'.name ∧
      (m.Needed kernels f.name → f' = f) := by
  obtain ⟨f, hf, hl, ⟨-, rfl⟩ | ⟨hn, rfl⟩⟩ := hp.function_cases hf'
  · exact ⟨_, hf, hl, rfl, fun _ => rfl⟩
  · exact ⟨f, hf, hl, rfl, fun h => absurd h hn⟩

end IsPartition

/-- A kernel of a group has its body in the partition of the group exactly if it has one at all and
is visible from outside or mentioned by something live.  Where the partition has a function of its
name, that is the kernel as it was. -/
theorem kernel_body_in_partition_iff {text : String} (hr : Module.read text = .ok m)
    (granularity : Granularity) {i : Nat} {key : String}
    (hg : (KernelGroups.ofModule granularity m).entries[i]? = some (key, kernels)) {name : String}
    (hk : name ∈ kernels) :
    ∃ p f, (m.split (KernelGroups.ofModule granularity m))[i]? = some p ∧
      f ∈ m.functions ∧ f.isKernel ∧ f.name = name ∧
      ((∃ f' ∈ p.functions, f'.name = name ∧ f'.body.isSome ∧ f'.body = f.body) ↔
        f.body.isSome ∧
          (f.linkage = .external ∨ f.linkage = .weakODR ∨ m.LiveMention kernels name)) ∧
      ∀ f' ∈ p.functions, f'.name = name → f' = f := by
  have h : m.names.Nodup := (wellFormed_of_read hr).names
  obtain ⟨f, hf, hkernel, rfl⟩ := KernelGroups.mem_of_mem_entries (List.mem_of_getElem? hg) hk
  have hp : m.IsPartition kernels (m.partition kernels) := isPartition_partition h kernels
  have hn : m.Needed kernels f.name := .kernel hk
  have hsame : ∀ f' ∈ (m.partition kernels).functions, f'.name = f.name →
      m.Live kernels f.name ∧ f' = f := by
    intro f' hf' he
    obtain ⟨f'', hf'', hl, he', hkeep⟩ := hp.exists_live hf'
    obtain rfl := eq_of_function_name h hf'' hf (he'.trans he)
    exact ⟨hl, hkeep hn⟩
  refine ⟨_, f, split_getElem? hg, hf, hkernel, rfl, ?_, fun f' hf' he => (hsame f' hf' he).2⟩
  constructor
  · rintro ⟨f', hf', he, hb, heq⟩
    rw [heq] at hb
    refine ⟨hb, ?_⟩
    rcases (live_function_iff h hf hn).mp (hsame f' hf' he).1 with ⟨_, hv | hv⟩ | hm
    · exact .inl hv
    · exact .inr (.inl hv)
    · exact .inr (.inr hm)
  · rintro ⟨hb, hv⟩
    have hl : m.Live kernels f.name := by
      rw [live_function_iff h hf hn]
      rcases hv with hv | hv | hm
      · exact .inl ⟨hb, .inl hv⟩
      · exact .inl ⟨hb, .inr hv⟩
      · exact .inr hm
    exact ⟨f, hp.mem_functions hf hn hl, rfl, hb, rfl⟩

/-- A kernel that other modules cannot see and nothing mentions. -/
def internalKernel : Module where
  sourceName := none
  globals := []
  functions := [{
    name := "k", linkage := .internal, convention := .kernel, returnType := .void
    parameters := [], attributes := [⟨"sycl-module-id", "a"⟩], debug := none
    body := some [⟨"entry", [⟨none, .operation "ret" [], []⟩]⟩] }]
  debugRecords := []

/-- The partition of such a kernel has no body under its name. -/
theorem internal_kernel_without_body :
    Module.read ("define internal spir_kernel void @k() #\"sycl-module-id\"=\"a\" \x7b\n" ++
        "entry:\n  ret\n\x7d\n") = .ok internalKernel ∧
    (KernelGroups.ofModule .source internalKernel).entries[0]? = some ("a", ["k"]) ∧
    ∃ p, (internalKernel.split (KernelGroups.ofModule .source internalKernel))[0]? = some p ∧
      ¬ ∃ f' ∈ p.functions, f'.name = "k" ∧ f'.body.isSome := by
  have hr : Module.read ("define internal spir_kernel void @k() #\"sycl-module-id\"=\"a\" \x7b\n" ++
      "entry:\n  ret\n\x7d\n") = .ok internalKernel := by decide +kernel
  have hg : (KernelGroups.ofModule .source internalKernel).entries[0]? = some ("a", ["k"]) := by
    decide
  obtain ⟨p, f, hp, hf, _, _, hiff, hsame⟩ :=
    kernel_body_in_partition_iff hr .source hg List.mem_cons_self
  refine ⟨hr, hg, p, hp, ?_⟩
  rintro ⟨f', hf', he, hb⟩
  have hbody := hiff.mp ⟨f', hf', he, hb, by rw [hsame f' hf' he]⟩
  obtain rfl := List.mem_singleton.mp hf
  rcases hbody.2 with hv | hv | ⟨f', hf', _, _, hs⟩ | ⟨g, hg, _⟩
  · cases hv
  · cases hv
  · obtain rfl := List.mem_singleton.mp hf'
    exact absurd hs (by decide)
  · cases hg

end Module

end DeviceCode
