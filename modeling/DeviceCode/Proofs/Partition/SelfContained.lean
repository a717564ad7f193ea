import DeviceCode.Proofs.Assembly.WellFormed
import DeviceCode.Proofs.Module.Equality
import DeviceCode.Proofs.Partition.Content
import DeviceCode.Proofs.Partition.Stub

/-!
# Partitions stand alone

A partition drops functions, bodies and debug records.  What it keeps refers to nothing that is
gone: a live body mentions live names only, a stub mentions nothing, and the records that functions
and instructions mention stay.  Only the unit of a record can be lost, where the record itself is
kept as the unit of another.
-/

namespace DeviceCode

namespace Module

/-- The laws of a well-formed module that speak of what can be named: all but that on units. -/
structure SelfContained (m : Module) : Prop where
  names : m.names.Nodup
  records : m.recordIds.Nodup
  functions : ∀ f ∈ m.functions, f.WellFormed
  globals : ∀ g ∈ m.globals, g.WellFormed
  functionSymbols : ∀ f ∈ m.functions, ∀ s ∈ f.symbols, s ∈ m.names
  globalSymbols : ∀ g ∈ m.globals, ∀ s ∈ g.symbols, s ∈ m.names
  debug : ∀ f ∈ m.functions, ∀ id ∈ f.debug, id ∈ m.recordIds
  metadata : ∀ f ∈ m.functions, ∀ id ∈ f.metadata, id ∈ m.recordIds

variable {m p : Module} {kernels : List String}

namespace IsPartition

/-- A function that kept its body is needed and live. -/
theorem function_of_body (hp : m.IsPartition kernels p) {f : Function} (hf : f ∈ p.functions)
    (hb : f.body ≠ none) : f ∈ m.functions ∧ m.Live kernels f.name ∧ m.Needed kernels f.name := by
  obtain ⟨f', hf', hl, ⟨hn, rfl⟩ | ⟨-, rfl⟩⟩ := hp.function_cases hf
  · exact ⟨hf', hl, hn.resolve_right hb⟩
  · exact absurd rfl hb

/-- The variables of a partition are the live ones, unchanged. -/
theorem mem_globals (hp : m.IsPartition kernels p) {g : GlobalVariable} :
    g ∈ p.globals ↔ g ∈ m.globals ∧ m.Live kernels g.name := by
  simp [hp.globals]

/-! ## Names -/

theorem functionNames_sublist (hp : m.IsPartition kernels p) :
    (p.functions.map (·.name)).Sublist (m.functions.map (·.name)) := by
  have hname : ((·.name) ∘ m.asNeeded kernels : Function → String) = (·.name) := by
    funext f
    exact asNeeded_name m kernels f
  rw [hp.functions]
  change (List.map _ (List.map (m.asNeeded kernels) _)).Sublist _
  rw [List.map_map, hname]
  exact List.filter_sublist.map _

theorem names_sublist (hp : m.IsPartition kernels p) : p.names.Sublist m.names := by
  refine hp.functionNames_sublist.append ?_
  rw [hp.globals]
  exact List.filter_sublist.map _

theorem mem_names_of_live (hp : m.IsPartition kernels p) {s : String} (hl : m.Live kernels s)
    (hs : s ∈ m.names) : s ∈ p.names := by
  rcases mem_names.mp hs with ⟨f, hf, rfl⟩ | ⟨g, hg, rfl⟩
  · exact mem_names.mpr (.inl ⟨_, hp.asNeeded_mem hf hl, asNeeded_name m kernels f⟩)
  · exact mem_names.mpr (.inr ⟨g, hp.mem_globals.mpr ⟨hg, hl⟩, rfl⟩)

theorem functionSymbols (hp : m.IsPartition kernels p) (hw : m.WellFormed) {f : Function}
    (hf : f ∈ p.functions) {s : String} (hs : s ∈ f.symbols) : s ∈ p.names := by
  obtain ⟨hf, hl, hn⟩ := hp.function_of_body hf (body_ne_none_of_mem_symbols hs)
  exact hp.mem_names_of_live (.body hf hn hl hs) (hw.functionSymbols f hf s hs)

theorem globalSymbols (hp : m.IsPartition kernels p) (hw : m.WellFormed) {g : GlobalVariable}
    (hg : g ∈ p.globals) {s : String} (hs : s ∈ g.symbols) : s ∈ p.names := by
  obtain ⟨hg, hl⟩ := hp.mem_globals.mp hg
  exact hp.mem_names_of_live (.initializer hg hl hs) (hw.globalSymbols g hg s hs)

/-! ## Records -/

theorem mem_recordIds (hp : m.IsPartition kernels p) {id : UInt32} (hid : id ∈ m.recordIds)
    (hm : id ∈ p.mentionedRecords) : id ∈ p.recordIds := by
  obtain ⟨r, hr, rfl⟩ := List.mem_map.mp hid
  refine List.mem_map.mpr ⟨r, ?_, rfl⟩
  rw [hp.debugRecords, List.mem_filter, decide_eq_true_iff]
  exact ⟨hr, .inl hm⟩

theorem debug (hp : m.IsPartition kernels p) (hw : m.WellFormed) {f : Function}
    (hf : f ∈ p.functions) {id : UInt32} (hid : id ∈ f.debug) : id ∈ p.recordIds := by
  refine hp.mem_recordIds ?_ (mem_mentionedRecords.mpr ⟨f, hf, .inl hid⟩)
  obtain ⟨f', hf', -, ⟨-, rfl⟩ | ⟨-, rfl⟩⟩ := hp.function_cases hf
  · exact hw.debug f hf' id hid
  · cases hid

theorem metadata (hp : m.IsPartition kernels p) (hw : m.WellFormed) {f : Function}
    (hf : f ∈ p.functions) {id : UInt32} (hid : id ∈ f.metadata) : id ∈ p.recordIds := by
  refine hp.mem_recordIds ?_ (mem_mentionedRecords.mpr ⟨f, hf, .inr hid⟩)
  obtain ⟨f', hf', -, ⟨-, rfl⟩ | ⟨-, rfl⟩⟩ := hp.function_cases hf
  · exact hw.metadata f hf' id hid
  · cases hid

/-! ## The laws of a partition -/

/-- Each law of a partition, from the laws of its module. -/
theorem selfContained (hp : m.IsPartition kernels p) (hw : m.WellFormed) : p.SelfContained where
  names := hw.names.sublist hp.names_sublist
  records := by
    have hrecords : p.debugRecords.Sublist m.debugRecords := by
      rw [hp.debugRecords]
      exact List.filter_sublist
    exact hw.records.sublist (hrecords.map _)
  functions f hf := by
    obtain ⟨f', hf', -, ⟨-, rfl⟩ | ⟨-, rfl⟩⟩ := hp.function_cases hf
    · exact hw.functions f hf'
    · exact (hw.functions f' hf').stub
  globals g hg := hw.globals g (hp.mem_globals.mp hg).1
  functionSymbols _ hf _ hs := hp.functionSymbols hw hf hs
  globalSymbols _ hg _ hs := hp.globalSymbols hw hg hs
  debug _ hf _ hid := hp.debug hw hf hid
  metadata _ hf _ hid := hp.metadata hw hf hid

end IsPartition

/-- Every partition of a module that is read stands alone, however its kernels are grouped. -/
theorem selfContained_of_mem_split {text : String} (hr : Module.read text = .ok m)
    (granularity : Granularity) (hp : p ∈ m.split (KernelGroups.ofModule granularity m)) :
    p.SelfContained := by
  obtain ⟨kernels, _, rfl⟩ := List.mem_map.mp hp
  have hw : m.WellFormed := wellFormed_of_read hr
  exact (isPartition_partition hw.names kernels).selfContained hw

/-- A table mentions both of two kernels, which have one debug record. -/
def tabledKernels : Module where
  sourceName := none
  globals := [⟨"t", .external, false, some (.array [.symbol "g", .symbol "k"])⟩]
  functions := [
    { Function.declaration "k" .void ["x"] with
      convention := .kernel
      debug := some 0
      body := some [⟨"a", [⟨none, .operation "br" [.value "x", .block "a", .symbol "t"], []⟩]⟩] },
    { Function.declaration "g" .void [] with
      convention := .kernel
      debug := some 0
      body := some [] }]
  debugRecords := [⟨0, .compileUnit "u"⟩]

/-- The partition of one has a stub of the other, and stands alone. -/
theorem tabledKernels_selfContained :
    Module.read ("@t = global [@g, @k]\n" ++
        "define spir_kernel void @k(%x) !dbg !0 \x7b\na:\nbr %x, ^a, @t\n\x7d\n" ++
        "define spir_kernel void @g() !dbg !0 \x7b\n\x7d\n!0 = compile_unit \"u\"\n") =
          .ok tabledKernels ∧
      tabledKernels.split (.ofModule .kernel tabledKernels) =
        [tabledKernels.partition ["g"], tabledKernels.partition ["k"]] ∧
      (tabledKernels.partition ["k"]).SelfContained := by
  have hr : Module.read ("@t = global [@g, @k]\n" ++
      "define spir_kernel void @k(%x) !dbg !0 \x7b\na:\nbr %x, ^a, @t\n\x7d\n" ++
      "define spir_kernel void @g() !dbg !0 \x7b\n\x7d\n!0 = compile_unit \"u\"\n") =
        .ok tabledKernels := by decide +kernel
  have hsplit : tabledKernels.split (.ofModule .kernel tabledKernels) =
      [tabledKernels.partition ["g"], tabledKernels.partition ["k"]] := by
    have hgroups : (KernelGroups.ofModule .kernel tabledKernels).values = [["g"], ["k"]] := by
      decide
    rw [split, hgroups]
    rfl
  exact ⟨hr, hsplit, selfContained_of_mem_split hr .kernel (by simp [hsplit])⟩

end Module

end DeviceCode
