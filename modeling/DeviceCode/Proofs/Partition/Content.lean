import DeviceCode.Proofs.Cleanup.Trimming
import DeviceCode.Proofs.Partition.CallClosure
import DeviceCode.Proofs.Partition.Groups

/-!
# What is in a partition

A partition is made in passes: a search for the functions to define, declarations in place of the
others, a search for what is live among the result, and the deletion of what is not.  Here it is
told in terms of the module alone, without those passes: `Module.Needed` are the functions that the
kernels call, `Module.Live` the names that are reached from the visible definitions, where only
needed functions have bodies, and `Module.IsPartition` is the module that is made of them.
-/

namespace DeviceCode

namespace Module

/-- The kernels, and every function defined in the module that a needed function calls. -/
inductive Needed (m : Module) (kernels : List String) : String → Prop
  | kernel {name : String} : name ∈ kernels → Needed m kernels name
  | call {f g : Function} : f ∈ m.functions → Needed m kernels f.name →
      g ∈ m.functions → g.body.isSome → g.name ∈ f.callees → Needed m kernels g.name

/-- The needed functions and the global variables that are defined for other modules to see, and
whatever the body of a live needed function or a live initializer mentions. -/
inductive Live (m : Module) (kernels : List String) : String → Prop
  | function {f : Function} : f ∈ m.functions → m.Needed kernels f.name → f.body.isSome →
      f.linkage = .external ∨ f.linkage = .weakODR → Live m kernels f.name
  | global {g : GlobalVariable} : g ∈ m.globals → g.initializer.isSome →
      g.linkage = .external ∨ g.linkage = .weakODR → Live m kernels g.name
  | body {f : Function} {name : String} : f ∈ m.functions → m.Needed kernels f.name →
      Live m kernels f.name → name ∈ f.symbols → Live m kernels name
  | initializer {g : GlobalVariable} {name : String} : g ∈ m.globals →
      Live m kernels g.name → name ∈ g.symbols → Live m kernels name

open scoped Classical in
/-- The live part of a module, with the bodies that the kernels need. -/
structure IsPartition (m : Module) (kernels : List String) (p : Module) : Prop where
  sourceName : p.sourceName = m.sourceName
  globals : p.globals = m.globals.filter fun g => m.Live kernels g.name
  functions : p.functions = (m.functions.filter fun f => m.Live kernels f.name).map fun f =>
    if m.Needed kernels f.name ∨ f.body = none then f
    else { f with linkage := .external, debug := none, body := none }
  debugRecords : p.debugRecords = m.debugRecords.filter fun r =>
    r.id ∈ p.mentionedRecords ∨
      ∃ r' ∈ m.debugRecords, r'.id ∈ p.mentionedRecords ∧ r'.entry.unit? = some r.id

variable {m : Module} {kernels : List String} {name : String}

/-! ## The call closure -/

theorem reached_definedCallees_iff (h : m.names.Nodup) :
    Reached m.definedCallees kernels name ↔ m.Needed kernels name := by
  constructor
  · intro hr
    induction hr with
    | start hs => exact .kernel hs
    | step _ hc ih =>
        obtain ⟨f, hf, rfl, hs, g, hg, rfl, hb⟩ := (mem_definedCallees h).mp hc
        exact .call hf ih hg hb hs
  · intro hn
    induction hn with
    | kernel hk => exact .start hk
    | call hf _ hg hb hc ih =>
        exact .step ih ((mem_definedCallees h).mpr ⟨_, hf, rfl, hc, _, hg, rfl, hb⟩)

/-- The functions in the closure are those that are needed. -/
theorem mem_callClosure (h : m.names.Nodup) :
    name ∈ m.callClosure kernels ↔ m.Needed kernels name ∧ ∃ f ∈ m.functions, f.name = name := by
  rw [mem_callClosure_iff_reached, reached_definedCallees_iff h, List.mem_map]

theorem isNeeded_function (h : m.names.Nodup) {f : Function} (hf : f ∈ m.functions) :
    m.isNeeded (m.callClosure kernels) f.name ↔ m.Needed kernels f.name := by
  have hg : ¬ ∃ g ∈ m.globals, g.name = f.name := by
    rintro ⟨g, hg, he⟩
    exact function_name_ne h hf hg he.symm
  rw [isNeeded, Bool.or_eq_true, List.contains_iff_mem, mem_callClosure h]
  simp only [List.any_eq_true, beq_iff_eq]
  constructor
  · rintro (⟨hn, _⟩ | hex)
    · exact hn
    · exact absurd hex hg
  · exact fun hn => .inl ⟨hn, f, hf, rfl⟩

/-! ## Declarations in place of what is not needed -/

open scoped Classical in
/-- A function as the kernels need it: one that they do not need is a declaration. -/
noncomputable def asNeeded (m : Module) (kernels : List String) (f : Function) : Function :=
  if m.Needed kernels f.name ∨ f.body = none then f else f.stub

/-- What a declaration keeps of a function, the function as needed keeps. -/
theorem asNeeded_keeps {α : Type} {view : Function → α} (h : ∀ f, view f.stub = view f)
    (m : Module) (kernels : List String) (f : Function) :
    view (m.asNeeded kernels f) = view f := by
  unfold asNeeded
  split
  · rfl
  · exact h f

@[simp] theorem asNeeded_name (m : Module) (kernels : List String) (f : Function) :
    (m.asNeeded kernels f).name = f.name :=
  asNeeded_keeps (fun _ => rfl) m kernels f

@[simp] theorem asNeeded_attributes (m : Module) (kernels : List String) (f : Function) :
    (m.asNeeded kernels f).attributes = f.attributes :=
  asNeeded_keeps (fun _ => rfl) m kernels f

@[simp] theorem asNeeded_isKernel (m : Module) (kernels : List String) (f : Function) :
    (m.asNeeded kernels f).isKernel = f.isKernel :=
  asNeeded_keeps (fun _ => rfl) m kernels f

open scoped Classical in
/-- It only matters which functions are needed. -/
theorem asNeeded_congr {m' : Module} {kernels' : List String}
    (h : ∀ name, m.Needed kernels name ↔ m'.Needed kernels' name) :
    m.asNeeded kernels = m'.asNeeded kernels' := by
  funext f
  exact if_congr (or_congr_left (h f.name)) rfl rfl

/-- The module with the bodies of needed functions only. -/
def stubbed (m : Module) (kernels : List String) : Module :=
  m.stub (m.isNeeded (m.callClosure kernels))

/-- Variables keep their initializers: their names are among those that the pass keeps. -/
@[simp] theorem stubbed_globals (m : Module) (kernels : List String) :
    (m.stubbed kernels).globals = m.globals := by
  refine (List.map_congr_left fun g hg => ?_).trans (List.map_id _)
  have hk : m.globals.any (·.name == g.name) = true := by
    rw [List.any_eq_true]
    exact ⟨g, hg, BEq.rfl⟩
  simp [isNeeded, hk]

open scoped Classical in
/-- Where names are apart no function has the name of a variable, so each one that is not needed
becomes a declaration. -/
theorem stubbed_functions (h : m.names.Nodup) :
    (m.stubbed kernels).functions = m.functions.map (m.asNeeded kernels) := by
  refine List.map_congr_left fun f hf => if_congr ?_ rfl rfl
  rw [Bool.or_eq_true, isNeeded_function h hf, Function.isDeclaration, Option.isNone_iff_eq_none,
    or_comm]

theorem stubbed_eq (h : m.names.Nodup) :
    m.stubbed kernels = { m with functions := m.functions.map (m.asNeeded kernels) } := by
  change { m with
    globals := (m.stubbed kernels).globals, functions := (m.stubbed kernels).functions } = _
  rw [stubbed_globals, stubbed_functions h]

/-- Only bodies mention symbols. -/
theorem body_ne_none_of_mem_symbols {f : Function} (hs : name ∈ f.symbols) : f.body ≠ none := by
  intro hb
  rw [Function.symbols, Function.instructions_of_none hb] at hs
  cases hs

/-- The headers stay, and with them the names. -/
theorem names_stubbed (h : m.names.Nodup) : (m.stubbed kernels).names = m.names := by
  have hf : (m.stubbed kernels).functions.map (·.name) = m.functions.map (·.name) := by
    rw [stubbed_functions h, List.map_map]
    exact List.map_congr_left fun f _ => asNeeded_name m kernels f
  rw [names, names, hf, stubbed_globals]

theorem nodup_names_stubbed (h : m.names.Nodup) : (m.stubbed kernels).names.Nodup := by
  rwa [names_stubbed h]

/-- Only needed functions keep their bodies, and they are unchanged. -/
theorem mem_stubbed_functions_body (h : m.names.Nodup) {f : Function} (hb : f.body ≠ none) :
    f ∈ (m.stubbed kernels).functions ↔ f ∈ m.functions ∧ m.Needed kernels f.name := by
  rw [stubbed_functions h, List.mem_map]
  unfold asNeeded
  constructor
  · rintro ⟨f', hf', rfl⟩
    split at hb
    case isTrue hn =>
      rw [if_pos hn]
      exact ⟨hf', hn.resolve_right hb⟩
    case isFalse => exact absurd rfl hb
  · rintro ⟨hf, hn⟩
    exact ⟨f, hf, if_pos (.inl hn)⟩

/-! ## What is live -/

/-- The search for what is live, in terms of the module alone. -/
theorem reached_symbolsOf_iff (h : m.names.Nodup) :
    Reached (m.stubbed kernels).symbolsOf (m.stubbed kernels).visibleNames name ↔
      m.Live kernels name := by
  have h' : (m.stubbed kernels).names.Nodup := nodup_names_stubbed h
  constructor
  · intro hr
    induction hr with
    | start hs =>
        rcases mem_visibleNames.mp hs with ⟨f, hf, hb, hl, rfl⟩ | ⟨g, hg, hi, hl, rfl⟩
        · obtain ⟨hf, hn⟩ := (mem_stubbed_functions_body h (Option.isSome_iff_ne_none.mp hb)).mp hf
          exact .function hf hn hb hl
        · rw [stubbed_globals] at hg
          exact .global hg hi hl
    | step _ hs ih =>
        rcases (mem_symbolsOf h').mp hs with ⟨f, hf, rfl, hm⟩ | ⟨g, hg, rfl, hm⟩
        · obtain ⟨hf, hn⟩ := (mem_stubbed_functions_body h (body_ne_none_of_mem_symbols hm)).mp hf
          exact .body hf hn ih hm
        · rw [stubbed_globals] at hg
          exact .initializer hg ih hm
  · intro hl
    induction hl with
    | function hf hn hb hl =>
        have hf := (mem_stubbed_functions_body h (Option.isSome_iff_ne_none.mp hb)).mpr ⟨hf, hn⟩
        exact .start (mem_visibleNames.mpr (.inl ⟨_, hf, hb, hl, rfl⟩))
    | global hg hi hl =>
        rw [← stubbed_globals m kernels] at hg
        exact .start (mem_visibleNames.mpr (.inr ⟨_, hg, hi, hl, rfl⟩))
    | body hf hn _ hm ih =>
        have hf := (mem_stubbed_functions_body h (body_ne_none_of_mem_symbols hm)).mpr ⟨hf, hn⟩
        exact .step ih ((mem_symbolsOf h').mpr (.inl ⟨_, hf, rfl, hm⟩))
    | initializer hg _ hm ih =>
        rw [← stubbed_globals m kernels] at hg
        exact .step ih ((mem_symbolsOf h').mpr (.inr ⟨_, hg, rfl, hm⟩))

/-- A live name of the stubbed module is a live name that is there. -/
theorem mem_liveNames_stubbed (h : m.names.Nodup) :
    name ∈ (m.stubbed kernels).liveNames ↔ m.Live kernels name ∧ name ∈ m.names := by
  rw [mem_liveNames, reached_symbolsOf_iff h, names_stubbed h]

open scoped Classical in
theorem contains_liveNames_stubbed (h : m.names.Nodup) (hn : name ∈ m.names) :
    (m.stubbed kernels).liveNames.contains name = decide (m.Live kernels name) := by
  rw [Bool.eq_iff_iff, List.contains_iff_mem, decide_eq_true_iff, mem_liveNames_stubbed h]
  exact and_iff_left hn

/-! ## The partition -/

/-- With all names apart, the pass for prototypes finds nothing to delete. -/
theorem partition_eq (h : m.names.Nodup) :
    m.partition kernels = (m.stubbed kernels).removeDead.1.removeDeadRecords.1 :=
  clean_eq (nodup_names_stubbed h)

open scoped Classical in
/-- The variables of a partition are those that are live. -/
theorem partition_globals (h : m.names.Nodup) :
    (m.partition kernels).globals = m.globals.filter fun g => m.Live kernels g.name := by
  rw [partition_eq h]
  change ((m.stubbed kernels).globals.filter fun g =>
    (m.stubbed kernels).liveNames.contains g.name) = _
  rw [stubbed_globals]
  refine List.filter_congr fun g hg => ?_
  exact contains_liveNames_stubbed h (mem_names.mpr (.inr ⟨g, hg, rfl⟩))

open scoped Classical in
/-- The functions of a partition are those that are live, with their bodies if they are needed. -/
theorem partition_functions (h : m.names.Nodup) :
    (m.partition kernels).functions =
      (m.functions.filter fun f => m.Live kernels f.name).map fun f =>
        if m.Needed kernels f.name ∨ f.body = none then f else f.stub := by
  rw [partition_eq h]
  change ((m.stubbed kernels).functions.filter fun f =>
    (m.stubbed kernels).liveNames.contains f.name) = _
  rw [stubbed_functions h, List.filter_map]
  congr 1
  refine List.filter_congr fun f hf => ?_
  rw [← contains_liveNames_stubbed h (mem_names.mpr (.inl ⟨f, hf, rfl⟩)), Function.comp_apply,
    asNeeded_name]

open scoped Classical in
/-- The records of a partition are those that it mentions, and their units. -/
theorem partition_debugRecords (h : m.names.Nodup) :
    (m.partition kernels).debugRecords = m.debugRecords.filter fun r =>
      r.id ∈ (m.partition kernels).mentionedRecords ∨
        ∃ r' ∈ m.debugRecords, r'.id ∈ (m.partition kernels).mentionedRecords ∧
          r'.entry.unit? = some r.id := by
  rw [partition_eq h]
  refine List.filter_congr fun r _ => ?_
  rw [Bool.eq_iff_iff, List.contains_iff_mem, decide_eq_true_iff, mem_liveRecords]
  rfl

/-- So a partition is made of what is needed and live. -/
theorem isPartition_partition (h : m.names.Nodup) (kernels : List String) :
    m.IsPartition kernels (m.partition kernels) where
  sourceName := by rw [partition_eq h]; rfl
  globals := partition_globals h
  functions := partition_functions h
  debugRecords := partition_debugRecords h

/-- The partition of kernels that call nothing, with live definitions that mention nothing. -/
theorem partition_of_quiet {p : Module} (live : List String) (hkernels : kernels.Nodup)
    (hfunctions : kernels ⊆ m.functions.map (·.name))
    (hcalls : ∀ k ∈ kernels, m.definedCallees k = [])
    (hp : m.stub (m.isNeeded kernels) = p) (hlive : p.visibleNames = live) (hnodup : live.Nodup)
    (hnames : live ⊆ p.names) (hsymbols : ∀ x ∈ live, p.symbolsOf x = []) :
    m.partition kernels =
      (p.keepNames (live.contains ·)).removeDeadRecords.1.removeUnusedPrototypes.1 := by
  rw [partition, callClosure, reach_eq_self hkernels hfunctions hcalls, hp, clean, removeDead,
    liveNames, hlive, reach_eq_self hnodup hnames hsymbols]

/-- A function of a partition is a live function of the module: with its body, if it has one and is
needed, and else a declaration. -/
theorem IsPartition.function_cases {p : Module} (hp : m.IsPartition kernels p) {f' : Function}
    (hf' : f' ∈ p.functions) :
    ∃ f ∈ m.functions, m.Live kernels f.name ∧
      ((m.Needed kernels f.name ∨ f.body = none) ∧ f' = f ∨
        ¬ m.Needed kernels f.name ∧ f' = f.stub) := by
  rw [hp.functions, List.mem_map] at hf'
  obtain ⟨f, hf, rfl⟩ := hf'
  obtain ⟨hf, hl⟩ := List.mem_filter.mp hf
  refine ⟨f, hf, by simpa using hl, ?_⟩
  split
  case isTrue hn => exact .inl ⟨hn, rfl⟩
  case isFalse hn => exact .inr ⟨fun h => hn (.inl h), rfl⟩

/-- What is live is in the partition as it is needed. -/
theorem IsPartition.asNeeded_mem {p : Module} (hp : m.IsPartition kernels p) {f : Function}
    (hf : f ∈ m.functions) (hl : m.Live kernels f.name) : m.asNeeded kernels f ∈ p.functions := by
  rw [hp.functions, List.mem_map]
  exact ⟨f, List.mem_filter.mpr ⟨hf, by simpa using hl⟩, rfl⟩

theorem split_getElem? {groups : KernelGroups} {i : Nat} {key : String}
    (hg : groups.entries[i]? = some (key, kernels)) :
    (m.split groups)[i]? = some (m.partition kernels) := by
  simp [split, SortedMap.values, hg]

/-- Splitting the module gives `p` for the kernels of a key. -/
def HasPartition (m : Module) (granularity : Granularity) (key : String) (p : Module) : Prop :=
  ∃ (i : Nat) (kernels : List String),
    (KernelGroups.ofModule granularity m).entries[i]? = some (key, kernels) ∧
      (m.split (KernelGroups.ofModule granularity m))[i]? = some p

theorem hasPartition_iff {granularity : Granularity} {key : String} {p : Module} :
    m.HasPartition granularity key p ↔
      ∃ kernels, (key, kernels) ∈ (KernelGroups.ofModule granularity m).entries ∧
        m.partition kernels = p := by
  constructor
  · rintro ⟨i, kernels, hg, hp⟩
    rw [split_getElem? hg] at hp
    exact ⟨kernels, List.mem_of_getElem? hg, Option.some.inj hp⟩
  · rintro ⟨kernels, hg, rfl⟩
    obtain ⟨i, hi⟩ := List.mem_iff_getElem?.mp hg
    exact ⟨i, kernels, hi, split_getElem? hi⟩

/-- A key has one group, so it has one partition. -/
theorem hasPartition_of_mem {granularity : Granularity} {key : String} {p : Module}
    (hg : (key, kernels) ∈ (KernelGroups.ofModule granularity m).entries) :
    m.HasPartition granularity key p ↔ m.partition kernels = p := by
  rw [hasPartition_iff]
  constructor
  · rintro ⟨kernels', hg', hp⟩
    rwa [KernelGroups.eq_of_mem_entries hg hg']
  · exact fun hp => ⟨kernels, hg, hp⟩

/-- Splitting a module by its kernels gives each group the live part of the module that has the
bodies its kernels need. -/
theorem isPartition_of_split (granularity : Granularity) (h : m.names.Nodup) {i : Nat}
    {key : String} (hg : (KernelGroups.ofModule granularity m).entries[i]? = some (key, kernels)) :
    ∃ p, (m.split (KernelGroups.ofModule granularity m))[i]? = some p ∧ m.IsPartition kernels p :=
  ⟨m.partition kernels, split_getElem? hg, isPartition_partition h kernels⟩

/-- A kernel calls a function that calls itself, and a table mentions a function that no kernel
calls. -/
def calledAndMentioned : Module where
  sourceName := some "a.cpp"
  globals := [⟨"table", .external, true, some (.array [.symbol "mentioned", .symbol "called"])⟩]
  functions := [
    { Function.declaration "k" .void [] with
      convention := .kernel
      attributes := [⟨"sycl-module-id", "a.cpp"⟩]
      body := some [⟨"entry", [⟨none, .call .void (.direct "called") [], []⟩]⟩] },
    { Function.declaration "called" .void [] with
      linkage := .internal
      body := some [⟨"entry", [⟨none, .call .void (.direct "called") [], []⟩]⟩] },
    { Function.declaration "mentioned" .void [] with
      linkage := .internal
      body := some [⟨"entry", [⟨none, .operation "ret" [], []⟩]⟩] }]
  debugRecords := []

/-- The partition of one kernel has the function that it calls, and the one that it mentions as a
declaration. -/
theorem isPartition_of_split_calledAndMentioned :
    calledAndMentioned.names.Nodup ∧
    (KernelGroups.ofModule .source calledAndMentioned).entries[0]? = some ("a.cpp", ["k"]) ∧
    ∃ p,
      (calledAndMentioned.split (KernelGroups.ofModule .source calledAndMentioned))[0]? = some p ∧
        calledAndMentioned.IsPartition ["k"] p := by
  have hn : calledAndMentioned.names.Nodup := by decide
  have hg : (KernelGroups.ofModule .source calledAndMentioned).entries[0]? =
      some ("a.cpp", ["k"]) := by decide
  exact ⟨hn, hg, isPartition_of_split .source hn hg⟩

end Module

end DeviceCode
