import DeviceCode.Partition.KernelGroups
import DeviceCode.Proofs.SortedMap

/-!
# What is in a kernel group

The group of a key has the kernels of that key, in the order of the module, and there is no group
without kernels.
-/

namespace DeviceCode.KernelGroups

variable {granularity : Granularity} {groups : KernelGroups} {m : Module} {key : String}
  {names : List String}

/-- The names of the functions that have a key. -/
def namesOfKey (granularity : Granularity) (key : String) (fs : List Function) : List String :=
  (fs.filter fun f => granularity.key? f = some key).map (·.name)

/-- The key of a function depends on its name and its attributes. -/
theorem key?_congr {f g : Function} (hname : f.name = g.name)
    (hattributes : f.attributes = g.attributes) : granularity.key? f = granularity.key? g := by
  cases granularity with
  | source =>
      simp only [Granularity.key?, Function.moduleId?, Function.attribute?, hattributes]
  | kernel => simp only [Granularity.key?, hname]

/-- A change of functions that keeps their names and attributes keeps their groups. -/
theorem namesOfKey_map {update : Function → Function} (hname : ∀ f, (update f).name = f.name)
    (hattributes : ∀ f, (update f).attributes = f.attributes) (fs : List Function) :
    namesOfKey granularity key (fs.map update) = namesOfKey granularity key fs := by
  simp only [namesOfKey, List.filter_map, List.map_map, Function.comp_def, hname,
    key?_congr (hname _) (hattributes _)]

/-- A kernel goes to the end of its group, and opens it if it is the first one. -/
theorem get?_addFunction {f : Function} :
    (addFunction granularity groups f).get? key =
      if granularity.key? f = some key then some ((groups.get? key).getD [] ++ [f.name])
      else groups.get? key := by
  cases hk : granularity.key? f with
  | none => simp [addFunction, hk]
  | some k =>
      rw [addFunction, hk]
      change (SortedMap.alter groups k _).get? key = _
      rw [SortedMap.get?_alter]
      by_cases he : key = k
      · subst he
        rw [if_pos rfl, if_pos rfl]
      · rw [if_neg he, if_neg (by simpa using Ne.symm he)]

/-- Adding functions appends, to the group of each key, the names of those that have the key. -/
theorem getD_foldl_addFunction (granularity : Granularity) (key : String) (fs : List Function)
    (groups : KernelGroups) :
    ((fs.foldl (addFunction granularity) groups).get? key).getD [] =
      (groups.get? key).getD [] ++ namesOfKey granularity key fs := by
  induction fs generalizing groups with
  | nil => simp [namesOfKey]
  | cons f fs ih =>
      rw [List.foldl_cons, ih, get?_addFunction]
      by_cases hk : granularity.key? f = some key
      · simp [namesOfKey, hk]
      · simp [namesOfKey, hk]

/-- A group has a kernel as soon as it is there. -/
theorem get?_foldl_addFunction_ne_nil (granularity : Granularity) {key : String}
    (fs : List Function) (groups : KernelGroups) (hg : groups.get? key ≠ some []) :
    (fs.foldl (addFunction granularity) groups).get? key ≠ some [] := by
  induction fs generalizing groups with
  | nil => exact hg
  | cons f fs ih =>
      apply ih
      rw [get?_addFunction]
      split
      · simp
      · exact hg

/-- The entries of a grouping are its keys with all their kernels, and none is empty. -/
theorem mem_entries_ofModule :
    (key, names) ∈ (ofModule granularity m).entries ↔
      names = namesOfKey granularity key m.kernels ∧ names ≠ [] := by
  have hempty : (SortedMap.empty : KernelGroups).get? key = none := rfl
  have hget := getD_foldl_addFunction granularity key m.kernels SortedMap.empty
  have hne : (m.kernels.foldl (addFunction granularity) SortedMap.empty).get? key ≠ some [] :=
    get?_foldl_addFunction_ne_nil granularity m.kernels SortedMap.empty (by simp [hempty])
  rw [hempty, Option.getD_none, List.nil_append] at hget
  rw [← SortedMap.get?_eq_some_iff, ofModule, ← hget]
  cases hs : (m.kernels.foldl (addFunction granularity) SortedMap.empty).get? key with
  | none => simp
  | some ns =>
      have hns : ns ≠ [] := by
        rintro rfl
        exact hne hs
      constructor
      · rintro ⟨⟩
        exact ⟨rfl, hns⟩
      · rintro ⟨rfl, _⟩
        rfl

/-- The groups of a module are told by the names that have a key. -/
theorem ofModule_congr {m' : Module}
    (h : ∀ key, namesOfKey granularity key m.kernels = namesOfKey granularity key m'.kernels) :
    ofModule granularity m = ofModule granularity m' := by
  refine SortedMap.ext_mem fun e => ?_
  rw [mem_entries_ofModule, mem_entries_ofModule, h]

/-- There is a group for each key that some kernel has. -/
theorem mem_keys_ofModule :
    key ∈ (ofModule granularity m).keys ↔ namesOfKey granularity key m.kernels ≠ [] := by
  rw [SortedMap.keys, List.mem_map]
  constructor
  · rintro ⟨⟨key, names⟩, he, rfl⟩
    obtain ⟨rfl, hne⟩ := mem_entries_ofModule.mp he
    exact hne
  · exact fun hne => ⟨(key, _), mem_entries_ofModule.mpr ⟨rfl, hne⟩, rfl⟩

theorem eq_of_mem_entries {names' : List String}
    (h : (key, names) ∈ (ofModule granularity m).entries)
    (h' : (key, names') ∈ (ofModule granularity m).entries) : names = names' :=
  (mem_entries_ofModule.mp h).1.trans (mem_entries_ofModule.mp h').1.symm

/-- What is listed in a group is a kernel of the module. -/
theorem mem_of_mem_entries {name : String} (hg : (key, names) ∈ (ofModule granularity m).entries)
    (hn : name ∈ names) : ∃ f ∈ m.functions, f.isKernel ∧ f.name = name := by
  obtain ⟨rfl, _⟩ := mem_entries_ofModule.mp hg
  obtain ⟨f, hf, rfl⟩ := List.mem_map.mp hn
  obtain ⟨hf, hk⟩ := List.mem_filter.mp (List.mem_filter.mp hf).1
  exact ⟨f, hf, hk, rfl⟩

theorem mem_namesOfKey {name : String} {fs : List Function} :
    name ∈ namesOfKey granularity key fs ↔
      ∃ f ∈ fs, granularity.key? f = some key ∧ f.name = name := by
  simp [namesOfKey, and_assoc]

/-- Where names are distinct, a kernel by itself is a group. -/
theorem mem_entries_kernel (h : (m.functions.map (·.name)).Nodup) {f : Function}
    (hf : f ∈ m.functions) (hk : f.isKernel) :
    (f.name, [f.name]) ∈ (ofModule .kernel m).entries := by
  have hnodup : (namesOfKey .kernel f.name m.kernels).Nodup :=
    h.sublist ((List.filter_sublist.trans List.filter_sublist).map _)
  have hnames : [f.name] = namesOfKey .kernel f.name m.kernels := by
    refine (List.perm_singleton.mp ?_).symm
    refine (List.perm_ext_iff_of_nodup hnodup (List.nodup_singleton _)).mpr fun name => ?_
    rw [mem_namesOfKey, List.mem_singleton]
    constructor
    · rintro ⟨g, _, hkey, rfl⟩
      exact Option.some.inj hkey
    · rintro rfl
      exact ⟨f, List.mem_filter.mpr ⟨hf, hk⟩, rfl, rfl⟩
  exact mem_entries_ofModule.mpr ⟨hnames, List.cons_ne_nil _ _⟩

end DeviceCode.KernelGroups
