import DeviceCode.Proofs.Basic
import DeviceCode.Proofs.Partition.Groups
import DeviceCode.Proofs.Text.Order
import DeviceCode.Run.Plan

/-!
# Kernel groups as a sorted list

Grouping loses nothing and does not change the order of kernels with one key: the groups, one after
another, are the kernels of the module stably sorted by their keys (`listed_ofModule`).  The sort is
told from all other lists by what it has for each key (`eq_of_ascending`).
-/

namespace DeviceCode

/-! ## Stable sorting by keys -/

section StableSort

variable {β : Type} {l l' : List (String × β)}

/-- Whether a key is not behind another one in the order of bytes. -/
def keyLE (a b : String × β) : Bool := decide (utf8 a.1 ≤ utf8 b.1)

/-- Keys are compared by their bytes, and this is the order of strings. -/
theorem keyLE_iff {a b : String × β} : keyLE a b ↔ ¬ b.1 < a.1 := by
  rw [keyLE, decide_eq_true_iff, ← List.not_lt]
  exact not_congr toUTF8_lt_iff

theorem keyLE_of_eq {a b : String × β} (h : a.1 = b.1) : keyLE a b := by
  rw [keyLE_iff, h]
  exact String.lt_irrefl _

theorem keyLE_of_lt {a b : String × β} (h : a.1 < b.1) : keyLE a b :=
  keyLE_iff.mpr fun h' => String.lt_irrefl _ (String.lt_trans h h')

/-- The order of keys is transitive. -/
theorem keyLE_trans (a b c : String × β) (hab : keyLE a b) (hbc : keyLE b c) : keyLE a c := by
  rw [keyLE_iff] at hab hbc ⊢
  exact String.not_lt.mpr (String.le_trans (String.not_lt.mp hab) (String.not_lt.mp hbc))

/-- Any two keys can be compared. -/
theorem keyLE_total (a b : String × β) : (keyLE a b || keyLE b a) = true := by
  rw [Bool.or_eq_true, keyLE_iff]
  by_cases h : b.1 < a.1
  · exact .inr (keyLE_of_lt h)
  · exact .inl h

/-- Keys that are no greater than each other are the same. -/
theorem eq_of_keyLE {a b : String × β} (hab : keyLE a b) (hba : keyLE b a) : a.1 = b.1 := by
  rw [keyLE_iff] at hab hba
  exact String.le_antisymm (String.not_lt.mp hab) (String.not_lt.mp hba)

/-- Lists with the same elements for each key have the same elements. -/
theorem mem_iff_of_filter_eq (h : ∀ k, l.filter (·.1 == k) = l'.filter (·.1 == k))
    (a : String × β) : a ∈ l ↔ a ∈ l' := by
  have ha : a ∈ l.filter (·.1 == a.1) ↔ a ∈ l'.filter (·.1 == a.1) := by rw [h]
  simpa using ha

/-- Two lists with ascending keys are the same if they have the same for each key. -/
theorem eq_of_ascending (hl : l.Pairwise fun a b => keyLE a b)
    (hl' : l'.Pairwise fun a b => keyLE a b)
    (h : ∀ k, l.filter (·.1 == k) = l'.filter (·.1 == k)) : l = l' := by
  induction l generalizing l' with
  | nil =>
      refine (List.eq_nil_iff_forall_not_mem.mpr fun a ha => ?_).symm
      exact List.not_mem_nil ((mem_iff_of_filter_eq h a).mpr ha)
  | cons a l ih =>
      cases l' with
      | nil => exact absurd ((mem_iff_of_filter_eq h a).mp List.mem_cons_self) List.not_mem_nil
      | cons b l' =>
          obtain ⟨hal, htail⟩ := List.pairwise_cons.mp hl
          obtain ⟨hbl, htail'⟩ := List.pairwise_cons.mp hl'
          -- neither of the first keys is behind the other, since both are in both lists
          have hab : keyLE a b := by
            rcases List.mem_cons.mp ((mem_iff_of_filter_eq h b).mpr List.mem_cons_self) with he | hb
            · exact keyLE_of_eq (congrArg Prod.fst he.symm)
            · exact hal b hb
          have hba : keyLE b a := by
            rcases List.mem_cons.mp ((mem_iff_of_filter_eq h a).mp List.mem_cons_self) with he | ha
            · exact keyLE_of_eq (congrArg Prod.fst he.symm)
            · exact hbl a ha
          have hkey : a.1 = b.1 := eq_of_keyLE hab hba
          have hsame := h b.1
          simp only [List.filter_cons, hkey, BEq.rfl, if_true, List.cons.injEq] at hsame
          obtain ⟨rfl, hrest⟩ := hsame
          congr 1
          refine ih htail htail' fun k => ?_
          by_cases hk : a.1 = k
          · rw [← hk]
            exact hrest
          · have hother := h k
            rwa [List.filter_cons_of_neg (by simpa using hk),
              List.filter_cons_of_neg (by simpa using hk)] at hother

theorem pairwise_mergeSort_keyLE (l : List (String × β)) :
    (l.mergeSort keyLE).Pairwise fun a b => keyLE a b :=
  List.pairwise_mergeSort keyLE_trans keyLE_total l

/-- Sorting does not change the order of what has one key. -/
theorem filter_mergeSort (l : List (String × β)) (k : String) :
    (l.mergeSort keyLE).filter (·.1 == k) = l.filter (·.1 == k) := by
  have hkey : ∀ a ∈ l.filter (·.1 == k), a.1 = k := fun a ha => by
    simpa using (List.mem_filter.mp ha).2
  have hone : (l.filter (·.1 == k)).Pairwise fun a b => keyLE a b :=
    List.pairwise_of_forall_mem_list fun a ha b hb =>
      keyLE_of_eq ((hkey a ha).trans (hkey b hb).symm)
  have hsub : (l.filter (·.1 == k)).Sublist ((l.mergeSort keyLE).filter (·.1 == k)) := by
    have h := (List.sublist_mergeSort keyLE_trans keyLE_total hone List.filter_sublist).filter
      (·.1 == k)
    rwa [List.filter_filter, List.filter_congr fun a _ => Bool.and_self _] at h
  exact (hsub.eq_of_length ((List.mergeSort_perm l keyLE).filter _).length_eq.symm).symm

end StableSort

namespace KernelGroups

variable {granularity : Granularity} {groups : KernelGroups} {m : Module} {k : String}

/-! ## Groups one after another -/

/-- The kernels that have a key, each behind its key, in the order of the module. -/
def keyedKernels (granularity : Granularity) (m : Module) : List (String × String) :=
  m.kernels.filterMap fun f => (granularity.key? f).map (·, f.name)

/-- The kernels of all groups, each behind its key, in the order of the groups. -/
def listed (groups : KernelGroups) : List (String × String) :=
  groups.entries.flatMap fun e => e.2.map (e.1, ·)

/-- The groups stand in the order of their keys. -/
theorem ascending_listed (groups : KernelGroups) :
    (listed groups).Pairwise fun a b => keyLE a b := by
  rw [listed, List.pairwise_flatMap]
  constructor
  · exact fun e _ => List.pairwise_map.mpr (List.pairwise_of_forall fun _ _ => keyLE_of_eq rfl)
  · refine groups.ascending.imp fun {e e'} hlt a ha b hb => ?_
    obtain ⟨_, _, rfl⟩ := List.mem_map.mp ha
    obtain ⟨_, _, rfl⟩ := List.mem_map.mp hb
    exact keyLE_of_lt hlt

/-- For each key the groups list the names of its group. -/
theorem filter_listed (groups : KernelGroups) (k : String) :
    (listed groups).filter (·.1 == k) = ((groups.get? k).getD []).map (k, ·) := by
  have hnodup := groups.keys_nodup
  rw [listed, SortedMap.get?]
  generalize groups.entries = l at hnodup
  induction l with
  | nil => rfl
  | cons e l ih =>
      obtain ⟨hnew, hl⟩ := List.nodup_cons.mp (List.map_cons ▸ hnodup)
      rw [List.flatMap_cons, List.filter_append, ih hl, List.find?_cons]
      by_cases he : e.1 = k
      · have hnone : l.find? (·.1 == k) = none := by
          simp only [List.find?_eq_none, beq_iff_eq]
          exact fun d hd hdk => hnew (List.mem_map.mpr ⟨d, hd, hdk.trans he.symm⟩)
        simp [he, hnone]
      · have hnone : (e.2.map (e.1, ·)).filter (·.1 == k) = [] := by
          simp [List.filter_map, he]
        rw [hnone, beq_false_of_ne he, List.nil_append]

/-- For each key the kernels of the module are those of its group. -/
theorem filter_keyedKernels (granularity : Granularity) (m : Module) (k : String) :
    (keyedKernels granularity m).filter (·.1 == k) =
      (namesOfKey granularity k m.kernels).map (k, ·) := by
  rw [keyedKernels, namesOfKey]
  generalize m.kernels = fs
  induction fs with
  | nil => rfl
  | cons f fs ih =>
      cases hk : granularity.key? f with
      | none => simp [hk, ih]
      | some key =>
          by_cases he : key = k
          · simp [hk, he, ih]
          · simp [hk, he, ih]

/-! ## Lists of names -/

/-- The names that stand on the lines of a list. -/
def namesOn (list : String) : List String :=
  ((list.toList.splitOn '\n').dropLast).map String.ofList

/-- A symbol list has a line for each name. -/
theorem splitOn_symbolList {names : List String} (h : ∀ name ∈ names, '\n' ∉ name.toList) :
    (symbolList names).toList.splitOn '\n' = names.map String.toList ++ [[]] := by
  rw [symbolList, String.toList_join, List.flatMap_map]
  induction names with
  | nil => rfl
  | cons name names ih =>
      obtain ⟨hname, hnames⟩ := List.forall_mem_cons.mp h
      have hline (rest : List Char) :
          (name ++ "\n").toList ++ rest = name.toList ++ '\n' :: rest := by simp
      rw [List.flatMap_cons, hline, List.splitOn_append_cons_self, List.splitOn_eq_singleton hname,
        ih hnames]
      rfl

/-- The names can be read from their list, if they have no line ends. -/
theorem namesOn_symbolList {names : List String} (h : ∀ name ∈ names, '\n' ∉ name.toList) :
    namesOn (symbolList names) = names := by
  rw [namesOn, splitOn_symbolList h, List.dropLast_concat, List.map_map]
  exact List.map_id'' (fun _ => String.ofList_toList) names

/-- The merged list is the lists of the groups in a row. -/
theorem mergedSymbolList_eq (groups : KernelGroups) :
    groups.mergedSymbolList = String.join groups.symbolLists := by
  rw [mergedSymbolList, symbolLists]
  induction groups.values with
  | nil => rfl
  | cons names lists ih =>
      rw [List.flatten_cons, List.map_cons, String.join_cons, ← ih, symbolList, symbolList,
        symbolList, List.map_append, String.join_append]

/-- One of the lists has a name, once, and the others do not have it. -/
def ListsOnce (lists : List (List String)) (name : String) : Prop :=
  ∃ front names back, lists = front ++ names :: back ∧ names.count name = 1 ∧
    ∀ other ∈ front ++ back, name ∉ other

/-- Where names are distinct, a kernel that has a key is in the group of this key alone. -/
theorem listsOnce_of_key (hn : (m.functions.map (·.name)).Nodup) {f : Function} (hf : f ∈ m.kernels)
    (hk : granularity.key? f = some k) : ListsOnce (ofModule granularity m).values f.name := by
  have hkernels : (m.kernels.map (·.name)).Nodup := hn.sublist (List.filter_sublist.map _)
  have hmem : f.name ∈ namesOfKey granularity k m.kernels := mem_namesOfKey.mpr ⟨f, hf, hk, rfl⟩
  have hgroup : (k, namesOfKey granularity k m.kernels) ∈ (ofModule granularity m).entries :=
    mem_entries_ofModule.mpr ⟨rfl, List.ne_nil_of_mem hmem⟩
  have hkeys := (ofModule granularity m).keys_nodup
  obtain ⟨front, back, hentries⟩ := List.append_of_mem hgroup
  rw [hentries, List.map_append, List.map_cons, List.nodup_middle] at hkeys
  refine ⟨front.map (·.2), namesOfKey granularity k m.kernels, back.map (·.2), ?_, ?_, ?_⟩
  · rw [SortedMap.values, hentries, List.map_append, List.map_cons]
  · exact List.count_eq_one_of_mem (hkernels.sublist (List.filter_sublist.map _)) hmem
  · rw [← List.map_append, List.forall_mem_map]
    intro e he hfe
    have hother : e ∈ (ofModule granularity m).entries := by
      rw [hentries]
      rcases List.mem_append.mp he with he | he
      · exact List.mem_append_left _ he
      · exact List.mem_append_right _ (List.mem_cons_of_mem _ he)
    rw [(mem_entries_ofModule.mp hother).1] at hfe
    obtain ⟨f', hf', hk', hname⟩ := mem_namesOfKey.mp hfe
    rw [List.inj_on_of_nodup_map hkernels hf' hf hname, hk, Option.some.injEq] at hk'
    refine (List.nodup_cons.mp hkeys).1 ?_
    rw [← List.map_append]
    exact List.mem_map.mpr ⟨e, he, hk'.symm⟩

/-! ## Sorting -/

/-- The groups, one after another, are the kernels that have a key, stably sorted by it. -/
theorem listed_ofModule (granularity : Granularity) (m : Module) :
    listed (ofModule granularity m) = (keyedKernels granularity m).mergeSort keyLE := by
  refine eq_of_ascending (ascending_listed _) (pairwise_mergeSort_keyLE _) fun k => ?_
  have hget := getD_foldl_addFunction granularity k m.kernels SortedMap.empty
  rw [filter_listed, filter_mergeSort, filter_keyedKernels, ofModule, hget]
  rfl

/-- The groups of a module are the kernels that have a key, stably sorted by it in the order of
bytes and divided where the key changes.  So the list of all names is the lists of the groups one
after another, and where names are distinct each kernel that has a key is in one of the lists,
once. -/
theorem sorted_ofModule (granularity : Granularity) (m : Module) :
    listed (ofModule granularity m) = (keyedKernels granularity m).mergeSort keyLE ∧
      (∀ key names, (key, names) ∈ (ofModule granularity m).entries ↔
        names = namesOfKey granularity key m.kernels ∧ names ≠ []) ∧
      ((ofModule granularity m).keys.map utf8).Pairwise (· < ·) ∧
      (ofModule granularity m).mergedSymbolList =
        String.join (ofModule granularity m).symbolLists ∧
      ((∀ f ∈ m.kernels, '\n' ∉ f.name.toList) →
        (ofModule granularity m).symbolLists.map namesOn = (ofModule granularity m).values) ∧
      ((m.functions.map (·.name)).Nodup → ∀ f ∈ m.kernels, ∀ key ∈ granularity.key? f,
        ListsOnce (ofModule granularity m).values f.name) := by
  refine ⟨listed_ofModule granularity m, fun _ _ => mem_entries_ofModule, ?_,
    mergedSymbolList_eq _, fun hlines => ?_, fun hn f hf key hk => listsOnce_of_key hn hf hk⟩
  · rw [SortedMap.keys, List.map_map, List.pairwise_map]
    exact (ofModule granularity m).ascending.imp toUTF8_lt_iff.mpr
  · rw [symbolLists, List.map_map]
    refine (List.map_congr_left fun names hnames => ?_).trans (List.map_id _)
    obtain ⟨⟨key, names⟩, he, rfl⟩ := List.mem_map.mp hnames
    refine namesOn_symbolList fun name hname => ?_
    obtain ⟨rfl, -⟩ := mem_entries_ofModule.mp he
    obtain ⟨f, hf, -, rfl⟩ := mem_namesOfKey.mp hname
    exact hlines f hf

/-- A kernel of a source file. -/
def kernelOf (name file : String) : Function :=
  { Function.declaration name .void [] with
    convention := .kernel
    attributes := [⟨"sycl-module-id", file⟩] }

/-- Kernels of four files, in the order of bytes neither by their names nor by their files, and two
functions that are in no group. -/
def strewn : Module where
  sourceName := none
  globals := []
  functions := [kernelOf "e" "𐐀", kernelOf "d" "｡", kernelOf "f" "é",
    { Function.declaration "loose" .void [] with convention := .kernel },
    kernelOf "c" "z", kernelOf "a" "é",
    { Function.declaration "b" .void [] with attributes := [⟨"sycl-module-id", "z"⟩] }]
  debugRecords := []

/-- The keys are sorted by their bytes, and kernels of one key keep their order. -/
theorem strewn_sorted :
    (strewn.functions.map (·.name)).Nodup ∧ (∀ f ∈ strewn.kernels, '\n' ∉ f.name.toList) ∧
      (keyedKernels .source strewn).mergeSort keyLE =
        [("z", "c"), ("é", "f"), ("é", "a"), ("｡", "d"), ("𐐀", "e")] ∧
      (ofModule .source strewn).symbolLists = ["c\n", "f\na\n", "d\n", "e\n"] ∧
      (ofModule .source strewn).mergedSymbolList = "c\nf\na\nd\ne\n" ∧
      (ofModule .source strewn).symbolLists.map namesOn = (ofModule .source strewn).values ∧
      ListsOnce (ofModule .source strewn).values "a" := by
  have hn : (strewn.functions.map (·.name)).Nodup := by decide
  have hlines : ∀ f ∈ strewn.kernels, '\n' ∉ f.name.toList := by decide
  have hlists : (ofModule .source strewn).symbolLists = ["c\n", "f\na\n", "d\n", "e\n"] := by
    decide +kernel
  obtain ⟨hsort, -, -, hmerged, hnames, honce⟩ := sorted_ofModule .source strewn
  refine ⟨hn, hlines, hsort.symm.trans (by decide +kernel), hlists, ?_, hnames hlines, ?_⟩
  · rw [hmerged, hlists]
    decide
  · exact honce hn (kernelOf "a" "é") (by decide) "é" (by decide)

end KernelGroups

end DeviceCode
