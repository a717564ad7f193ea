import DeviceCode.Proofs.Binary.Encoding
import DeviceCode.Proofs.Partition.Content
import DeviceCode.Proofs.Partition.Groups
import DeviceCode.Proofs.Run.Rows

/-!
# The files of a run are read back

A run writes each of its files once, so that each is in the end what the run has made it.  The code
files that the table lists are read back as the partitions of the lowered module, row by row, and
the symbol lists in the same rows name the kernels that the partitions were made for.
-/

namespace DeviceCode

namespace Options

variable {o : Options} {groups : KernelGroups} {lowered : Bool} {modules : List Module}
  {m m' : Module} {i : Nat}

/-! ## Rows and files -/

/-- What the row of a number is about: the partition of that number, or the module itself. -/
def IsRow (o : Options) (groups : KernelGroups) (m : Module) (i : Nat) (p : Module) : Prop :=
  if o.split.isSome ∧ 0 < groups.size then (m.split groups)[i]? = some p else i = 0 ∧ p = m

/-- The modules of a run are the rows of its table. -/
theorem getElem?_modules {p : Module} :
    (o.modules groups m)[i]? = some p ↔ o.IsRow groups m i p := by
  rw [modules_eq, IsRow]
  split
  case isTrue => exact Iff.rfl
  case isFalse => rw [List.getElem?_singleton, Option.ite_none_right_eq_some, Option.some.injEq,
    eq_comm (a := p)]

/-- If code is written, the file of each module is among the files of the run. -/
theorem code_mem_files (h : lowered ∨ 1 < modules.length) {p : Module} (hp : modules[i]? = some p) :
    ⟨o.resultPath o.codeExtension i, o.encode p, o.isGuarded⟩ ∈
      o.files (o.artifactKinds groups lowered modules) := by
  refine mem_files.mpr ⟨_, List.mem_cons_self, i, o.encode p, ?_, rfl⟩
  rw [if_pos (by simpa using h), codeFiles, List.getElem?_map, hp, Option.map_some]

theorem symbols_mem_files (ho : o.symbols) {list : String}
    (hl : (o.symbolLists groups)[i]? = some list) :
    ⟨o.resultPath ".sym" i, utf8 list, false⟩ ∈
      o.files (o.artifactKinds groups lowered modules) := by
  rw [artifactKinds, if_pos ho]
  refine mem_files.mpr ⟨_, List.mem_cons_of_mem _ (List.mem_append_right _ List.mem_cons_self), i,
    utf8 list, ?_, rfl⟩
  rw [symbolFiles, List.getElem?_map, hl, Option.map_some]

/-- The symbol list of a group has the kernels of the group, each on a line. -/
theorem getElem?_symbolLists (ho : o.split.isSome) (hpos : 0 < (o.groups m).size) {key : String}
    (hk : (o.groups m).keys[i]? = some key) :
    (o.symbolLists (o.groups m))[i]? = some (String.join
      ((KernelGroups.namesOfKey o.granularity key m.kernels).map (· ++ "\n"))) := by
  have hgroups : o.groups m = KernelGroups.ofModule o.granularity m := by
    rw [groups, ho, Bool.true_or, if_pos rfl]
  rw [symbolLists_eq, if_pos ⟨ho, hpos⟩, KernelGroups.symbolLists, SortedMap.values,
    List.getElem?_map, List.getElem?_map]
  rw [SortedMap.keys, List.getElem?_map] at hk
  obtain ⟨⟨key, names⟩, he, rfl⟩ := Option.map_eq_some_iff.mp hk
  have hmem := List.mem_of_getElem? he
  rw [hgroups] at hmem
  rw [he, (KernelGroups.mem_entries_ofModule.mp hmem).1]
  rfl

/-! ## Runs -/

variable {σ : Type} {fs : FileStore σ} {Sound : σ → Prop} {s s' : σ}

namespace RanToTable

variable {t : Table}

/-- The code file of a row has the module of the row. -/
theorem read_code (hrun : o.RanToTable fs s s' m m' lowered t) (hfs : fs.KeepsFiles Sound)
    (hs : Sound s) (hcode : lowered ∨ 1 < (o.modules (o.groups m) m').length) {p : Module}
    (hp : (o.modules (o.groups m) m')[i]? = some p) :
    fs.read s' (o.resultPath o.codeExtension i) = .ok (o.encode p) := by
  have hfile := hrun.read_file hfs hs (List.mem_append_left _ (code_mem_files hcode hp))
  dsimp only at hfile
  exact hfile (resultPath_ne_dash o.isExtension_codeExtension o i)

theorem read_symbols (hrun : o.RanToTable fs s s' m m' lowered t) (hfs : fs.KeepsFiles Sound)
    (hs : Sound s) (ho : o.symbols) {list : String}
    (hl : (o.symbolLists (o.groups m))[i]? = some list) :
    fs.read s' (o.resultPath ".sym" i) = .ok (utf8 list) := by
  have hfile := hrun.read_file hfs hs (List.mem_append_left _ (symbols_mem_files ho hl))
  dsimp only at hfile
  exact hfile (resultPath_ne_dash isExtension_sym o i)

/-- The cells for code are the paths of the code files, row by row. -/
theorem column?_code (hrun : o.RanToTable fs s s' m m' lowered t)
    (hcode : lowered ∨ 1 < (o.modules (o.groups m) m').length) :
    ∃ codes, t.column? "Code" = some codes ∧ codes.length = t.rows.length ∧
      ∀ i p, (o.modules (o.groups m) m')[i]? = some p →
        codes[i]? = some (o.resultPath o.codeExtension i) := by
  obtain ⟨hcolumn, hlength⟩ := hrun.columns _ List.mem_cons_self
  rw [codeColumn, if_pos (by simpa using hcode)] at hcolumn hlength
  refine ⟨_, hcolumn, hlength, fun i p hp => getElem?_cells_numbered ?_⟩
  rw [length_codeFiles]
  exact (List.getElem?_eq_some_iff.mp hp).1

/-- The cells for symbols are the paths of the symbol lists. -/
theorem column?_symbols (hrun : o.RanToTable fs s s' m m' lowered t) (ho : o.symbols) :
    ∃ lists, t.column? "Symbols" = some lists ∧ lists.length = t.rows.length ∧
      ∀ i list, (o.symbolLists (o.groups m))[i]? = some list →
        lists[i]? = some (o.resultPath ".sym" i) := by
  have hmem : o.symbolColumn (o.groups m) ∈
      o.columns (o.groups m) lowered (o.modules (o.groups m) m') := by
    rw [Options.columns, if_pos ho]
    exact List.mem_cons_of_mem _ (List.mem_append_right _ List.mem_cons_self)
  obtain ⟨hcolumn, hlength⟩ := hrun.columns _ hmem
  refine ⟨_, hcolumn, hlength, fun i list hl => getElem?_cells_numbered ?_⟩
  rw [length_symbolFiles, ← length_symbolLists]
  exact (List.getElem?_eq_some_iff.mp hl).1

end RanToTable

/-- A run that ends well with binary modules in a table writes no file twice, and all its files have
in the end what was written to them.  If it lists code files of its own, the one in each row is read
back as the partition of the row, or as the module itself if there are no partitions (as far as its
length can be written in 64 bits); and if it lists symbols of partitions, the file in each row has
the kernels of the row's group. -/
theorem files_of_run (hfs : fs.KeepsFiles Sound) (hs : Sound s) (hsingle : o.singleModule = false)
    (hbinary : o.assembly = false) {outcome : Outcome} (h : o.run fs s = (s', .ok outcome)) :
    ∃ (bytes : List UInt8) (m m' : Module) (lowered : Bool) (t : Table),
      fs.read s o.input = .ok bytes ∧ Module.ofContent o.input bytes = .ok m ∧
      o.lower m = .ok (m', lowered) ∧ outcome = .table o.outputPath t.rows.length ∧
      fs.writeAll s (o.plan m).writes = (s', .ok ()) ∧
      ((o.plan m).writes.map (·.path)).Nodup ∧
      (∀ a ∈ (o.plan m).writes, a.path ≠ "-" → fs.read s' a.path = .ok a.content) ∧
      ⟨o.outputPath, utf8 t.text, false⟩ ∈ (o.plan m).writes ∧
      (lowered ∨ 1 < (o.modules (o.groups m) m').length →
        ∃ codes, t.column? "Code" = some codes ∧ codes.length = t.rows.length ∧
          ∀ i < t.rows.length, codes[i]? = some (o.resultPath o.codeExtension i) ∧
            ∃ p, o.IsRow (o.groups m) m' i p ∧
              fs.read s' (o.resultPath o.codeExtension i) = .ok p.toBytes ∧
              (p.toBytes.length < 2 ^ 64 → Module.ofBytes p.toBytes = .ok p)) ∧
      (o.symbols → o.split.isSome → 0 < (o.groups m).size →
        ∃ lists, t.column? "Symbols" = some lists ∧ lists.length = t.rows.length ∧
          ∀ i < t.rows.length, lists[i]? = some (o.resultPath ".sym" i) ∧
            ∃ key, (o.groups m).keys[i]? = some key ∧
              fs.read s' (o.resultPath ".sym" i) = .ok (utf8 (String.join
                ((KernelGroups.namesOfKey o.granularity key m.kernels).map (· ++ "\n"))))) := by
  obtain ⟨m, m', lowered, t, hrun, houtcome, hrows, hwrites⟩ := exists_ranToTable hsingle h
  obtain ⟨bytes, hread, hm⟩ := hrun.read
  refine ⟨bytes, m, m', lowered, t, hread, hm, hrun.lower, houtcome, ?_⟩
  rw [hwrites]
  refine ⟨hrun.writes, ?_, fun a ha => hrun.read_file hfs hs ha,
    List.mem_append_right _ List.mem_cons_self, fun hcode => ?_, fun ho hsplit hpos => ?_⟩
  · refine List.Nodup.of_map Path.fileName? ?_
    rw [List.map_map]
    exact nodup_fileNames_tableFiles isExtension_artifactKinds nodup_artifactKinds t
  · obtain ⟨codes, hcolumn, hlength, hcells⟩ := hrun.column?_code hcode
    refine ⟨codes, hcolumn, hlength, fun i hi => ?_⟩
    rw [hrows, ← length_modules _ _ m'] at hi
    have hp := List.getElem?_eq_getElem hi
    have hfile := hrun.read_code hfs hs hcode hp
    rw [encode, hbinary, if_neg nofun] at hfile
    exact ⟨hcells i _ hp, _, getElem?_modules.mp hp, hfile, Module.ofBytes_toBytes⟩
  · obtain ⟨lists, hcolumn, hlength, hcells⟩ := hrun.column?_symbols ho
    refine ⟨lists, hcolumn, hlength, fun i hi => ?_⟩
    have hi : i < (o.groups m).keys.length := by
      rw [hrows, rowCount, if_pos ⟨hsplit, hpos⟩] at hi
      rwa [SortedMap.keys, List.length_map]
    have hk := List.getElem?_eq_getElem hi
    have hl := getElem?_symbolLists hsplit hpos hk
    exact ⟨hcells i _ hl, _, hk, hrun.read_symbols hfs hs ho hl⟩

/-- The kernels of `twoSources`, lowered to numbers. -/
def loweredSources : Module where
  sourceName := none
  globals := []
  functions := [
    { Function.declaration "k" .void [] with
      convention := .kernel
      attributes := [⟨"sycl-module-id", "a"⟩]
      body := some [⟨"entry", [
        ⟨none, .call .i32 (.direct "__spirv_SpecConstant_i32")
          [.constant .i32 (.int 0), .constant .i32 (.int 0)],
          [⟨"sycl.spec_const", .string "A"⟩]⟩]⟩] },
    { Function.declaration "l" .void [] with
      convention := .kernel
      attributes := [⟨"sycl-module-id", "b"⟩]
      body := some [⟨"entry", [⟨none, .operation "ret" [], []⟩]⟩] },
    .declaration "__spirv_SpecConstant_i32" .i32 ["id", "default"]]
  debugRecords := []

/-- The partition of the second source. -/
def secondSource : Module where
  sourceName := none
  globals := []
  functions := [
    { Function.declaration "l" .void [] with
      convention := .kernel
      attributes := [⟨"sycl-module-id", "b"⟩]
      body := some [⟨"entry", [⟨none, .operation "ret" [], []⟩]⟩] }]
  debugRecords := []

theorem partition_secondSource : loweredSources.partition ["l"] = secondSource := by
  rw [Module.partition_of_quiet ["l"] (by decide) (by decide) (by decide +kernel) rfl
    (by decide +kernel) (by decide) (by decide +kernel) (by decide +kernel)]
  decide +kernel

def twoSourcesFiles : SortedMap (List UInt8) := SortedMap.empty.insert "in.bc" twoSources.toBytes

/-- A run on two sources leaves, in its second row, the partition of the second one and its
kernel. -/
theorem twoSources_files :
    ∃ s', splitOptions.run .pathMap twoSourcesFiles = (s', .ok (.table "in.files" 2)) ∧
      splitOptions.lower twoSources = .ok (loweredSources, true) ∧
      (loweredSources.split (splitOptions.groups twoSources))[1]? = some secondSource ∧
      (∃ content, FileStore.pathMap.read s' "in_1.bc" = .ok content ∧
        Module.ofBytes content = .ok secondSource) ∧
      FileStore.pathMap.read s' "in_1.sym" = .ok (utf8 "l\n") := by
  have hread :
      FileStore.pathMap.read twoSourcesFiles splitOptions.input = .ok twoSources.toBytes := by
    rw [twoSourcesFiles, FileStore.read_pathMap_insert]
    exact if_pos rfl
  have hcontent : Module.ofContent splitOptions.input twoSources.toBytes = .ok twoSources :=
    ofContent_toBytes (by decide +kernel) _
  have hlower : splitOptions.lower twoSources = .ok (loweredSources, true) := by decide +kernel
  have hgroups : (splitOptions.groups twoSources).entries = [("a", ["k"]), ("b", ["l"])] := by
    decide +kernel
  have hpos : 0 < (splitOptions.groups twoSources).size := by
    rw [SortedMap.size, hgroups]
    decide
  have hsplit :
      (loweredSources.split (splitOptions.groups twoSources))[1]? = some secondSource := by
    rw [Module.split, SortedMap.values, hgroups]
    exact congrArg some partition_secondSource
  have hrun : splitOptions.run .pathMap twoSourcesFiles =
      ((splitOptions.run .pathMap twoSourcesFiles).1, .ok (.table "in.files" 2)) := by
    rw [run_eq_perform rfl hread hcontent]
    exact eq_mk_of_snd_eq (by decide +kernel)
  obtain ⟨bytes, m, m', lowered, t, hr, hm, hl, hout, _, _, _, _, hcodes, hlists⟩ :=
    files_of_run FileStore.keepsFiles_pathMap trivial rfl rfl hrun
  rw [hread, Except.ok.injEq] at hr
  rw [← hr] at hm
  obtain rfl := Except.ok.inj (hcontent.symm.trans hm)
  rw [hlower, Except.ok.injEq, Prod.mk.injEq] at hl
  obtain ⟨rfl, rfl⟩ := hl
  have htwo : 1 < t.rows.length := by
    rw [← (Outcome.table.inj hout).2]
    decide
  obtain ⟨_, _, _, hcodes⟩ := hcodes (.inl rfl)
  obtain ⟨_, p, hp, hcode, hback⟩ := hcodes 1 htwo
  rw [IsRow, if_pos ⟨rfl, hpos⟩, hsplit] at hp
  obtain rfl := Option.some.inj hp
  obtain ⟨_, _, _, hlists⟩ := hlists rfl rfl hpos
  obtain ⟨_, key, hkey, hlist⟩ := hlists 1 htwo
  rw [SortedMap.keys, hgroups] at hkey
  obtain rfl : "b" = key := Option.some.inj hkey
  have hcodePath : splitOptions.resultPath splitOptions.codeExtension 1 = "in_1.bc" := by
    decide +kernel
  have hlistPath : splitOptions.resultPath ".sym" 1 = "in_1.sym" := by decide +kernel
  rw [hcodePath] at hcode
  rw [hlistPath] at hlist
  refine ⟨_, hrun, hlower, hsplit, ⟨_, hcode, hback (by decide +kernel)⟩, hlist.trans ?_⟩
  decide +kernel

end Options

end DeviceCode
