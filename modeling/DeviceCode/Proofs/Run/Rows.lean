import DeviceCode.Proofs.Binary.Encoding
import DeviceCode.Proofs.Module.Equality
import DeviceCode.Proofs.Run.Artifacts
import DeviceCode.Proofs.Run.Session

/-!
# The table of a run

The columns of a run are made from different things: the code files and the property files from the
modules that are left, the symbol lists from the kernel groups of the input.  All have a cell for
each row, whatever the options and the input, so that a run never fails for its table
(`run_table`).
-/

namespace DeviceCode

/-! ## Columns that fit -/

namespace Column

/-- What adding columns gives does not depend on the files they list. -/
theorem addAll_snd (t : Table) (columns : List Column) :
    (addAll t columns).2 = columns.foldlM (fun t c => t.addColumn c.name c.cells) t := by
  induction columns generalizing t with
  | nil => rfl
  | cons c columns ih =>
      rw [addAll, List.foldlM_cons]
      cases t.addColumn c.name c.cells with
      | error e => rfl
      | ok t' => exact ih t'

/-- The name of a column and its cells. -/
def entry (c : Column) : String × List String := (c.name, c.cells)

/-- Columns with names of their own and equally many cells can be added, and make a table. -/
theorem addAll_ofColumns (done : List Column) {columns : List Column} {rows : Nat}
    (hdone : done ≠ [])
    (hnames : ∀ c ∈ columns, Table.isColumnName c.name)
    (hnew : ((done ++ columns).map (·.name)).Nodup)
    (hcells : ∀ c ∈ columns, c.cells.length = rows) :
    addAll (.ofColumns rows (done.map entry)) columns =
      (columns.flatMap (·.artifacts), .ok (.ofColumns rows ((done ++ columns).map entry))) := by
  induction columns generalizing done with
  | nil => rw [List.append_nil]; rfl
  | cons c columns ih =>
      obtain ⟨hname, hnames⟩ := List.forall_mem_cons.mp hnames
      obtain ⟨hc, hcells⟩ := List.forall_mem_cons.mp hcells
      rw [List.append_cons] at hnew
      have hfresh : c.name ∉ (done.map entry).map (·.1) := by
        rw [List.map_append, List.nodup_append, List.map_append, List.nodup_append] at hnew
        intro hmem
        obtain ⟨d, hd, he⟩ := List.mem_map.mp (List.map_map ▸ hmem)
        exact hnew.1.2.2 _ (List.mem_map_of_mem hd) _ (List.mem_singleton_self _) he
      have hadd := Table.addColumn_ofColumns hname hfresh (by simpa using hdone) hc
      have hmap : done.map entry ++ [(c.name, c.cells)] = (done ++ [c]).map entry := by
        rw [List.map_append]
        rfl
      rw [addAll, hadd, hmap]
      dsimp only
      rw [ih (done ++ [c]) (by simp) hnames hnew hcells, ← List.append_cons, List.flatMap_cons]

/-- Columns of one length make a table if their names differ. -/
theorem addAll_cons {c : Column} {columns : List Column}
    (hnames : ∀ d ∈ c :: columns, Table.isColumnName d.name)
    (hnew : ((c :: columns).map (·.name)).Nodup)
    (hcells : ∀ d ∈ columns, d.cells.length = c.cells.length) :
    addAll .empty (c :: columns) = ((c :: columns).flatMap (·.artifacts),
      .ok (.ofColumns c.cells.length ((c :: columns).map entry))) := by
  obtain ⟨hname, hnames⟩ := List.forall_mem_cons.mp hnames
  have hrest : addAll (.ofColumns c.cells.length [(c.name, c.cells)]) columns = _ :=
    addAll_ofColumns [c] (List.cons_ne_nil _ _) hnames hnew hcells
  rw [addAll, Table.addColumn_empty hname]
  dsimp only
  rw [hrest]
  rfl

end Column

namespace Options

variable {o : Options} {groups : KernelGroups} {m : Module}

/-! ## Rows -/

/-- A row for each group if the module is split and there are any, else one. -/
def rowCount (o : Options) (groups : KernelGroups) : Nat :=
  if o.split.isSome ∧ 0 < groups.size then groups.size else 1

/-- The names of the columns. -/
def columnNames (o : Options) : List String :=
  "Code" :: ((if o.specConstants = some .runtime then ["Properties"] else []) ++
    if o.symbols then ["Symbols"] else [])

theorem size_eq_zero_iff : groups.size = 0 ↔ groups.values = [] := by
  rw [SortedMap.size, SortedMap.values, List.map_eq_nil_iff, List.length_eq_zero_iff]

/-- A run splits its module if it has kernels to split it for. -/
theorem modules_eq (o : Options) (groups : KernelGroups) (m : Module) :
    o.modules groups m = if o.split.isSome ∧ 0 < groups.size then m.split groups else [m] := by
  rw [modules]
  split
  case h_1 hnil =>
    refine (if_neg ?_).symm
    rintro ⟨ho, hpos⟩
    rw [if_pos ho, Module.split, List.map_eq_nil_iff, ← size_eq_zero_iff] at hnil
    exact Nat.ne_of_gt hpos hnil
  case h_2 hne =>
    by_cases ho : o.split.isSome
    · rw [if_pos ho] at hne ⊢
      have hpos : 0 < groups.size := Nat.pos_of_ne_zero fun h0 => hne (by
        rw [Module.split, size_eq_zero_iff.mp h0, List.map_nil])
      rw [if_pos ⟨ho, hpos⟩]
    · exact absurd (if_neg ho) hne

@[simp] theorem length_split (groups : KernelGroups) (m : Module) :
    (m.split groups).length = groups.size := by
  rw [Module.split, SortedMap.values, List.length_map, List.length_map]
  rfl

@[simp] theorem length_modules (o : Options) (groups : KernelGroups) (m : Module) :
    (o.modules groups m).length = o.rowCount groups := by
  rw [modules_eq, rowCount]
  split
  · exact length_split groups m
  · rfl

/-- There are as many symbol lists as groups if the module is split, else one in all. -/
theorem symbolLists_eq (o : Options) (groups : KernelGroups) :
    o.symbolLists groups =
      if o.split.isSome ∧ 0 < groups.size then groups.symbolLists
      else [groups.mergedSymbolList] := by
  rw [symbolLists]
  by_cases ho : o.split.isSome
  · rw [if_pos ho]
    split
    case h_1 hnil =>
      rw [KernelGroups.symbolLists, List.map_eq_nil_iff] at hnil
      rw [if_neg fun h => Nat.ne_of_gt h.2 (size_eq_zero_iff.mpr hnil),
        KernelGroups.mergedSymbolList, hnil]
      rfl
    case h_2 hne =>
      have hpos : 0 < groups.size := Nat.pos_of_ne_zero fun h0 => hne (by
        rw [KernelGroups.symbolLists, size_eq_zero_iff.mp h0, List.map_nil])
      rw [if_pos ⟨ho, hpos⟩]
  · rw [if_neg ho, if_neg fun h => ho h.1]

@[simp] theorem length_symbolLists (o : Options) (groups : KernelGroups) :
    (o.symbolLists groups).length = o.rowCount groups := by
  rw [symbolLists_eq, rowCount]
  split
  · rw [KernelGroups.symbolLists, SortedMap.values, List.length_map, List.length_map]
    rfl
  · rfl

@[simp] theorem length_cells_numbered {name : String} {kind : FileKind} :
    (Column.ofArtifacts name (o.numbered kind)).cells.length = kind.contents.length :=
  List.length_map _ |>.trans List.length_mapIdx

@[simp] theorem length_codeFiles (o : Options) (modules : List Module) :
    (o.codeFiles modules).contents.length = modules.length := List.length_map _

@[simp] theorem length_propertyFiles (lowered : Bool) (modules : List Module) :
    (propertyFiles lowered modules).contents.length = modules.length := List.length_map _

@[simp] theorem length_symbolFiles (o : Options) (groups : KernelGroups) :
    (o.symbolFiles groups).contents.length = o.rowCount groups :=
  (List.length_map _).trans (o.length_symbolLists groups)

/-- The input stands for the one code file that is not written. -/
theorem length_codeColumn (lowered : Bool) {modules : List Module} (h : modules ≠ []) :
    (o.codeColumn lowered modules).cells.length = modules.length := by
  rw [codeColumn]
  split
  case isTrue => rw [length_cells_numbered, length_codeFiles]
  case isFalse hn =>
    have hpos := List.length_pos_of_ne_nil h
    simp only [Bool.or_eq_true, decide_eq_true_eq, not_or] at hn
    have hle := hn.2
    dsimp only [List.length_singleton]
    omega

/-! ## Columns -/

@[simp] theorem name_codeColumn (o : Options) (lowered : Bool) (modules : List Module) :
    (o.codeColumn lowered modules).name = "Code" := by
  rw [codeColumn]
  split
  · rfl
  · rfl

theorem map_name_columns (o : Options) (groups : KernelGroups) (lowered : Bool)
    (modules : List Module) : (o.columns groups lowered modules).map (·.name) = o.columnNames := by
  rw [columns, columnNames, List.map_cons, List.map_append, name_codeColumn]
  congr 2
  · split
    · rfl
    · rfl
  · split
    · rfl
    · rfl

theorem columnNames_sublist (o : Options) :
    o.columnNames.Sublist ["Code", "Properties", "Symbols"] :=
  .cons_cons _ ((ite_singleton_sublist _ _).append (ite_singleton_sublist _ _))

theorem length_cells_columns (lowered : Bool) :
    ∀ c ∈ o.columns groups lowered (o.modules groups m), c.cells.length = o.rowCount groups := by
  have hlength := o.length_modules groups m
  have hne : o.modules groups m ≠ [] := by
    rw [← List.length_pos_iff, hlength, rowCount]
    split
    case isTrue h => exact h.2
    case isFalse => exact Nat.one_pos
  intro c hc
  rcases List.mem_cons.mp hc with rfl | hc
  · rw [length_codeColumn lowered hne, hlength]
  · rcases List.mem_append.mp hc with hc | hc
    · split at hc
      · rw [List.mem_singleton.mp hc, propertyColumn, length_cells_numbered, length_propertyFiles,
          hlength]
      · cases hc
    · split at hc
      · rw [List.mem_singleton.mp hc, symbolColumn, length_cells_numbered, length_symbolFiles]
      · cases hc

/-! ## The table -/

/-- Whether the code files are written, and not the input listed in their place. -/
def writesCode (o : Options) (groups : KernelGroups) (lowered : Bool) : Bool :=
  lowered || 1 < o.rowCount groups

/-- The paths in a row of the table. -/
def rowPaths (o : Options) (groups : KernelGroups) (lowered : Bool) (i : Nat) : List String :=
  (if o.writesCode groups lowered then o.resultPath o.codeExtension i else o.input) ::
    ((if o.specConstants = some .runtime then [o.resultPath ".prop" i] else []) ++
      if o.symbols then [o.resultPath ".sym" i] else [])

/-- The table of a run. -/
def fileTable (o : Options) (groups : KernelGroups) (lowered : Bool) : Table :=
  ⟨o.columnNames, (List.range (o.rowCount groups)).map (o.rowPaths groups lowered)⟩

theorem getElem?_cells_numbered {name : String} {kind : FileKind} {i : Nat}
    (h : i < kind.contents.length) :
    (Column.ofArtifacts name (o.numbered kind)).cells[i]? =
      some (o.resultPath kind.extension i) := by
  simp [Column.ofArtifacts, numbered, h]

/-- The cells of a row are the paths of its files. -/
theorem map_getD_columns {lowered : Bool} {i : Nat} (hi : i < o.rowCount groups) :
    (o.columns groups lowered (o.modules groups m)).map (·.cells.getD i "") =
      o.rowPaths groups lowered i := by
  have hmodules : i < (o.modules groups m).length := by rwa [length_modules]
  have hcode : (o.codeColumn lowered (o.modules groups m)).cells.getD i "" =
      if o.writesCode groups lowered then o.resultPath o.codeExtension i else o.input := by
    rw [codeColumn, length_modules, writesCode]
    split
    case isTrue =>
      rw [List.getD_eq_getElem?_getD, getElem?_cells_numbered (by simpa), Option.getD_some]
      rfl
    case isFalse h =>
      obtain rfl : i = 0 := by
        simp only [Bool.or_eq_true, decide_eq_true_eq, not_or] at h
        omega
      rfl
  have hproperty : (o.propertyColumn lowered (o.modules groups m)).cells.getD i "" =
      o.resultPath ".prop" i := by
    rw [propertyColumn, List.getD_eq_getElem?_getD, getElem?_cells_numbered (by simpa),
      Option.getD_some]
    rfl
  have hsymbol : (o.symbolColumn groups).cells.getD i "" = o.resultPath ".sym" i := by
    rw [symbolColumn, List.getD_eq_getElem?_getD, getElem?_cells_numbered (by simpa),
      Option.getD_some]
    rfl
  rw [columns, rowPaths, List.map_cons, hcode, List.map_append]
  congr 2
  · split
    · rw [List.map_singleton, hproperty]
    · rfl
  · split
    · rw [List.map_singleton, hsymbol]
    · rfl

/-- The columns of a run make its table. -/
theorem addAll_columns (o : Options) (groups : KernelGroups) (lowered : Bool) (m : Module) :
    Column.addAll .empty (o.columns groups lowered (o.modules groups m)) =
      (o.files (o.artifactKinds groups lowered (o.modules groups m)),
        .ok (o.fileTable groups lowered)) := by
  have hvalid : ∀ name ∈ ["Code", "Properties", "Symbols"], Table.isColumnName name := by decide
  have hnames : ∀ c ∈ o.columns groups lowered (o.modules groups m),
      Table.isColumnName c.name := by
    intro c hc
    refine hvalid _ (o.columnNames_sublist.subset ?_)
    rw [← o.map_name_columns groups lowered (o.modules groups m)]
    exact List.mem_map_of_mem hc
  have hnew : ((o.columns groups lowered (o.modules groups m)).map (·.name)).Nodup := by
    rw [map_name_columns]
    exact o.columnNames_sublist.nodup (by decide)
  have hlength : ∀ c ∈ o.columns groups lowered (o.modules groups m),
      c.cells.length = o.rowCount groups := length_cells_columns lowered
  have hadd : Column.addAll .empty (o.columns groups lowered (o.modules groups m)) = _ :=
    Column.addAll_cons hnames hnew fun d hd =>
      (hlength d (List.mem_cons_of_mem _ hd)).trans (hlength _ List.mem_cons_self).symm
  have hcode : (o.codeColumn lowered (o.modules groups m)).cells.length = o.rowCount groups :=
    hlength _ List.mem_cons_self
  rw [hadd, hcode]
  refine Prod.ext artifacts_columns ?_
  dsimp only
  rw [fileTable, Table.ofColumns, List.map_map]
  congr 2
  · exact o.map_name_columns groups lowered (o.modules groups m)
  · refine List.map_congr_left fun i hi => ?_
    rw [List.map_map]
    exact map_getD_columns (List.mem_range.mp hi)

@[simp] theorem length_rows_fileTable (o : Options) (groups : KernelGroups) (lowered : Bool) :
    (o.fileTable groups lowered).rows.length = o.rowCount groups := by
  rw [fileTable, List.length_map, List.length_range]

/-- The plan for a module that goes into a table. -/
theorem plan_eq (hsingle : o.singleModule = false) {m' : Module} {lowered : Bool}
    (hl : o.lower m = .ok (m', lowered)) :
    o.plan m =
      ⟨o.tableFiles (o.artifactKinds (o.groups m) lowered (o.modules (o.groups m) m'))
          (o.fileTable (o.groups m) lowered),
        .ok (.table o.outputPath (o.rowCount (o.groups m)))⟩ := by
  rw [plan, hl]
  dsimp only
  rw [if_neg (by rw [hsingle]; exact nofun), tablePlan_of_addAll (o.addAll_columns _ _ _),
    length_rows_fileTable]

/-- The plan for a module that goes into a table, with its specialization constants lowered. -/
theorem plan_eq_tableFiles (hsingle : o.singleModule = false) {m' : Module} {lowered : Bool}
    (hl : o.lower m = .ok (m', lowered)) :
    ∃ artifacts t,
      Column.addAll .empty (o.columns (o.groups m) lowered (o.modules (o.groups m) m')) =
        (artifacts, .ok t) ∧
      t.columns = o.columnNames ∧ t.rows.length = o.rowCount (o.groups m) ∧
      o.plan m =
        ⟨o.tableFiles (o.artifactKinds (o.groups m) lowered (o.modules (o.groups m) m')) t,
          .ok (.table o.outputPath t.rows.length)⟩ := by
  refine ⟨_, _, o.addAll_columns _ _ _, rfl, o.length_rows_fileTable _ _, ?_⟩
  rw [plan_eq hsingle hl, length_rows_fileTable]

/-! ## Runs that end with a table -/

section Runs

variable {σ : Type} {fs : FileStore σ} {s s' : σ}

theorem lower_of_plan {outcome : Outcome} (h : (o.plan m).result = .ok outcome) :
    ∃ m' lowered, o.lower m = .ok (m', lowered) := by
  rw [plan] at h
  split at h
  case h_1 => cases h
  case h_2 m' lowered hl => exact ⟨m', lowered, hl⟩

/-- A run that ends well, and not with a single module, has written its table. -/
theorem ranToTable_fileTable (hsingle : o.singleModule = false) {outcome : Outcome}
    (h : o.run fs s = (s', .ok outcome)) :
    ∃ m m' lowered,
      o.RanToTable fs s s' m m' lowered (o.fileTable (o.groups m) lowered) ∧
      outcome = .table o.outputPath (o.rowCount (o.groups m)) ∧
      (o.plan m).writes =
        o.tableFiles (o.artifactKinds (o.groups m) lowered (o.modules (o.groups m) m'))
          (o.fileTable (o.groups m) lowered) := by
  obtain ⟨_, bytes, m, hread, hm, hperform⟩ := plan_of_run h
  obtain ⟨hw, hresult⟩ := perform_eq_ok hperform
  obtain ⟨m', lowered, hl⟩ := lower_of_plan hresult
  obtain ⟨_, _, _, hcells⟩ :=
    Column.addAll_eq_ok Table.isRectangular_empty (o.addAll_columns (o.groups m) lowered m')
  rw [plan_eq hsingle hl] at hw hresult
  refine ⟨m, m', lowered, ⟨⟨bytes, hread, hm⟩, hl, hcells, hw⟩, ?_, ?_⟩
  · exact (Except.ok.inj hresult).symm
  · rw [plan_eq hsingle hl]

theorem exists_ranToTable (hsingle : o.singleModule = false) {outcome : Outcome}
    (h : o.run fs s = (s', .ok outcome)) :
    ∃ m m' lowered t, o.RanToTable fs s s' m m' lowered t ∧
      outcome = .table o.outputPath t.rows.length ∧ t.rows.length = o.rowCount (o.groups m) ∧
      (o.plan m).writes =
        o.tableFiles (o.artifactKinds (o.groups m) lowered (o.modules (o.groups m) m')) t := by
  obtain ⟨m, m', lowered, hrun, houtcome, hwrites⟩ := ranToTable_fileTable hsingle h
  have hrows := o.length_rows_fileTable (o.groups m) lowered
  exact ⟨m, m', lowered, _, hrun, by rw [houtcome, hrows], hrows, hwrites⟩

/-- A run that ends with a table was not for a single module. -/
theorem singleModule_of_run {path : String} {rows : Nat}
    (h : o.run fs s = (s', .ok (.table path rows))) : o.singleModule = false := by
  obtain ⟨_, _, m, _, _, hperform⟩ := plan_of_run h
  obtain ⟨_, hresult⟩ := perform_eq_ok hperform
  obtain ⟨m', lowered, hl⟩ := lower_of_plan hresult
  rw [plan, hl] at hresult
  dsimp only at hresult
  split at hresult
  case isTrue => cases hresult
  case isFalse hsingle => exact eq_false_of_ne_true hsingle

/-- The table of such a run is its own, with a row for each module. -/
theorem ranToTable_of_run {path : String} {rows : Nat}
    (h : o.run fs s = (s', .ok (.table path rows))) :
    ∃ m m' lowered t, o.RanToTable fs s s' m m' lowered t ∧
      path = o.outputPath ∧ rows = t.rows.length := by
  obtain ⟨m, m', lowered, t, hrun, he, _⟩ := exists_ranToTable (singleModule_of_run h) h
  cases he
  exact ⟨m, m', lowered, t, hrun, rfl, rfl⟩

end Runs

/-! ## Runs that fail -/

section Failures

variable {e : TableError}

theorem ofContent_ne_table (path : String) (content : List UInt8) :
    Module.ofContent path content ≠ .error (.table e) := by
  intro h
  rw [Module.ofContent] at h
  split at h
  · obtain ⟨e', -, he⟩ := Except.mapError_eq_error.mp h
    cases he
  · split at h
    · obtain ⟨e', -, he⟩ := Except.mapError_eq_error.mp h
      cases he
    · cases h
    · cases h

/-- No plan fails for its table. -/
theorem plan_result_ne_table (o : Options) (m : Module) :
    (o.plan m).result ≠ .error (.table e) := by
  intro h
  cases hl : o.lower m with
  | error failure =>
      simp only [plan, hl] at h
      cases h
      rw [lower] at hl
      split at hl
      · cases hl
      · split at hl
        · cases hl
        · cases hl
  | ok r =>
      obtain ⟨m', lowered⟩ := r
      cases hsingle : o.singleModule with
      | true =>
          simp only [plan, hl, hsingle, if_true] at h
          cases h
      | false =>
          obtain ⟨_, t, _, _, _, hplan⟩ := plan_eq_tableFiles hsingle hl
          rw [hplan] at h
          cases h

variable {σ : Type} {fs : FileStore σ} {s s' : σ}

theorem save_ne_table {a : Artifact} : fs.save s a ≠ .error (.table e) := by
  intro h
  rw [FileStore.save] at h
  split at h
  case isTrue => cases h
  case isFalse =>
    obtain ⟨fault, -, he⟩ := Except.mapError_eq_error.mp h
    cases he

theorem writeAll_ne_table {as : List Artifact} : fs.writeAll s as ≠ (s', .error (.table e)) := by
  intro h
  induction as generalizing s with
  | nil => cases h
  | cons a as ih =>
      cases hsave : fs.save s a with
      | error e' =>
          rw [FileStore.writeAll_cons_of_error hsave] at h
          cases h
          exact save_ne_table hsave
      | ok s₁ =>
          rw [FileStore.writeAll_cons_of_ok hsave] at h
          exact ih h

theorem run_ne_table (o : Options) : o.run fs s ≠ (s', .error (.table e)) := by
  intro h
  cases hv : o.validate with
  | error e' =>
      rw [run_of_invalid hv] at h
      cases h
  | ok =>
      rw [run_of_valid hv, FileStore.perform_eq, Prod.mk.injEq] at h
      obtain ⟨hs, h⟩ := h
      rcases Except.bind_eq_error.mp h with hw | ⟨_, -, hresult⟩
      · exact writeAll_ne_table (Prod.ext hs hw)
      · unfold planContent at hresult
        split at hresult
        case h_1 => cases hresult
        case h_2 bytes =>
          split at hresult
          case h_1 e' he =>
            cases hresult
            exact ofContent_ne_table _ _ he
          case h_2 => exact plan_result_ne_table o _ hresult

end Failures

/-- A run never fails for its table.  Whenever it gets that far, its columns are accepted one after
the other and have a cell for each row: a row for each kernel group if the module is split and there
are any, else one. -/
theorem run_table {σ : Type} (o : Options) (fs : FileStore σ) (s : σ) :
    (∀ s' e, o.run fs s ≠ (s', .error (.table e))) ∧
      ∀ (bytes : List UInt8) (m m' : Module) (lowered : Bool),
        o.validate = .ok () → o.singleModule = false → fs.read s o.input = .ok bytes →
        Module.ofContent o.input bytes = .ok m → o.lower m = .ok (m', lowered) →
        ∃ t, (o.columns (o.groups m) lowered (o.modules (o.groups m) m')).foldlM
            (fun t c => t.addColumn c.name c.cells) Table.empty = .ok t ∧
          t.columns = o.columnNames ∧
          (∀ c ∈ o.columns (o.groups m) lowered (o.modules (o.groups m) m'),
            t.column? c.name = some c.cells ∧ c.cells.length = t.rows.length) ∧
          t.rows.length = o.rowCount (o.groups m) ∧
          o.run fs s = fs.perform s
            ⟨o.tableFiles (o.artifactKinds (o.groups m) lowered (o.modules (o.groups m) m')) t,
              .ok (.table o.outputPath (o.rowCount (o.groups m)))⟩ := by
  refine ⟨fun _ _ => run_ne_table o, fun bytes m m' lowered hv hsingle hread hm hl => ?_⟩
  obtain ⟨artifacts, t, ht, hcolumns, hrows, hplan⟩ := plan_eq_tableFiles hsingle hl
  obtain ⟨_, _, _, hcells⟩ := Column.addAll_eq_ok Table.isRectangular_empty ht
  refine ⟨t, ?_, hcolumns, hcells, hrows, ?_⟩
  · rw [← Column.addAll_snd, ht]
  · rw [run_eq_perform hv hread hm, hplan, hrows]

/-- A module is read from its bytes, whatever its path. -/
theorem ofContent_toBytes {m : Module} (h : m.toBytes.length < 2 ^ 64) (path : String) :
    Module.ofContent path m.toBytes = .ok m := by
  have hbinary : Binary.isBinary m.toBytes := Module.isBinary_signed _
  rw [Module.ofContent, if_pos hbinary, Module.ofBytes_toBytes h]
  rfl

/-- Kernels from two sources, one of which uses a specialization constant. -/
def twoSources : Module where
  sourceName := none
  globals := []
  functions := [
    .declaration "__sycl_getSpecConstantValue" .i32 ["id"],
    { Function.declaration "k" .void [] with
      convention := .kernel
      attributes := [⟨"sycl-module-id", "a"⟩]
      body := some [⟨"entry", [
        ⟨none, .call .i32 (.direct "__sycl_getSpecConstantValue") [.string "A"], []⟩]⟩] },
    { Function.declaration "l" .void [] with
      convention := .kernel
      attributes := [⟨"sycl-module-id", "b"⟩]
      body := some [⟨"entry", [⟨none, .operation "ret" [], []⟩]⟩] }]
  debugRecords := []

def splitOptions : Options :=
  { standard with
    input := "in.bc", split := some .source, symbols := true, specConstants := some .runtime }

def twoSourcesSession : Session where
  tree := ⟨[(["in.bc"], .file twoSources.toBytes)], []⟩
  input := []
  output := []

/-- The table of these kernels has all columns and two rows. -/
theorem twoSources_table :
    ∃ (m' : Module) (t : Table),
      Session.store.read twoSourcesSession splitOptions.input = .ok twoSources.toBytes ∧
      Module.ofContent splitOptions.input twoSources.toBytes = .ok twoSources ∧
      splitOptions.lower twoSources = .ok (m', true) ∧
      (splitOptions.columns (splitOptions.groups twoSources) true
        (splitOptions.modules (splitOptions.groups twoSources) m')).foldlM
          (fun t c => t.addColumn c.name c.cells) Table.empty = .ok t ∧
      t.columns = ["Code", "Properties", "Symbols"] ∧ t.rows.length = 2 ∧
      (splitOptions.run Session.store twoSourcesSession).2 = .ok (.table "in.files" 2) := by
  have hread : Session.store.read twoSourcesSession splitOptions.input =
      .ok twoSources.toBytes := rfl
  have hm : Module.ofContent splitOptions.input twoSources.toBytes = .ok twoSources :=
    ofContent_toBytes (by decide +kernel) _
  have hl : splitOptions.lower twoSources =
      .ok ((twoSources.lowerSpecConstants .runtime).1, true) := by decide +kernel
  obtain ⟨t, ht, hcolumns, _, hrows, _⟩ :=
    (run_table splitOptions Session.store twoSourcesSession).2 _ _ _ _ rfl rfl hread hm hl
  have htwo : splitOptions.rowCount (splitOptions.groups twoSources) = 2 := by decide +kernel
  refine ⟨_, t, hread, hm, hl, ht, hcolumns, hrows.trans htwo, ?_⟩
  rw [run_eq_perform rfl hread hm]
  decide +kernel

end Options

end DeviceCode
