import DeviceCode.Proofs.Basic
import DeviceCode.Proofs.Output.Table
import DeviceCode.Proofs.Run.FileNames
import DeviceCode.Proofs.Run.Store

/-!
# What a run writes

A run that ends with a table has written the files of all columns and then the table, whose columns
list the paths of the files.  No two of these files have one name, so each is in the end what was
written to it.
-/

namespace DeviceCode

/-! ## Columns -/

/-- Columns that are accepted one after the other are all in the table, with the cells they had. -/
theorem Column.addAll_eq_ok {t t' : Table} {columns : List Column} {artifacts : List Artifact}
    (hr : t.IsRectangular) (h : Column.addAll t columns = (artifacts, .ok t')) :
    artifacts = columns.flatMap (·.artifacts) ∧
      (∀ n ∈ t.columns, t'.column? n = t.column? n) ∧
      (t.columns ≠ [] → t'.rows.length = t.rows.length) ∧
      ∀ c ∈ columns, t'.column? c.name = some c.cells ∧ c.cells.length = t'.rows.length := by
  induction columns generalizing t artifacts with
  | nil =>
      cases h
      exact ⟨rfl, fun _ _ => rfl, fun _ => rfl, nofun⟩
  | cons c columns ih =>
      rw [addAll] at h
      split at h
      case h_1 => cases h
      case h_2 t₁ h₁ =>
        rcases h₂ : addAll t₁ columns with ⟨artifacts₁, r⟩
        rw [h₂] at h
        cases h
        obtain ⟨rfl, hold, hrows, hcells⟩ := ih (hr.addColumn h₁) h₂
        obtain ⟨_, hc₁, _⟩ := Table.addColumn_eq_ok h₁
        have hne₁ : t₁.columns ≠ [] := by
          rw [hc₁]
          exact List.append_ne_nil_of_right_ne_nil _ (List.cons_ne_nil _ _)
        refine ⟨rfl, fun n hn => ?_, fun hne => ?_, List.forall_mem_cons.mpr ⟨⟨?_, ?_⟩, hcells⟩⟩
        · rw [hold n (by rw [hc₁]; exact List.mem_append_left _ hn)]
          exact Table.column?_addColumn_of_mem hr h₁ hn
        · rw [hrows hne₁, Table.length_rows_of_columns hne h₁]
        · rw [hold c.name (by rw [hc₁]; exact List.mem_append_right _ List.mem_cons_self)]
          exact Table.column?_addColumn_self hr h₁
        · rw [hrows hne₁, Table.length_rows_addColumn h₁]

namespace Options

open DeviceCode.Path

variable {o : Options}

/-! ## Files -/

/-- The files of a kind are numbered in order, and each has one of its contents. -/
theorem mem_numbered {kind : FileKind} {a : Artifact} :
    a ∈ o.numbered kind ↔ ∃ i content, kind.contents[i]? = some content ∧
      a = ⟨o.resultPath kind.extension i, content, kind.guarded⟩ := by
  rw [numbered, List.mem_mapIdx]
  constructor
  · rintro ⟨i, hi, rfl⟩
    exact ⟨i, _, List.getElem?_eq_getElem hi, rfl⟩
  · rintro ⟨i, content, hc, rfl⟩
    obtain ⟨hi, rfl⟩ := List.getElem?_eq_some_iff.mp hc
    exact ⟨i, hi, rfl⟩

/-- The files of some kinds, kind by kind. -/
def files (o : Options) (kinds : List FileKind) : List Artifact := kinds.flatMap o.numbered

variable {kinds : List FileKind}

theorem mem_files {a : Artifact} :
    a ∈ o.files kinds ↔ ∃ kind ∈ kinds, ∃ i content, kind.contents[i]? = some content ∧
      a = ⟨o.resultPath kind.extension i, content, kind.guarded⟩ := by
  simp only [files, List.mem_flatMap, mem_numbered]

theorem nodup_fileNames_numbered {kind : FileKind} (h : IsExtension kind.extension) :
    ((o.numbered kind).map (fileName? ·.path)).Nodup := by
  refine List.pairwise_iff_getElem.mpr fun i j hi hj hlt he => ?_
  simp only [numbered, List.getElem_map, List.getElem_mapIdx] at he
  exact Nat.ne_of_lt hlt (fileName?_resultPath_inj h h he).2

/-- Files of several kinds differ in their extensions or in their numbers. -/
theorem nodup_fileNames_files (he : ∀ kind ∈ kinds, IsExtension kind.extension)
    (hn : (kinds.map (·.extension)).Nodup) : ((o.files kinds).map (fileName? ·.path)).Nodup := by
  rw [files, List.map_flatMap, List.nodup_flatMap]
  refine ⟨fun kind hk => nodup_fileNames_numbered (he kind hk), ?_⟩
  rw [List.nodup_iff_pairwise_ne, List.pairwise_map] at hn
  refine hn.imp_of_mem fun {kind kind'} hk hk' hne name hname hname' => ?_
  obtain ⟨a, ha, rfl⟩ := List.mem_map.mp hname
  obtain ⟨b, hb, h⟩ := List.mem_map.mp hname'
  obtain ⟨i, content, _, rfl⟩ := mem_numbered.mp ha
  obtain ⟨j, content', _, rfl⟩ := mem_numbered.mp hb
  dsimp only at h
  exact hne (fileName?_resultPath_inj (he kind hk) (he kind' hk') h.symm).1

/-- The files of a table and the table itself, which is written last. -/
def tableFiles (o : Options) (kinds : List FileKind) (t : Table) : List Artifact :=
  o.files kinds ++ [⟨o.outputPath, utf8 t.text, false⟩]

/-- No two files of a run have one name. -/
theorem nodup_fileNames_tableFiles (he : ∀ kind ∈ kinds, IsExtension kind.extension)
    (hn : (kinds.map (·.extension)).Nodup) (t : Table) :
    ((o.tableFiles kinds t).map (fileName? ·.path)).Nodup := by
  rw [tableFiles, List.map_append, List.map_singleton, List.nodup_append]
  refine ⟨nodup_fileNames_files he hn, List.nodup_singleton _, ?_⟩
  intro name hname out hout h
  obtain ⟨a, ha, rfl⟩ := List.mem_map.mp hname
  obtain ⟨kind, hk, i, content, _, rfl⟩ := mem_files.mp ha
  rw [List.mem_singleton.mp hout] at h
  dsimp only at h
  exact fileName?_resultPath_ne_output (he kind hk) o i h

/-- Two files of a run with one name are the same file. -/
theorem fileName?_ne_of_mem_tableFiles (he : ∀ kind ∈ kinds, IsExtension kind.extension)
    (hn : (kinds.map (·.extension)).Nodup) {t : Table} {a b : Artifact}
    (ha : a ∈ o.tableFiles kinds t) (hb : b ∈ o.tableFiles kinds t) (hne : b ≠ a) :
    fileName? b.path ≠ fileName? a.path :=
  fun h => hne (List.inj_on_of_nodup_map (nodup_fileNames_tableFiles he hn t) hb ha h)

/-! ## The columns of a run -/

variable {groups : KernelGroups} {lowered : Bool} {modules : List Module}

/-- The kinds of files of a run: code files if they are written, and what the options ask for. -/
def artifactKinds (o : Options) (groups : KernelGroups) (lowered : Bool) (modules : List Module) :
    List FileKind :=
  o.codeFiles (if lowered || 1 < modules.length then modules else []) ::
    ((if o.specConstants = some .runtime then [propertyFiles lowered modules] else []) ++
      if o.symbols then [o.symbolFiles groups] else [])

theorem artifacts_columns :
    (o.columns groups lowered modules).flatMap (·.artifacts) =
      o.files (o.artifactKinds groups lowered modules) := by
  rw [columns, artifactKinds, files, List.flatMap_cons, List.flatMap_cons, List.flatMap_append,
    List.flatMap_append]
  congr 1
  · rw [codeColumn]
    split
    · rfl
    · rfl
  · congr 1
    · split
      · rfl
      · rfl
    · split
      · rfl
      · rfl

/-- The extensions of the kinds begin with their only dot. -/
theorem isExtension_artifactKinds :
    ∀ kind ∈ o.artifactKinds groups lowered modules, IsExtension kind.extension := by
  intro kind hf
  rcases List.mem_cons.mp hf with rfl | hf
  · exact o.isExtension_codeExtension
  · rcases List.mem_append.mp hf with hf | hf
    · split at hf
      · obtain rfl := List.mem_singleton.mp hf
        exact isExtension_prop
      · cases hf
    · split at hf
      · obtain rfl := List.mem_singleton.mp hf
        exact isExtension_sym
      · cases hf

/-- No two kinds have one extension. -/
theorem nodup_artifactKinds :
    ((o.artifactKinds groups lowered modules).map (·.extension)).Nodup := by
  have hsub : ((o.artifactKinds groups lowered modules).map (·.extension)).Sublist
      [o.codeExtension, ".prop", ".sym"] := by
    rw [artifactKinds, List.map_cons, List.map_append]
    exact .cons_cons _ (((ite_singleton_sublist _ _).map _).append
      ((ite_singleton_sublist _ _).map _))
  refine hsub.nodup ?_
  rw [codeExtension]
  split
  · decide
  · decide

/-- Columns that fit are written as the files they list, and then as a table. -/
theorem tablePlan_of_addAll {artifacts : List Artifact} {t : Table}
    (h : Column.addAll .empty (o.columns groups lowered modules) = (artifacts, .ok t)) :
    o.tablePlan (o.columns groups lowered modules) =
      ⟨o.tableFiles (o.artifactKinds groups lowered modules) t,
        .ok (.table o.outputPath t.rows.length)⟩ := by
  obtain ⟨ha, _⟩ := Column.addAll_eq_ok Table.isRectangular_empty h
  rw [tablePlan, h, ha, artifacts_columns]
  rfl

/-! ## Runs -/

variable {σ : Type} {fs : FileStore σ} {Sound : σ → Prop} {s s' : σ}

/-- Options that do not go together end the run before anything is read. -/
theorem run_of_invalid {e : UsageError} (hv : o.validate = .error e) :
    o.run fs s = (s, .error (.usage e)) := by
  rw [run, runOn, hv]
  rfl

theorem run_of_valid (hv : o.validate = .ok ()) :
    o.run fs s = fs.perform s (o.planContent (fs.read s o.input)) := by
  rw [run, runOn, hv]
  rfl

/-- A run whose input can be read carries the plan for its module out. -/
theorem run_eq_perform (hv : o.validate = .ok ()) {bytes : List UInt8} {m : Module}
    (hread : fs.read s o.input = .ok bytes) (hm : Module.ofContent o.input bytes = .ok m) :
    o.run fs s = fs.perform s (o.plan m) := by
  rw [run_of_valid hv, hread, planContent, hm]

theorem perform_eq_ok {p : Plan} {outcome : Outcome} (h : fs.perform s p = (s', .ok outcome)) :
    fs.writeAll s p.writes = (s', .ok ()) ∧ p.result = .ok outcome := by
  rw [FileStore.perform_eq, Prod.mk.injEq] at h
  obtain ⟨hs, h⟩ := h
  obtain ⟨_, hw, h⟩ := Except.bind_eq_ok.mp h
  exact ⟨Prod.ext hs hw, h⟩

/-- A run that succeeds has read a module and carried the plan for it out. -/
theorem plan_of_run {outcome : Outcome} (h : o.run fs s = (s', .ok outcome)) :
    o.validate = .ok () ∧ ∃ bytes m, fs.read s o.input = .ok bytes ∧
      Module.ofContent o.input bytes = .ok m ∧ fs.perform s (o.plan m) = (s', .ok outcome) := by
  cases hv : o.validate with
  | error e =>
      rw [run_of_invalid hv] at h
      cases h
  | ok =>
    rw [run_of_valid hv] at h
    refine ⟨rfl, ?_⟩
    cases hread : fs.read s o.input with
    | error fault =>
        rw [hread] at h
        cases h
    | ok bytes =>
        rw [hread, planContent] at h
        cases hm : Module.ofContent o.input bytes with
        | error e =>
            rw [hm] at h
            cases h
        | ok m =>
            rw [hm] at h
            exact ⟨bytes, m, rfl, hm, h⟩

/-- A run that has read a module, lowered it, and written the files of its modules and a table. -/
structure RanToTable (o : Options) (fs : FileStore σ) (s s' : σ) (m m' : Module) (lowered : Bool)
    (t : Table) : Prop where
  read : ∃ bytes, fs.read s o.input = .ok bytes ∧ Module.ofContent o.input bytes = .ok m
  lower : o.lower m = .ok (m', lowered)
  columns : ∀ c ∈ o.columns (o.groups m) lowered (o.modules (o.groups m) m'),
    t.column? c.name = some c.cells ∧ c.cells.length = t.rows.length
  writes :
    fs.writeAll s
      (o.tableFiles (o.artifactKinds (o.groups m) lowered (o.modules (o.groups m) m')) t) =
        (s', .ok ())

namespace RanToTable

variable {m m' : Module} {lowered : Bool} {t : Table}

/-- Every file of the run has what was written to it. -/
theorem read_file (hrun : o.RanToTable fs s s' m m' lowered t) (hfs : fs.KeepsFiles Sound)
    (hs : Sound s) {a : Artifact}
    (ha : a ∈ o.tableFiles
      (o.artifactKinds (o.groups m) lowered (o.modules (o.groups m) m')) t)
    (hp : a.path ≠ "-") : fs.read s' a.path = .ok a.content :=
  hfs.read_writeAll hs hrun.writes ha hp fun _ hb hne =>
    fileName?_ne_of_mem_tableFiles isExtension_artifactKinds nodup_artifactKinds ha hb hne

theorem read_table (hrun : o.RanToTable fs s s' m m' lowered t) (hfs : fs.KeepsFiles Sound)
    (hs : Sound s) (hp : o.outputPath ≠ "-") : fs.read s' o.outputPath = .ok (utf8 t.text) :=
  hrun.read_file hfs hs (a := ⟨o.outputPath, utf8 t.text, false⟩)
    (List.mem_append_right _ List.mem_cons_self) hp

end RanToTable

end Options

end DeviceCode
