import DeviceCode.Proofs.Output.Written
import DeviceCode.Proofs.Run.Rows

/-!
# Reading the table of a run

The paths in the table are written as they are.  Those of the files of the run all have the same
directory and the same stem, so that these two decide, with the input if it is listed, whether the
table can be read back (`read_table_of_run`).
-/

namespace DeviceCode

namespace Options

open Table (IsCell EndsInReturn)

variable {o : Options} {groups : KernelGroups} {lowered : Bool} {m m' : Module} {i : Nat}
  {extension : String}

/-! ## Paths as cells -/

/-- The extensions of the files of a row. -/
def extensions (o : Options) (groups : KernelGroups) (lowered : Bool) : List String :=
  (if o.writesCode groups lowered then [o.codeExtension] else []) ++
    ((if o.specConstants = some .runtime then [".prop"] else []) ++
      if o.symbols then [".sym"] else [])

/-- A row has the input if no code is written, and the files of the run. -/
theorem rowPaths_eq (o : Options) (groups : KernelGroups) (lowered : Bool) (i : Nat) :
    o.rowPaths groups lowered i =
      (if o.writesCode groups lowered then [] else [o.input]) ++
        (o.extensions groups lowered).map (o.resultPath · i) := by
  have hrest :
      ((if o.specConstants = some .runtime then [".prop"] else []) ++
        if o.symbols then [".sym"] else []).map (o.resultPath · i) =
      (if o.specConstants = some .runtime then [o.resultPath ".prop" i] else []) ++
        if o.symbols then [o.resultPath ".sym" i] else [] := by
    rw [List.map_append]
    congr 1
    · split
      · rfl
      · rfl
    · split
      · rfl
      · rfl
  rw [rowPaths, extensions, List.map_append, hrest]
  split
  · rfl
  · rfl

/-- An extension with nothing in it that would get in the way of a cell. -/
structure IsPlain (extension : String) : Prop where
  cell : IsCell extension
  slash : '/' ∉ extension.toList
  nonempty : extension.toList ≠ []
  kept : ¬ EndsInReturn extension

/-- The extensions of a run have no bars, line ends or carriage returns in them. -/
theorem isPlain_of_mem_extensions (h : extension ∈ o.extensions groups lowered) :
    IsPlain extension := by
  have hall : extension ∈ [".ll", ".bc", ".prop", ".sym"] := by
    rw [extensions, codeExtension, List.mem_append, List.mem_append] at h
    rcases h with h | h | h
    · split at h
      · split at h
        · rw [List.mem_singleton.mp h]
          decide
        · rw [List.mem_singleton.mp h]
          decide
      · cases h
    · split at h
      · rw [List.mem_singleton.mp h]
        decide
      · cases h
    · split at h
      · rw [List.mem_singleton.mp h]
        decide
      · cases h
  have hplain : ∀ e ∈ [".ll", ".bc", ".prop", ".sym"],
      IsCell e ∧ '/' ∉ e.toList ∧ e.toList ≠ [] ∧ ¬ EndsInReturn e := by decide
  obtain ⟨hcell, hslash, hne, hkept⟩ := hplain extension hall
  exact ⟨hcell, hslash, hne, hkept⟩

/-- A character that is neither a slash, an underscore nor a digit comes into the path of a file
from the directory, from the stem or from the extension. -/
theorem mem_toList_resultPath (h : '/' ∉ extension.toList) {c : Char} (hslash : c ≠ '/')
    (hunderscore : c ≠ '_') (hdigit : c.isDigit = false) :
    c ∈ (o.resultPath extension i).toList ↔
      c ∈ o.resultDirectory.toList ∨ c ∈ o.stem.toList ∨ c ∈ extension.toList := by
  have hname : (o.numberedStem i ++ extension).toList.head? ≠ some '/' := by
    intro hhead
    have hmem := List.mem_of_head? hhead
    rw [String.toList_append, List.mem_append] at hmem
    exact hmem.elim (slash_not_mem_numberedStem o i) h
  have hdigits : c ∉ Nat.toDigits 10 i := by
    intro hmem
    rw [Nat.isDigit_of_mem_toDigits (by omega) (by omega) hmem] at hdigit
    cases hdigit
  change c ∈ (Path.join _ (o.numberedStem i ++ extension)).toList ↔ _
  rw [Path.mem_toList_join hname hslash, numberedStem]
  simp [hunderscore, hdigits]

/-- A path is a cell if its directory and its stem are. -/
theorem isCell_resultPath (h : IsPlain extension) :
    IsCell (o.resultPath extension i) ↔ IsCell o.resultDirectory ∧ IsCell o.stem := by
  have hbar : '|' ∈ (o.resultPath extension i).toList ↔ _ :=
    mem_toList_resultPath h.slash (by decide) (by decide) (by decide)
  have hnewline : '\n' ∈ (o.resultPath extension i).toList ↔ _ :=
    mem_toList_resultPath h.slash (by decide) (by decide) (by decide)
  constructor
  · intro hcell
    have hb := fun hmem => hcell.bar (hbar.mpr hmem)
    have hn := fun hmem => hcell.newline (hnewline.mpr hmem)
    exact ⟨⟨fun hmem => hb (.inl hmem), fun hmem => hn (.inl hmem)⟩,
      ⟨fun hmem => hb (.inr (.inl hmem)), fun hmem => hn (.inr (.inl hmem))⟩⟩
  · rintro ⟨hdirectory, hstem⟩
    constructor
    case bar =>
      intro hmem
      rcases hbar.mp hmem with hmem | hmem | hmem
      · exact hdirectory.bar hmem
      · exact hstem.bar hmem
      · exact h.cell.bar hmem
    case newline =>
      intro hmem
      rcases hnewline.mp hmem with hmem | hmem | hmem
      · exact hdirectory.newline hmem
      · exact hstem.newline hmem
      · exact h.cell.newline hmem

/-- The path of a file ends as its extension does. -/
theorem getLast?_resultPath (hne : extension.toList ≠ []) :
    (o.resultPath extension i).toList.getLast? = extension.toList.getLast? := by
  have hsuffix : ∃ start, (o.resultPath extension i).toList = start ++ extension.toList := by
    change ∃ start, (Path.join _ (o.numberedStem i ++ extension)).toList = _
    rw [Path.join]
    split
    · exact ⟨_, String.toList_append⟩
    · split
      · exact ⟨_, by rw [← String.append_assoc, String.toList_append]⟩
      · exact ⟨_, by rw [← String.append_assoc, String.toList_append]⟩
  obtain ⟨start, hstart⟩ := hsuffix
  rw [hstart, List.getLast?_append_of_ne_nil _ hne]

/-! ## The table in writing -/

/-- There is a row at least. -/
theorem rowCount_pos (o : Options) (groups : KernelGroups) : 0 < o.rowCount groups := by
  rw [rowCount]
  split
  case isTrue h => exact h.2
  case isFalse => exact Nat.one_pos

theorem forall_mem_rows_fileTable {P : List String → Prop} :
    (∀ row ∈ (o.fileTable groups lowered).rows, P row) ↔
      ∀ i < o.rowCount groups, P (o.rowPaths groups lowered i) := by
  rw [fileTable, List.forall_mem_map]
  exact forall_congr' fun i => by rw [List.mem_range]

/-- The table of a run has a cell in each row for each column. -/
theorem isRectangular_fileTable (o : Options) (groups : KernelGroups) (lowered : Bool) :
    (o.fileTable groups lowered).IsRectangular := by
  rw [Table.IsRectangular, forall_mem_rows_fileTable]
  intro i _
  rw [rowPaths, fileTable, columnNames, List.length_cons, List.length_cons, List.length_append,
    List.length_append]
  congr 2
  · split
    · rfl
    · rfl
  · split
    · rfl
    · rfl

/-- The cells of a row are its own, whatever the number, if the input, the directory and the stem
are cells. -/
theorem isCell_rowPaths (o : Options) (groups : KernelGroups) (lowered : Bool) (i : Nat) :
    (∀ cell ∈ o.rowPaths groups lowered i, IsCell cell) ↔
      (o.writesCode groups lowered = false → IsCell o.input) ∧
        (o.extensions groups lowered ≠ [] → IsCell o.resultDirectory ∧ IsCell o.stem) := by
  rw [rowPaths_eq, List.forall_mem_append, List.forall_mem_map]
  refine and_congr ?_ ?_
  · cases o.writesCode groups lowered with
    | true => exact iff_of_true nofun nofun
    | false => simp
  · constructor
    · intro h hne
      obtain ⟨extension, hmem⟩ := List.exists_mem_of_ne_nil _ hne
      exact (isCell_resultPath (isPlain_of_mem_extensions hmem)).mp (h extension hmem)
    · intro h extension hmem
      exact (isCell_resultPath (isPlain_of_mem_extensions hmem)).mpr (h (List.ne_nil_of_mem hmem))

/-- The last path of a row is the input only if the row has no other. -/
theorem endsInReturn_rowPaths (o : Options) (groups : KernelGroups) (lowered : Bool) (i : Nat) :
    (∀ cell ∈ (o.rowPaths groups lowered i).getLast?, ¬ EndsInReturn cell) ↔
      (o.extensions groups lowered = [] → ¬ EndsInReturn o.input) := by
  rw [rowPaths_eq]
  by_cases hne : o.extensions groups lowered = []
  · have hcode : o.writesCode groups lowered = false := by
      rw [extensions, List.append_eq_nil_iff] at hne
      by_contra hcode
      rw [Bool.not_eq_false] at hcode
      rw [if_pos hcode] at hne
      cases hne.1
    rw [hne, hcode, if_neg nofun, List.map_nil, List.append_nil, List.getLast?_singleton]
    simp
  · refine iff_of_true ?_ fun h => absurd h hne
    rw [List.getLast?_append_of_ne_nil _ (by simpa using hne), List.getLast?_map]
    intro cell hcell
    obtain ⟨extension, hlast, rfl⟩ := Option.map_eq_some_iff.mp hcell
    have hplain := isPlain_of_mem_extensions (List.mem_of_getLast? hlast)
    rw [EndsInReturn, getLast?_resultPath hplain.nonempty]
    exact hplain.kept

/-- The table of a run is read back as it was exactly if the paths that are put into it keep clear
of bars and line ends, and the input, where nothing else is listed, does not end with a carriage
return. -/
theorem read_fileTable_iff (o : Options) (groups : KernelGroups) (lowered : Bool) :
    Table.read (o.fileTable groups lowered).text = .ok (o.fileTable groups lowered) ↔
      (o.writesCode groups lowered = false → IsCell o.input) ∧
        (o.extensions groups lowered ≠ [] → IsCell o.resultDirectory ∧ IsCell o.stem) ∧
        (o.extensions groups lowered = [] → ¬ EndsInReturn o.input) := by
  have hnames : ∀ name ∈ (o.fileTable groups lowered).columns, Table.isColumnName name := by
    intro name hname
    have hall : ∀ name ∈ ["Code", "Properties", "Symbols"], Table.isColumnName name := by decide
    exact hall name (o.columnNames_sublist.mem hname)
  have hpos := o.rowCount_pos groups
  rw [Table.read_text_eq_iff (o.isRectangular_fileTable groups lowered) (List.cons_ne_nil _ _)
    hnames, forall_mem_rows_fileTable, forall_mem_rows_fileTable, ← and_assoc]
  simp only [isCell_rowPaths, endsInReturn_rowPaths]
  exact and_congr ⟨fun h => h 0 hpos, fun h _ _ => h⟩ ⟨fun h => h 0 hpos, fun h _ _ => h⟩

/-! ## Runs -/

/-- A run that ends with a table has built it column by column, and written it last.  It is read
back as the table that was built, with all its rows and paths, exactly if the input (where it is
listed in place of code files), and the directory and the stem of the files of the run (if there are
any) have neither bars nor line ends in them, and the input, if it is all that is listed, does not
end with a carriage return. -/
theorem read_table_of_run {σ : Type} {fs : FileStore σ} {Sound : σ → Prop} {s s' : σ}
    (hfs : fs.KeepsFiles Sound) (hs : Sound s) {path : String} {rows : Nat}
    (h : o.run fs s = (s', .ok (.table path rows))) :
    ∃ (bytes : List UInt8) (m m' : Module) (lowered : Bool) (t : Table),
      fs.read s o.input = .ok bytes ∧ Module.ofContent o.input bytes = .ok m ∧
      o.lower m = .ok (m', lowered) ∧
      (Column.addAll .empty (o.columns (o.groups m) lowered (o.modules (o.groups m) m'))).2 =
        .ok t ∧
      t.columns = o.columnNames ∧ t.rows.length = rows ∧
      fs.writeAll s (o.plan m).writes = (s', .ok ()) ∧
      (o.plan m).writes.getLast? = some ⟨path, utf8 t.text, false⟩ ∧
      (path ≠ "-" → fs.read s' path = .ok (utf8 t.text)) ∧
      (Table.read t.text = .ok t ↔
        (o.writesCode (o.groups m) lowered = false → IsCell o.input) ∧
          (o.extensions (o.groups m) lowered ≠ [] → IsCell o.resultDirectory ∧ IsCell o.stem) ∧
          (o.extensions (o.groups m) lowered = [] → ¬ EndsInReturn o.input)) := by
  obtain ⟨m, m', lowered, hrun, houtcome, hwrites⟩ :=
    ranToTable_fileTable (singleModule_of_run h) h
  obtain ⟨bytes, hread, hm⟩ := hrun.read
  obtain ⟨rfl, rfl⟩ := Outcome.table.inj houtcome
  refine ⟨bytes, m, m', lowered, o.fileTable (o.groups m) lowered, hread, hm, hrun.lower, ?_, rfl,
    o.length_rows_fileTable _ _, ?_, ?_, hrun.read_table hfs hs, o.read_fileTable_iff _ _⟩
  · rw [o.addAll_columns]
  · rw [hwrites]
    exact hrun.writes
  · rw [hwrites, tableFiles, List.getLast?_concat]

def barOptions : Options := { standard with input := "a|b.bc", symbols := true }

def barSession : Session where
  tree := ⟨[(["a|b.bc"], .file twoSources.toBytes)], []⟩
  input := []
  output := []

/-- A bar in the name of the input gets into all paths of its table, which cannot be read back. -/
theorem bar_table :
    ∃ s' t, barOptions.run Session.store barSession = (s', .ok (.table "a|b.files" 1)) ∧
      t = ⟨["Code", "Symbols"], [["a|b.bc", "a|b_0.sym"]]⟩ ∧
      Session.store.read s' "a|b.files" = .ok (utf8 t.text) ∧
      Table.read t.text =
        .error (.malformed (.raggedRow "a|b.bc|a|b_0.sym" 4 2)) ∧
      Table.read t.text ≠ .ok t := by
  have hm : Module.ofContent barOptions.input twoSources.toBytes = .ok twoSources :=
    ofContent_toBytes (by decide +kernel) _
  have hrun : barOptions.run Session.store barSession =
      ((barOptions.run Session.store barSession).1, .ok (.table "a|b.files" 1)) := by
    rw [run_eq_perform rfl rfl hm]
    exact eq_mk_of_snd_eq (by decide +kernel)
  have hs : barSession.tree.HasWorkingDirectory := .root _
  obtain ⟨bytes, m, m', lowered, t, hread, hm₁, hl, ht, _, _, _, _, hfile, hback⟩ :=
    read_table_of_run Session.keepsFiles_store hs hrun
  obtain rfl : twoSources.toBytes = bytes := Except.ok.inj hread
  obtain rfl := Except.ok.inj (hm.symm.trans hm₁)
  obtain ⟨rfl, rfl⟩ := Prod.mk.inj (Except.ok.inj hl)
  rw [addAll_columns, Except.ok.injEq] at ht
  have htable : t = ⟨["Code", "Symbols"], [["a|b.bc", "a|b_0.sym"]]⟩ := by
    rw [← ht]
    decide +kernel
  refine ⟨_, t, hrun, htable, hfile (by decide), ?_, ?_⟩
  · rw [htable]
    decide +kernel
  · rw [ne_eq, hback]
    rintro ⟨hinput, _⟩
    have hcell := hinput (by decide +kernel)
    exact absurd hcell (by decide)

end Options

end DeviceCode
