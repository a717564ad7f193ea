import Mathlib.Data.List.Induction
import DeviceCode.Proofs.Output.InPlace
import DeviceCode.Proofs.Output.Reread

/-!
# Tables that can be read

A reader looks at the width of the rows, and at nothing else: whatever has columns, a cell for each
of them in every row, and no separator in its cells and names can be read from some text
(`exists_read_iff`).  So two columns of a table that was read may have one name, and a name may be
empty or have brackets in it.  These are all the ways in which such a table fails to be one that can
be built column by column.
-/

namespace DeviceCode.Table

variable {t : Table}

/-! ## What can be read -/

/-- What the reader makes sure of. -/
structure IsReadable (t : Table) : Prop where
  rectangular : t.IsRectangular
  columns_ne_nil : t.columns ≠ []
  names : ∀ name ∈ t.columns, IsCell name
  cells : ∀ row ∈ t.rows, ∀ cell ∈ row, IsCell cell

/-- The table in writing, with a carriage return in every line end, so that a row may end with one
of its own. -/
def returnedText (t : Table) : String :=
  String.ofList ((t.textLines.map (· ++ ['\r'])).flatMap (· ++ ['\n']))

/-- The carriage return of a line end is all that its line loses. -/
theorem endedLine_returned (line : List Char) : Text.endedLine (line ++ ['\r']).reverse = line := by
  rw [List.reverse_append, List.reverse_singleton, List.singleton_append, Text.endedLine,
    List.reverse_reverse]

theorem IsReadable.lines_returnedText (ht : t.IsReadable) :
    Text.lines t.returnedText.toList = t.textLines := by
  have hlines : ∀ l ∈ t.textLines.map (· ++ ['\r']), '\n' ∉ l := by
    intro l hl
    obtain ⟨line, hline, rfl⟩ := List.mem_map.mp hl
    simpa using newline_notMem_textLines ht.names ht.cells hline
  rw [returnedText, String.toList_ofList, Text.lines_flatMap hlines, List.map_map]
  exact List.map_id'' endedLine_returned _

/-- Such a table is read from this text. -/
theorem IsReadable.read_returnedText (ht : t.IsReadable) : Table.read t.returnedText = .ok t := by
  rw [Table.read, Except.mapError_eq_ok, ht.lines_returnedText, textLines,
    readLines_cons_eq_ok (unbracket?_bracketed _)]
  refine ⟨splitOn_rowText (fun name hn => (ht.names name hn).bar) ht.columns_ne_nil,
    List.forall₂_map_left_iff.mpr (List.forall₂_same.mpr fun row hrow => ?_)⟩
  have hwidth := ht.rectangular row hrow
  have hbar : ∀ cell ∈ row, '|' ∉ cell.toList := fun cell hc => (ht.cells row hrow cell hc).bar
  refine readRow_eq_ok.mpr ⟨hwidth, splitOn_rowText hbar ?_⟩
  rw [← List.length_pos_iff, hwidth, List.length_pos_iff]
  exact ht.columns_ne_nil

/-- Whatever is read can be read, and whatever can be read is. -/
theorem exists_read_iff : (∃ text, Table.read text = .ok t) ↔ t.IsReadable := by
  constructor
  · rintro ⟨text, h⟩
    exact ⟨isRectangular_of_read h, columns_ne_nil_of_read h, (isCell_of_read h).1,
      (isCell_of_read h).2⟩
  · exact fun ht => ⟨t.returnedText, ht.read_returnedText⟩

/-! ## What can be built -/

/-- The columns of a table, each with its name and its cells. -/
def cut (t : Table) : List (String × List String) :=
  t.columns.mapIdx fun i name => (name, t.rows.map fun row => row.getD i "")

@[simp] theorem map_fst_cut (t : Table) : t.cut.map (·.1) = t.columns :=
  List.ext_getElem (by simp [cut]) fun i hi hi' => by simp [cut]

theorem IsRectangular.ofColumns_cut (ht : t.IsRectangular) : ofColumns t.rows.length t.cut = t := by
  have hrows : (ofColumns t.rows.length t.cut).rows = t.rows := by
    refine List.ext_getElem (by simp [ofColumns]) fun i hi hi' => ?_
    have hwidth : t.rows[i].length = t.columns.length := ht _ (List.getElem_mem hi')
    refine List.ext_getElem (by simp [ofColumns, cut, hwidth]) fun j hj hj' => ?_
    simp [ofColumns, cut, hi', hj']
  exact congrArg₂ Table.mk (map_fst_cut t) hrows

theorem build_concat (columns : List (String × List String)) (column : String × List String) :
    build (columns ++ [column]) = (build columns).tryColumn column := by
  rw [build, List.foldl_append]
  rfl

/-- No column is refused whose name is a new one, and which is as long as the others. -/
theorem build_eq_ofColumns {rows : Nat} {columns : List (String × List String)} (hne : columns ≠ [])
    (hnames : ∀ column ∈ columns, isColumnName column.1) (hdistinct : (columns.map (·.1)).Nodup)
    (hlength : ∀ column ∈ columns, column.2.length = rows) :
    build columns = ofColumns rows columns := by
  -- from the right, since the last column is tried on the table of those in front of it
  induction columns using List.reverseRecOn with
  | nil => exact absurd rfl hne
  | append_singleton columns column ih =>
      rw [List.forall_mem_append, List.forall_mem_singleton] at hnames hlength
      rw [List.map_append, List.map_singleton, ← List.concat_eq_append,
        List.nodup_concat] at hdistinct
      rw [build_concat, tryColumn]
      by_cases hfirst : columns = []
      · rw [hfirst, build, List.foldl_nil, addColumn_empty hnames.2, hlength.2]
        rfl
      · rw [ih hfirst hnames.1 hdistinct.2 hlength.1,
          addColumn_ofColumns hnames.2 hdistinct.1 hfirst hlength.2]

/-- A well-formed table is built from its columns. -/
theorem WellFormed.build_cut (ht : t.WellFormed) (hne : t.columns ≠ []) : build t.cut = t := by
  have hcut : t.cut ≠ [] := by rwa [ne_eq, cut, List.mapIdx_eq_nil_iff]
  have hnames : ∀ column ∈ t.cut, isColumnName column.1 := fun column hc =>
    ht.names column.1 (map_fst_cut t ▸ List.mem_map_of_mem hc)
  have hlength : ∀ column ∈ t.cut, column.2.length = t.rows.length := by
    intro column hc
    obtain ⟨i, hi, rfl⟩ := List.mem_mapIdx.mp hc
    exact List.length_map _
  rw [build_eq_ofColumns hcut hnames ((map_fst_cut t).symm ▸ ht.distinct) hlength,
    ht.rectangular.ofColumns_cut]

/-! ## Columns by their names -/

/-- Each column is the first one of its name, so that a look-up finds it. -/
def IsReachable (t : Table) : Prop :=
  ∀ i (h : i < t.columns.length), t.columns.idxOf? t.columns[i] = some i

/-- Each column is found by its name exactly if no two have one name. -/
theorem isReachable_iff : t.IsReachable ↔ t.columns.Nodup := by
  constructor
  · intro h
    rw [List.nodup_iff_injective_getElem]
    intro i j hij
    have hname : t.columns[i.val] = t.columns[j.val] := hij
    have hi := h i i.isLt
    rw [hname, h j j.isLt] at hi
    exact Fin.ext (Option.some.inj hi).symm
  · intro h i hi
    refine List.idxOf?_eq_some_iff.mpr ⟨hi, rfl, fun j hj heq => ?_⟩
    exact Nat.ne_of_lt hj (h.getElem_inj_iff.mp heq)

/-- What is known of a table that was read, and what is not: its rows have a cell for each of its
columns, of which there is at least one, and no name has a bar or a line end.  But all its columns
are found only if no two names are the same, and it is well-formed, and can be built column by
column, only if besides no name is empty or has a bracket in it. -/
theorem wellFormed_iff_of_read {text : String} (h : Table.read text = .ok t) :
    t.IsReadable ∧ (t.IsReachable ↔ t.columns.Nodup) ∧
      (t.WellFormed ↔ t.columns.Nodup ∧
        ∀ name ∈ t.columns, name ≠ "" ∧ '[' ∉ name.toList ∧ ']' ∉ name.toList) ∧
      ((∃ columns, build columns = t) ↔ t.WellFormed) := by
  have ht := exists_read_iff.mp ⟨text, h⟩
  refine ⟨ht, isReachable_iff, ⟨fun hw => ⟨hw.distinct, fun name hn => ?_⟩, ?_⟩, ?_, fun hw => ?_⟩
  · obtain ⟨hne, -, hopen, hclose, -⟩ := isColumnName_iff.mp (hw.names name hn)
    exact ⟨hne, hopen, hclose⟩
  · rintro ⟨hdistinct, hnames⟩
    refine ⟨ht.rectangular, fun name hn => isColumnName_iff.mpr ?_, hdistinct⟩
    obtain ⟨hne, hopen, hclose⟩ := hnames name hn
    exact ⟨hne, (ht.names name hn).bar, hopen, hclose, (ht.names name hn).newline⟩
  · rintro ⟨columns, rfl⟩
    exact wellFormed_build columns
  · exact ⟨t.cut, hw.build_cut ht.columns_ne_nil⟩

/-- Two columns of one name. -/
def twins : Table := ⟨["Code", "Code"], [["a", "b"]]⟩

/-- They can be read, but not built, and the second is not found. -/
theorem twins_read :
    Table.read "[Code|Code]\na|b\n" = .ok twins ∧ ¬ twins.WellFormed ∧
      (¬ ∃ columns, build columns = twins) ∧ ¬ twins.IsReachable := by
  have hread : Table.read "[Code|Code]\na|b\n" = .ok twins := by decide +kernel
  obtain ⟨-, hreach, hwf, hbuild⟩ := wellFormed_iff_of_read hread
  have hdistinct : ¬ twins.columns.Nodup := by decide
  have hnot : ¬ twins.WellFormed := fun h => hdistinct (hwf.mp h).1
  exact ⟨hread, hnot, fun h => hnot (hbuild.mp h), fun h => hdistinct (hreach.mp h)⟩

end DeviceCode.Table
