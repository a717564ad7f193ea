import DeviceCode.Proofs.Output.Written

/-!
# Tables built column by column

Columns are added one after another, and one that is refused leaves the table as it was.  Whatever
was tried, every row of the table has a cell for every column, and the columns have names of their
own (`wellFormed_build`).  So it hangs on the cells alone whether a table with columns is read back
(`read_text_build_iff`).
-/

namespace DeviceCode.Table

/-- What a table keeps when columns are added. -/
structure WellFormed (t : Table) : Prop where
  rectangular : t.IsRectangular
  names : ∀ name ∈ t.columns, isColumnName name
  distinct : t.columns.Nodup

/-- The table with one more column, or as it was if the column is refused. -/
def tryColumn (t : Table) (column : String × List String) : Table :=
  match t.addColumn column.1 column.2 with
  | .ok t' => t'
  | .error _ => t

/-- What some columns, tried one after another, make of a table without any. -/
def build (columns : List (String × List String)) : Table := columns.foldl tryColumn empty

variable {t t' : Table} {name : String} {cells : List String}

/-! ## What is kept -/

/-- A column is taken under a proper name only. -/
theorem isColumnName_of_addColumn (h : t.addColumn name cells = .ok t') : isColumnName name := by
  unfold addColumn at h
  split at h
  case isTrue => cases h
  case isFalse hname => simpa using hname

theorem wellFormed_empty : empty.WellFormed where
  rectangular := isRectangular_empty
  names := nofun
  distinct := List.nodup_nil

/-- A column that is taken has a name of its own and a cell for each row. -/
theorem WellFormed.addColumn (ht : t.WellFormed) (h : t.addColumn name cells = .ok t') :
    t'.WellFormed := by
  obtain ⟨hnew, hcolumns, _⟩ := addColumn_eq_ok h
  constructor
  case rectangular => exact ht.rectangular.addColumn h
  case names =>
    rw [hcolumns, List.forall_mem_append, List.forall_mem_singleton]
    exact ⟨ht.names, isColumnName_of_addColumn h⟩
  case distinct =>
    rw [hcolumns, ← List.concat_eq_append]
    exact ht.distinct.concat hnew

/-- A column that is refused leaves the table as it was. -/
theorem WellFormed.tryColumn (ht : t.WellFormed) (column : String × List String) :
    (t.tryColumn column).WellFormed := by
  unfold Table.tryColumn
  split
  case h_1 t' h => exact ht.addColumn h
  case h_2 => exact ht

/-- So a table stays well-formed, by induction on the columns that are tried. -/
theorem WellFormed.foldl_tryColumn (ht : t.WellFormed) (columns : List (String × List String)) :
    (columns.foldl Table.tryColumn t).WellFormed := by
  induction columns generalizing t with
  | nil => exact ht
  | cons column columns ih => exact ih (ht.tryColumn column)

theorem wellFormed_build (columns : List (String × List String)) : (build columns).WellFormed :=
  wellFormed_empty.foldl_tryColumn columns

/-! ## Reading back -/

/-- A header has at least one name in it, if only an empty one. -/
theorem columns_ne_nil_of_read {text : String} (h : Table.read text = .ok t) : t.columns ≠ [] := by
  have h := Except.mapError_eq_ok.mp h
  obtain ⟨header, names, lines, hlines, hnames⟩ := exists_unbracket?_of_readLines h
  rw [hlines, readLines_cons_eq_ok hnames] at h
  rw [← h.1, ne_eq, List.map_eq_nil_iff]
  exact List.splitOn_ne_nil _ _

/-- Whatever columns were tried, the table is read back as it was exactly if it has a column, no
cell has a bar or a line end, and no last cell of a row ends with a carriage return. -/
theorem read_text_build_iff (columns : List (String × List String)) :
    Table.read (build columns).text = .ok (build columns) ↔
      (build columns).columns ≠ [] ∧
        (∀ row ∈ (build columns).rows, ∀ cell ∈ row, IsCell cell) ∧
        ∀ row ∈ (build columns).rows, ∀ cell ∈ row.getLast?, ¬ EndsInReturn cell := by
  have ht := wellFormed_build columns
  constructor
  · intro h
    have hne := columns_ne_nil_of_read h
    exact ⟨hne, (read_text_eq_iff ht.rectangular hne ht.names).mp h⟩
  · rintro ⟨hne, hcells⟩
    exact (read_text_eq_iff ht.rectangular hne ht.names).mpr hcells

end DeviceCode.Table
