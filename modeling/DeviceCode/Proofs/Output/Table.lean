import Mathlib.Data.List.GetD
import DeviceCode.Output.Table

/-!
# Columns of tables

A table is rectangular, and stays so when a column is added.  The new column has the cells it was
given, and the others stay as they were.  So columns of one length make a table, `ofColumns`, which
does not depend on how it was built.
-/

namespace DeviceCode.Table

variable {t t' : Table} {name : String} {cells : List String}

/-- Every row has a cell for every column. -/
def IsRectangular (t : Table) : Prop := ∀ row ∈ t.rows, row.length = t.columns.length

theorem isRectangular_empty : empty.IsRectangular := nofun

/-- What is checked and what is done when a column is added to a table. -/
theorem addColumn_eq_ok (h : t.addColumn name cells = .ok t') :
    name ∉ t.columns ∧ t'.columns = t.columns ++ [name] ∧
      (t.columns = [] ∧ t'.rows = cells.map (fun cell => [cell]) ∨
        t.columns ≠ [] ∧ cells.length = t.rows.length ∧
          t'.rows = List.zipWith (fun row cell => row ++ [cell]) t.rows cells) := by
  unfold addColumn at h
  split at h
  case isTrue => cases h
  case isFalse =>
    split at h
    case isTrue => cases h
    case isFalse hn =>
      split at h
      case isTrue hc =>
        cases h
        exact ⟨hn, by rw [hc]; rfl, .inl ⟨hc, rfl⟩⟩
      case isFalse hc =>
        split at h
        case isTrue => cases h
        case isFalse hl =>
          cases h
          exact ⟨hn, rfl, .inr ⟨hc, not_not.mp hl, rfl⟩⟩

theorem length_rows_addColumn (h : t.addColumn name cells = .ok t') :
    t'.rows.length = cells.length := by
  obtain ⟨_, _, ⟨_, hr⟩ | ⟨_, hl, hr⟩⟩ := addColumn_eq_ok h
  · rw [hr, List.length_map]
  · rw [hr, List.length_zipWith, hl, Nat.min_self]

theorem length_rows_of_columns (hc : t.columns ≠ []) (h : t.addColumn name cells = .ok t') :
    t'.rows.length = t.rows.length := by
  rw [length_rows_addColumn h]
  obtain ⟨_, _, ⟨he, _⟩ | ⟨_, hl, _⟩⟩ := addColumn_eq_ok h
  · exact absurd he hc
  · exact hl

theorem IsRectangular.addColumn (hr : t.IsRectangular) (h : t.addColumn name cells = .ok t') :
    t'.IsRectangular := by
  obtain ⟨_, hc, ⟨he, hrows⟩ | ⟨_, _, hrows⟩⟩ := addColumn_eq_ok h
  · intro row hm
    rw [hrows] at hm
    obtain ⟨cell, _, rfl⟩ := List.mem_map.mp hm
    rw [hc, he]
    rfl
  · intro row hm
    rw [hrows] at hm
    obtain ⟨i, hi⟩ := List.mem_iff_getElem?.mp hm
    obtain ⟨old, cell, hold, _, rfl⟩ := List.getElem?_zipWith_eq_some.mp hi
    rw [hc, List.length_append, List.length_append, hr old (List.mem_of_getElem? hold)]
    rfl

/-! ## Cells -/

/-- The last cells of the rows are those of the new column. -/
theorem map_getD_zipWith_last {rows : List (List String)} {n : Nat}
    (hr : ∀ row ∈ rows, row.length = n) (hl : cells.length = rows.length) :
    (List.zipWith (fun row cell => row ++ [cell]) rows cells).map (·.getD n "") = cells := by
  induction rows generalizing cells with
  | nil =>
      rw [List.length_eq_zero_iff.mp hl]
      rfl
  | cons row rows ih =>
      cases cells with
      | nil => cases hl
      | cons cell cells =>
          obtain ⟨hrow, hrows⟩ := List.forall_mem_cons.mp hr
          rw [List.zipWith_cons_cons, List.map_cons, ih hrows (Nat.succ.inj hl), ← hrow]
          simp

/-- The other cells of the rows stay where they are. -/
theorem map_getD_zipWith_of_lt {rows : List (List String)} {n i : Nat}
    (hr : ∀ row ∈ rows, row.length = n) (hl : cells.length = rows.length) (hi : i < n) :
    (List.zipWith (fun row cell => row ++ [cell]) rows cells).map (·.getD i "") =
      rows.map (·.getD i "") := by
  induction rows generalizing cells with
  | nil => rfl
  | cons row rows ih =>
      cases cells with
      | nil => cases hl
      | cons cell cells =>
          obtain ⟨hrow, hrows⟩ := List.forall_mem_cons.mp hr
          rw [List.zipWith_cons_cons, List.map_cons, List.map_cons, ih hrows (Nat.succ.inj hl)]
          rw [List.getD_append _ _ _ _ (by rw [hrow]; exact hi)]

/-- A new column is found with the cells it was given. -/
theorem column?_addColumn_self (hr : t.IsRectangular) (h : t.addColumn name cells = .ok t') :
    t'.column? name = some cells := by
  obtain ⟨hn, hc, hrows⟩ := addColumn_eq_ok h
  have hi : t'.columns.idxOf? name = some t.columns.length := by
    have hnone : t.columns.findIdx? (· == name) = none := List.idxOf?_eq_none_iff.mpr hn
    rw [hc, List.idxOf?, List.findIdx?_append, hnone]
    simp
  rw [column?, hi, Option.map_some, Option.some.injEq]
  rcases hrows with ⟨he, hrows⟩ | ⟨_, hl, hrows⟩
  · rw [hrows, he, List.map_map]
    exact List.map_id _
  · rw [hrows]
    exact map_getD_zipWith_last hr hl

/-- The columns that were there are found with the cells they had. -/
theorem column?_addColumn_of_mem (hr : t.IsRectangular) (h : t.addColumn name cells = .ok t')
    {other : String} (ho : other ∈ t.columns) : t'.column? other = t.column? other := by
  obtain ⟨_, hc, ⟨he, _⟩ | ⟨_, hl, hrows⟩⟩ := addColumn_eq_ok h
  · rw [he] at ho
    cases ho
  · obtain ⟨i, hi⟩ := Option.isSome_iff_exists.mp (List.isSome_idxOf?.mpr ho)
    obtain ⟨hlt, _⟩ := List.idxOf?_eq_some_iff.mp hi
    have hi' : t'.columns.idxOf? other = some i := by
      rw [hc, List.idxOf?, List.findIdx?_append]
      change (t.columns.idxOf? other).or _ = _
      rw [hi, Option.some_or]
    rw [column?, column?, hi, hi', Option.map_some, Option.map_some, hrows,
      map_getD_zipWith_of_lt hr hl hlt]

/-! ## Tables of columns -/

/-- The table with these columns, each with its name and a cell for each of so many rows. -/
def ofColumns (rows : Nat) (columns : List (String × List String)) : Table :=
  ⟨columns.map (·.1), (List.range rows).map fun i => columns.map fun c => c.2.getD i ""⟩

theorem map_range_getD (cells : List String) :
    (List.range cells.length).map (fun i => cells.getD i "") = cells := by
  refine List.ext_getElem (by simp) fun i hi hi' => ?_
  simp [hi']

/-- The first column decides how many rows there are. -/
theorem addColumn_empty (hname : isColumnName name) :
    empty.addColumn name cells = .ok (ofColumns cells.length [(name, cells)]) := by
  have hrows := congrArg (List.map fun cell => [cell]) (map_range_getD cells)
  rw [List.map_map] at hrows
  have hcolumns : empty.columns = [] := rfl
  rw [addColumn, hname, if_neg (by decide), hcolumns, if_neg List.not_mem_nil, if_pos rfl, ← hrows]
  rfl

/-- A table of columns has one column more when it is added. -/
theorem addColumn_ofColumns {rows : Nat} {columns : List (String × List String)}
    (hname : isColumnName name) (hnew : name ∉ columns.map (·.1)) (hne : columns ≠ [])
    (hl : cells.length = rows) :
    (ofColumns rows columns).addColumn name cells =
      .ok (ofColumns rows (columns ++ [(name, cells)])) := by
  have hnew : name ∉ (ofColumns rows columns).columns := hnew
  have hcolumns : (ofColumns rows columns).columns ≠ [] := by simpa [ofColumns] using hne
  have hrows : cells.length = (ofColumns rows columns).rows.length := by simpa [ofColumns] using hl
  rw [addColumn, hname, if_neg (by decide), if_neg hnew, if_neg hcolumns,
    if_neg (not_not.mpr hrows)]
  have hcells := congrArg (List.zipWith (fun row cell => row ++ [cell])
    (ofColumns rows columns).rows) (map_range_getD cells)
  rw [← hcells, hl]
  simp [ofColumns, List.zipWith_map, List.zipWith_self]

end DeviceCode.Table
