import DeviceCode.Output.Table
import DeviceCode.Proofs.Basic
import DeviceCode.Proofs.Output.Table
import DeviceCode.Proofs.Text.Lines

/-!
# Tables in writing

Nothing is escaped when a table is written, so it is read back as it was only if its cells keep
clear of the bars and line ends between them.  What is read from any text does so
(`isCell_of_read`), and that decides which tables are read back (`read_text_eq_iff`).
-/

namespace DeviceCode.Table

/-- A text that stays one cell when it is written. -/
structure IsCell (cell : String) : Prop where
  bar : '|' ∉ cell.toList
  newline : '\n' ∉ cell.toList

instance (cell : String) : Decidable (IsCell cell) :=
  decidable_of_iff ('|' ∉ cell.toList ∧ '\n' ∉ cell.toList)
    ⟨fun ⟨bar, newline⟩ => ⟨bar, newline⟩, fun h => ⟨h.bar, h.newline⟩⟩

/-- The end of a text that is taken for a part of the line end behind it. -/
def EndsInReturn (cell : String) : Prop := cell.toList.getLast? = some '\r'

instance (cell : String) : Decidable (EndsInReturn cell) :=
  inferInstanceAs (Decidable (cell.toList.getLast? = some '\r'))

variable {t : Table} {cells row : List String} {line : List Char}

/-! ## Rows in writing -/

/-- A row is written with bars between its cells. -/
theorem toList_rowText (cells : List String) :
    (rowText cells).toList = ['|'].intercalate (cells.map String.toList) :=
  String.toList_intercalate

theorem map_ofList_toList (cells : List String) :
    (cells.map String.toList).map String.ofList = cells := by
  rw [List.map_map]
  exact List.map_id'' (fun _ => String.ofList_toList) cells

/-- A row is divided into its cells again. -/
theorem splitOn_rowText (h : ∀ cell ∈ cells, '|' ∉ cell.toList) (hne : cells ≠ []) :
    ((rowText cells).toList.splitOn '|').map String.ofList = cells := by
  rw [toList_rowText, List.splitOn_intercalate, map_ofList_toList]
  · intro l hl
    obtain ⟨cell, hc, rfl⟩ := List.mem_map.mp hl
    exact h cell hc
  · simpa using hne

/-- A row that was divided is written as it was. -/
@[simp] theorem toList_rowText_splitOn (line : List Char) :
    (rowText ((line.splitOn '|').map String.ofList)).toList = line := by
  rw [toList_rowText, List.map_map]
  have hid : (line.splitOn '|').map (String.toList ∘ String.ofList) = line.splitOn '|' :=
    List.map_id'' (fun _ => String.toList_ofList) _
  rw [hid, List.intercalate_splitOn]

/-- The cells of a row but the last, each with a bar behind it, and then the last. -/
theorem toList_rowText_concat (cells : List String) (cell : String) :
    (rowText (cells ++ [cell])).toList =
      cells.flatMap (fun c => c.toList ++ ['|']) ++ cell.toList := by
  induction cells with
  | nil => rw [toList_rowText, List.nil_append, List.map_singleton, List.intercalate_singleton]; rfl
  | cons c cells ih =>
      rw [toList_rowText] at ih
      rw [toList_rowText, List.cons_append, List.map_cons, List.intercalate_cons_of_ne_nil, ih]
      · simp
      · simp

/-- A row is one line if no cell has a line end. -/
theorem newline_notMem_rowText (h : ∀ cell ∈ cells, '\n' ∉ cell.toList) :
    '\n' ∉ (rowText cells).toList := by
  rcases List.eq_nil_or_concat cells with rfl | ⟨init, last, rfl⟩
  · exact List.not_mem_nil
  · rw [List.concat_eq_append] at h ⊢
    rw [toList_rowText_concat, List.mem_append, List.mem_flatMap]
    rintro (⟨cell, hc, hmem⟩ | hmem)
    · rw [List.mem_append, List.mem_singleton] at hmem
      exact hmem.elim (h cell (List.mem_append_left _ hc)) nofun
    · exact h last (List.mem_append_right _ (List.mem_singleton_self _)) hmem

/-- Cells with bars behind them do not end with a carriage return. -/
theorem getLast?_flatMap_bar_ne (cells : List String) :
    (cells.flatMap fun c => c.toList ++ ['|']).getLast? ≠ some '\r' := by
  rcases List.eq_nil_or_concat cells with rfl | ⟨front, c, rfl⟩
  · nofun
  · rw [List.concat_eq_append, List.flatMap_append, List.flatMap_singleton, ← List.append_assoc,
      List.getLast?_concat]
    nofun

/-- A row ends with a carriage return exactly if its last cell does. -/
theorem getLast?_rowText :
    (rowText cells).toList.getLast? = some '\r' ↔ ∃ cell ∈ cells.getLast?, EndsInReturn cell := by
  rcases List.eq_nil_or_concat cells with rfl | ⟨init, last, rfl⟩
  · exact iff_of_false nofun nofun
  · rw [List.concat_eq_append, toList_rowText_concat, List.getLast?_append, List.getLast?_concat]
    have hinit := getLast?_flatMap_bar_ne init
    simp only [Option.mem_def, Option.some.injEq, exists_eq_left', EndsInReturn]
    cases last.toList.getLast? with
    | none => simpa using hinit
    | some c => simp

/-! ## Tables in writing -/

/-- The lines of a table. -/
def textLines (t : Table) : List (List Char) :=
  ('[' :: ((rowText t.columns).toList ++ [']'])) :: t.rows.map fun row => (rowText row).toList

theorem toList_text (t : Table) : t.text.toList = t.textLines.flatMap (· ++ ['\n']) := by
  simp [text, textLines, List.flatMap_map]

theorem newline_notMem_textLines (hnames : ∀ name ∈ t.columns, IsCell name)
    (hcells : ∀ row ∈ t.rows, ∀ cell ∈ row, IsCell cell) (h : line ∈ t.textLines) :
    '\n' ∉ line := by
  rcases List.mem_cons.mp h with rfl | h
  · have hcolumns := newline_notMem_rowText fun name hn => (hnames name hn).newline
    simpa using hcolumns
  · obtain ⟨row, hrow, rfl⟩ := List.mem_map.mp h
    exact newline_notMem_rowText fun cell hc => (hcells row hrow cell hc).newline

/-- A column name is clear of bars and line ends. -/
theorem isCell_of_isColumnName {name : String} (h : isColumnName name) : IsCell name := by
  rw [isColumnName, Bool.and_eq_true, Bool.not_eq_true', List.any_eq_false] at h
  exact ⟨fun hmem => h.2 '|' hmem (by decide), fun hmem => h.2 '\n' hmem (by decide)⟩

@[simp] theorem unbracket?_bracketed (s : List Char) :
    unbracket? ('[' :: (s ++ [']'])) = some s := by
  rw [unbracket?, List.getLast?_concat, if_pos rfl, List.dropLast_concat]

/-! ## Reading -/

/-- A line is read as its pieces between bars, if there are as many as columns. -/
theorem readRow_eq_ok {width : Nat} :
    readRow width line = .ok row ↔
      row.length = width ∧ (line.splitOn '|').map String.ofList = row := by
  rw [readRow]
  split
  case isTrue h =>
    rw [Except.ok.injEq]
    refine ⟨?_, And.right⟩
    rintro rfl
    exact ⟨by rw [List.length_map, h], rfl⟩
  case isFalse h =>
    refine iff_of_false nofun ?_
    rintro ⟨hlength, rfl⟩
    exact h (by rwa [List.length_map] at hlength)

/-- A table is read from its header and from its rows. -/
theorem readLines_cons_eq_ok {header names : List Char} {lines : List (List Char)}
    (h : unbracket? header = some names) :
    readLines (header :: lines) = .ok t ↔ (names.splitOn '|').map String.ofList = t.columns ∧
      List.Forall₂ (fun line row => readRow t.columns.length line = .ok row) lines t.rows := by
  rw [readLines, h]
  dsimp only
  constructor
  · intro hread
    obtain ⟨rows, hrows, hread⟩ := Except.bind_eq_ok.mp hread
    cases hread
    exact ⟨rfl, mapM_eq_ok.mp hrows⟩
  · rintro ⟨hcolumns, hrows⟩
    rw [hcolumns]
    exact Except.bind_eq_ok.mpr ⟨t.rows, mapM_eq_ok.mpr hrows, rfl⟩

/-- The first line of a table is its header, in brackets. -/
theorem exists_unbracket?_of_readLines {lines : List (List Char)} (h : readLines lines = .ok t) :
    ∃ header names rest, lines = header :: rest ∧ unbracket? header = some names := by
  cases lines with
  | nil => cases h
  | cons header rest =>
      cases hu : unbracket? header with
      | none =>
          rw [readLines, hu] at h
          cases h
      | some names => exact ⟨header, names, rest, rfl, hu⟩

/-- The pieces of a line between the bars are cells. -/
theorem isCell_of_mem_splitOn (hline : '\n' ∉ line) {cell : String}
    (h : cell ∈ (line.splitOn '|').map String.ofList) : IsCell cell := by
  obtain ⟨piece, hp, rfl⟩ := List.mem_map.mp h
  obtain ⟨hbar, hsub⟩ := mem_splitOn hp
  constructor
  case bar => rwa [String.toList_ofList]
  case newline =>
    rw [String.toList_ofList]
    exact fun hmem => hline (hsub hmem)

theorem subset_of_unbracket? {header names : List Char} (h : unbracket? header = some names) :
    names ⊆ header := by
  unfold unbracket? at h
  split at h
  case h_1 r =>
    split at h
    case isTrue =>
      cases h
      exact List.subset_cons_of_subset _ (List.dropLast_subset r)
    case isFalse => cases h
  case h_2 => cases h

/-- The cells that are read from a text have neither bars nor line ends, nor have the names. -/
theorem isCell_of_read {text : String} (h : Table.read text = .ok t) :
    (∀ name ∈ t.columns, IsCell name) ∧ ∀ row ∈ t.rows, ∀ cell ∈ row, IsCell cell := by
  have h := Except.mapError_eq_ok.mp h
  obtain ⟨header, names, lines, hlines, hnames⟩ := exists_unbracket?_of_readLines h
  rw [hlines, readLines_cons_eq_ok hnames] at h
  have hline : ∀ l ∈ header :: lines, '\n' ∉ l := fun l hl =>
    Text.not_mem_of_mem_lines (hlines ▸ hl)
  constructor
  · intro name hname
    rw [← h.1] at hname
    refine isCell_of_mem_splitOn (fun hmem => ?_) hname
    exact hline header List.mem_cons_self (subset_of_unbracket? hnames hmem)
  · intro row hrow cell hcell
    obtain ⟨i, hi, rfl⟩ := List.getElem_of_mem hrow
    have hi' : i < lines.length := by rwa [h.2.length_eq]
    obtain ⟨_, hread⟩ := readRow_eq_ok.mp (h.2.get hi' hi)
    rw [List.get_eq_getElem, List.get_eq_getElem] at hread
    rw [← hread] at hcell
    exact isCell_of_mem_splitOn (hline _ (List.mem_cons_of_mem _ (List.getElem_mem hi'))) hcell

/-- What is read from a written table, if it can be divided into lines and cells again. -/
theorem readLines_lines_text {t' : Table} (hne : t.columns ≠ [])
    (hnames : ∀ name ∈ t.columns, IsCell name)
    (hcells : ∀ row ∈ t.rows, ∀ cell ∈ row, IsCell cell) :
    readLines (Text.lines t.text.toList) = .ok t' ↔ t.columns = t'.columns ∧
      List.Forall₂ (fun row row' => readRow t.columns.length
        (Text.endedLine (rowText row).toList.reverse) = .ok row') t.rows t'.rows := by
  have hheader : Text.endedLine ('[' :: ((rowText t.columns).toList ++ [']'])).reverse =
      '[' :: ((rowText t.columns).toList ++ [']']) := by
    refine Text.endedLine_reverse_eq_iff.mpr ?_
    rw [← List.cons_append, List.getLast?_concat]
    nofun
  have hlines : ∀ l ∈ t.textLines, '\n' ∉ l := fun l => newline_notMem_textLines hnames hcells
  rw [toList_text, Text.lines_flatMap hlines, textLines, List.map_cons, hheader,
    readLines_cons_eq_ok (unbracket?_bracketed _), List.map_map, List.forall₂_map_left_iff,
    splitOn_rowText (fun name hn => (hnames name hn).bar) hne]
  refine and_congr_right fun hcolumns => ?_
  rw [hcolumns]
  rfl

/-- A table with columns is read back as it was exactly if its cells have neither bars nor line
ends, and no row ends with a carriage return, which would be taken for a part of its line end. -/
theorem read_text_eq_iff (hr : t.IsRectangular) (hne : t.columns ≠ [])
    (hnames : ∀ name ∈ t.columns, isColumnName name) :
    Table.read t.text = .ok t ↔ (∀ row ∈ t.rows, ∀ cell ∈ row, IsCell cell) ∧
      ∀ row ∈ t.rows, ∀ cell ∈ row.getLast?, ¬ EndsInReturn cell := by
  have hkept : ∀ row : List String, (∀ cell ∈ row.getLast?, ¬ EndsInReturn cell) ↔
      Text.endedLine (rowText row).toList.reverse = (rowText row).toList := by
    intro row
    rw [Text.endedLine_reverse_eq_iff, ne_eq, getLast?_rowText]
    simp
  have hnames : ∀ name ∈ t.columns, IsCell name := fun name hn =>
    isCell_of_isColumnName (hnames name hn)
  rw [Table.read, Except.mapError_eq_ok]
  constructor
  · intro h
    have hcells := (isCell_of_read (Except.mapError_eq_ok.mpr h)).2
    refine ⟨hcells, fun row hrow => (hkept row).mpr ?_⟩
    have hrows := ((readLines_lines_text hne hnames hcells).mp h).2
    have hread := List.forall₂_same.mp hrows row hrow
    obtain ⟨_, hrow⟩ := readRow_eq_ok.mp hread
    have hline := toList_rowText_splitOn (Text.endedLine (rowText row).toList.reverse)
    rw [hrow] at hline
    exact hline.symm
  · rintro ⟨hcells, hlast⟩
    refine (readLines_lines_text hne hnames hcells).mpr
      ⟨rfl, List.forall₂_same.mpr fun row hrow => ?_⟩
    rw [(hkept row).mp (hlast row hrow), readRow_eq_ok]
    refine ⟨hr row hrow, splitOn_rowText (fun cell hc => (hcells row hrow cell hc).bar) ?_⟩
    rw [← List.length_pos_iff, hr row hrow, List.length_pos_iff]
    exact hne

end DeviceCode.Table
