import Mathlib.Data.List.ModifyLast
import DeviceCode.Proofs.Output.Building

/-!
# Reading a table again

A table that was read from a text can always be written and read again.  What comes back is the same
table but for the carriage returns at the ends of its rows, which go over into the line ends
(`withoutReturns`): a row keeps one if its line ended with two of them, or if it was the last line
and had no line feed.
-/

namespace DeviceCode.Table

variable {t : Table} {row cells : List String}

/-! ## Ends of rows -/

/-- A cell without the carriage return at its end. -/
def trimReturn (cell : String) : String := String.ofList (Text.endedLine cell.toList.reverse)

/-- The table without the carriage returns at the ends of its rows, one for each row that has
one. -/
def withoutReturns (t : Table) : Table :=
  { t with rows := t.rows.map fun row => row.modifyLast trimReturn }

/-- There is nothing to trim from a cell that does not end in a carriage return. -/
theorem trimReturn_eq_self_iff {cell : String} : trimReturn cell = cell ↔ ¬ EndsInReturn cell := by
  rw [EndsInReturn, ← ne_eq, ← Text.endedLine_reverse_eq_iff, trimReturn, String.ext_iff,
    String.toList_ofList]

theorem IsCell.trimReturn {cell : String} (h : IsCell cell) : IsCell (trimReturn cell) := by
  have hsub : ∀ c ∈ (Table.trimReturn cell).toList, c ∈ cell.toList := fun c hc => by
    rw [Table.trimReturn, String.toList_ofList] at hc
    exact List.mem_reverse.mp (Text.mem_of_mem_endedLine hc)
  exact ⟨fun hmem => h.bar (hsub _ hmem), fun hmem => h.newline (hsub _ hmem)⟩

/-- The return at the end of a text is that of its last part. -/
theorem endedLine_append {front back : List Char} (h : front.getLast? ≠ some '\r') :
    Text.endedLine (front ++ back).reverse = front ++ Text.endedLine back.reverse := by
  rcases List.eq_nil_or_concat back with rfl | ⟨init, c, rfl⟩
  · rw [List.append_nil, Text.endedLine_reverse_eq_iff.mpr h, List.reverse_nil]
    exact (List.append_nil _).symm
  · rw [List.concat_eq_append, ← List.append_assoc, List.reverse_concat, List.reverse_concat]
    by_cases hc : c = '\r'
    · subst hc
      simp [Text.endedLine]
    · have hkeep (l : List Char) : Text.endedLine (c :: l) = l.reverse ++ [c] := by
        rw [Text.endedLine, List.reverse_cons]
        rintro r ⟨⟩
        exact hc rfl
      rw [hkeep, hkeep]
      simp

/-- Of a row only the last cell is at the end of its line. -/
theorem toList_rowText_modifyLast (row : List String) :
    (rowText (row.modifyLast trimReturn)).toList = Text.endedLine (rowText row).toList.reverse := by
  rcases List.eq_nil_or_concat row with rfl | ⟨init, last, rfl⟩
  · rfl
  · rw [List.concat_eq_append, List.modifyLast_concat, toList_rowText_concat, toList_rowText_concat,
      endedLine_append (getLast?_flatMap_bar_ne init), trimReturn, String.toList_ofList]

@[simp] theorem length_modifyLast (row : List String) :
    (row.modifyLast trimReturn).length = row.length := by
  rcases List.eq_nil_or_concat row with rfl | ⟨init, last, rfl⟩
  · rfl
  · rw [List.concat_eq_append, List.modifyLast_concat, List.length_append, List.length_append]
    rfl

theorem isCell_modifyLast (h : ∀ cell ∈ row, IsCell cell) :
    ∀ cell ∈ row.modifyLast trimReturn, IsCell cell := by
  rcases List.eq_nil_or_concat row with rfl | ⟨init, last, rfl⟩
  · exact h
  · rw [List.concat_eq_append] at h ⊢
    rw [List.modifyLast_concat, List.forall_mem_append, List.forall_mem_singleton]
    rw [List.forall_mem_append, List.forall_mem_singleton] at h
    exact ⟨h.1, h.2.trimReturn⟩

/-- A row stays as it is if its last cell has no carriage return at its end. -/
theorem modifyLast_eq_self_iff :
    row.modifyLast trimReturn = row ↔ ∀ cell ∈ row.getLast?, ¬ EndsInReturn cell := by
  rcases List.eq_nil_or_concat row with rfl | ⟨init, last, rfl⟩
  · exact iff_of_true rfl nofun
  · rw [List.concat_eq_append, List.modifyLast_concat, List.getLast?_concat, List.append_right_inj,
      List.singleton_inj, trimReturn_eq_self_iff]
    simp

/-- A table stays as it is if none of its rows ends in a carriage return. -/
theorem withoutReturns_eq_self_iff :
    t.withoutReturns = t ↔ ∀ row ∈ t.rows, ∀ cell ∈ row.getLast?, ¬ EndsInReturn cell := by
  have hrows :=
    List.map_inj_left (l := t.rows) (f := fun row => row.modifyLast trimReturn) (g := id)
  rw [List.map_id] at hrows
  rw [withoutReturns, Table.mk.injEq, eq_self, true_and, hrows]
  simp only [id_eq, modifyLast_eq_self_iff]

/-! ## Reading -/

/-- Each row that is read has a cell for each column. -/
theorem isRectangular_of_read {text : String} (h : Table.read text = .ok t) : t.IsRectangular := by
  have h := Except.mapError_eq_ok.mp h
  obtain ⟨header, names, lines, hlines, hnames⟩ := exists_unbracket?_of_readLines h
  rw [hlines, readLines_cons_eq_ok hnames] at h
  intro row hrow
  obtain ⟨i, hi, rfl⟩ := List.getElem_of_mem hrow
  exact (readRow_eq_ok.mp (h.2.get (by rwa [h.2.length_eq]) hi)).1

/-- A table that was read is read again from its written form, without the carriage returns at the
ends of its rows.  So it is read as it was exactly if no row ends with one. -/
theorem read_text_of_read {text : String} (h : Table.read text = .ok t) :
    Table.read t.text = .ok t.withoutReturns ∧
      (Table.read t.text = .ok t ↔
        ∀ row ∈ t.rows, ∀ cell ∈ row.getLast?, ¬ EndsInReturn cell) := by
  have hne := columns_ne_nil_of_read h
  have hr := isRectangular_of_read h
  obtain ⟨hnames, hcells⟩ := isCell_of_read h
  have hread : Table.read t.text = .ok t.withoutReturns := by
    rw [Table.read, Except.mapError_eq_ok, readLines_lines_text hne hnames hcells]
    refine ⟨rfl, List.forall₂_map_right_iff.mpr (List.forall₂_same.mpr fun row hrow => ?_)⟩
    rw [← toList_rowText_modifyLast, readRow_eq_ok, length_modifyLast]
    have hwidth : row.length = t.columns.length := hr row hrow
    refine ⟨hwidth, splitOn_rowText (fun cell hc => ?_) ?_⟩
    · exact (isCell_modifyLast (hcells row hrow) cell hc).bar
    · rw [← List.length_pos_iff, length_modifyLast, hwidth, List.length_pos_iff]
      exact hne
  refine ⟨hread, ?_⟩
  rw [hread, Except.ok.injEq, withoutReturns_eq_self_iff]

/-- One cell, with one carriage return more than its line end takes. -/
def strayReturn : Table := ⟨["Code"], [["a.bc\r"]]⟩

/-- Two carriage returns in front of a line feed become one, and this one is lost when the table is
written and read again. -/
theorem strayReturn_reread :
    Table.read "[Code]\na.bc\r\r\n" = .ok strayReturn ∧
      strayReturn.text = "[Code]\na.bc\r\n" ∧
      Table.read strayReturn.text = .ok ⟨["Code"], [["a.bc"]]⟩ ∧
      Table.read strayReturn.text ≠ .ok strayReturn := by
  have hread : Table.read "[Code]\na.bc\r\r\n" = .ok strayReturn := by decide +kernel
  obtain ⟨hagain, hsame⟩ := read_text_of_read hread
  refine ⟨hread, by decide +kernel, hagain.trans (by decide +kernel), fun h => ?_⟩
  exact hsame.mp h ["a.bc\r"] (by decide) "a.bc\r" rfl (by decide +kernel)

end DeviceCode.Table
