import DeviceCode.Proofs.Output.Building

/-!
# Columns added in place

A table that is changed in place is changed only by a column that it takes: all checks come before
the first change (`appendColumn_eq`).  So whatever columns were tried on a new table, the next one
is refused for the first reason there is and changes nothing, or it is found under its name with the
cells it was given, beside the others as they were.
-/

namespace DeviceCode.Table

variable {t t' : Table} {name : String} {cells : List String} {e : TableError}

/-! ## Refusals -/

/-- A table refuses a column for the first of these reasons. -/
inductive Refuses (t : Table) (name : String) (cells : List String) : TableError → Prop where
  | name (invalid : ¬ isColumnName name) : Refuses t name cells (.invalidName name)
  | column (valid : isColumnName name) (duplicate : name ∈ t.columns) :
    Refuses t name cells (.duplicateColumn name)
  | cells (valid : isColumnName name) (new : name ∉ t.columns) (later : t.columns ≠ [])
    (count : cells.length ≠ t.rows.length) :
    Refuses t name cells (.rowCount name t.rows.length cells.length)

/-- The characters that would be taken for the frame of a table. -/
theorem isColumnName_iff : isColumnName name ↔
    name ≠ "" ∧ '|' ∉ name.toList ∧ '[' ∉ name.toList ∧ ']' ∉ name.toList ∧ '\n' ∉ name.toList := by
  rw [isColumnName, Bool.and_eq_true, Bool.not_eq_true', List.any_eq_false, bne_iff_ne]
  refine and_congr_right fun _ => ⟨fun h => ?_, fun h c hc => ?_⟩
  · refine ⟨?_, ?_, ?_, ?_⟩ <;> exact fun hmem => h _ hmem (by decide)
  · obtain ⟨hbar, hopen, hclose, hline⟩ := h
    simp only [Bool.or_eq_true, beq_iff_eq]
    rintro (((rfl | rfl) | rfl) | rfl)
    · exact hbar hc
    · exact hopen hc
    · exact hclose hc
    · exact hline hc

/-- A column is refused for the first reason that applies. -/
theorem addColumn_eq_error_iff : t.addColumn name cells = .error e ↔ t.Refuses name cells e := by
  unfold addColumn
  constructor
  · intro h
    split at h
    case isTrue hname =>
      cases h
      exact .name (by simpa using hname)
    case isFalse hname =>
      have hname : isColumnName name := by simpa using hname
      split at h
      case isTrue hmem =>
        cases h
        exact .column hname hmem
      case isFalse hnew =>
        split at h
        case isTrue => cases h
        case isFalse hne =>
          split at h
          case isTrue hcount =>
            cases h
            exact .cells hname hnew hne hcount
          case isFalse => cases h
  · intro h
    cases h with
    | name invalid => simp [invalid]
    | column valid duplicate => simp [valid, duplicate]
    | cells valid new later count => simp [valid, new, later, count]

/-- A call in place ends with the table of `addColumn`, or with the table it began with. -/
theorem appendColumn_eq (t : Table) (name : String) (cells : List String) :
    appendColumn name cells t =
      match t.addColumn name cells with
      | .ok t' => .ok () t'
      | .error e => .error e t := by
  have get_bind (f : Table → EStateM TableError Table Unit) : (get >>= f) t = f t t := rfl
  unfold appendColumn addColumn
  cases isColumnName name with
  | false => rfl
  | true =>
      rw [Bool.not_true, if_neg Bool.false_ne_true, if_neg Bool.false_ne_true, get_bind]
      by_cases hmem : name ∈ t.columns
      · rw [if_pos hmem, if_pos hmem]
        rfl
      rw [if_neg hmem, if_neg hmem]
      change EStateM.bind (appendCells name cells) _ t = _
      unfold EStateM.bind appendCells
      rw [get_bind]
      by_cases hfirst : t.columns = []
      · rw [if_pos hfirst, if_pos hfirst]
        change EStateM.Result.ok () (Table.mk (t.columns ++ [name]) _) = _
        rw [hfirst]
        rfl
      rw [if_neg hfirst, if_neg hfirst]
      by_cases hcount : cells.length ≠ t.rows.length
      · rw [if_pos hcount, if_pos hcount]
        rfl
      · rw [if_neg hcount, if_neg hcount]
        rfl

/-! ## Tables built in place -/

/-- The table that a call in place leaves, be the column refused or not. -/
def afterAppend (t : Table) (column : String × List String) : Table :=
  match appendColumn column.1 column.2 t with
  | .ok () t' => t'
  | .error _ t' => t'

/-- What some columns, tried one after another in place, make of a new table. -/
def buildInPlace (columns : List (String × List String)) : Table := columns.foldl afterAppend empty

/-- In place or not, a column leaves the same table. -/
theorem afterAppend_eq (t : Table) (column : String × List String) :
    t.afterAppend column = t.tryColumn column := by
  unfold afterAppend tryColumn
  rw [appendColumn_eq]
  cases t.addColumn column.1 column.2 with
  | ok t' => rfl
  | error e => rfl

theorem buildInPlace_eq (columns : List (String × List String)) :
    buildInPlace columns = build columns := by
  have hstep : afterAppend = tryColumn := by
    funext t column
    exact afterAppend_eq t column
  rw [buildInPlace, hstep]
  rfl

/-! ## Cells -/

/-- Wherever the names say that a column is, every row has a cell. -/
def InBounds (t : Table) : Prop :=
  ∀ name, ∀ i ∈ t.columns.idxOf? name, ∀ row ∈ t.rows, i < row.length

/-- In a rectangular table no lookup is out of bounds. -/
theorem IsRectangular.inBounds (ht : t.IsRectangular) : t.InBounds := by
  intro name i hi row hrow
  obtain ⟨hlt, -⟩ := List.idxOf?_eq_some_iff.mp hi
  rwa [ht row hrow]

theorem column?_addColumn_of_ne (ht : t.IsRectangular) (h : t.addColumn name cells = .ok t')
    {other : String} (hne : other ≠ name) : t'.column? other = t.column? other := by
  by_cases hmem : other ∈ t.columns
  · exact column?_addColumn_of_mem ht h hmem
  · obtain ⟨-, hcolumns, -⟩ := addColumn_eq_ok h
    have hmem' : other ∉ t'.columns := by
      rw [hcolumns, List.mem_append, List.mem_singleton, not_or]
      exact ⟨hmem, hne⟩
    rw [column?, column?, List.idxOf?_eq_none_iff.mpr hmem, List.idxOf?_eq_none_iff.mpr hmem']
    rfl

/-- The table `t'` is `t` with one more column, which is found with its cells; the others are found
as they were. -/
structure Adds (t : Table) (name : String) (cells : List String) (t' : Table) : Prop where
  columns : t'.columns = t.columns ++ [name]
  column : t'.column? name = some cells
  others : ∀ other, other ≠ name → t'.column? other = t.column? other

/-- A column that is taken is added, and the others stay. -/
theorem IsRectangular.adds (ht : t.IsRectangular) (h : t.addColumn name cells = .ok t') :
    t.Adds name cells t' where
  columns := (addColumn_eq_ok h).2.1
  column := column?_addColumn_self ht h
  others _ hne := column?_addColumn_of_ne ht h hne

/-- Whatever columns were tried in place on a new table, it is well-formed and no look-up leaves a
row.  One more column is refused exactly for the first reason there is, and then nothing has been
changed; or it is taken as the last column. -/
theorem appendColumn_buildInPlace (columns : List (String × List String)) (name : String)
    (cells : List String) :
    (buildInPlace columns).WellFormed ∧ (buildInPlace columns).InBounds ∧
      (∀ n ∈ (buildInPlace columns).columns, n ≠ "" ∧ '|' ∉ n.toList ∧ '[' ∉ n.toList ∧
        ']' ∉ n.toList ∧ '\n' ∉ n.toList) ∧
      (∀ e t', appendColumn name cells (buildInPlace columns) = .error e t' ↔
        (buildInPlace columns).Refuses name cells e ∧ t' = buildInPlace columns) ∧
      ((∃ e, (buildInPlace columns).Refuses name cells e) ∨
        ∃ t', appendColumn name cells (buildInPlace columns) = .ok () t' ∧
          (buildInPlace columns).Adds name cells t') := by
  have ht : (buildInPlace columns).WellFormed := buildInPlace_eq columns ▸ wellFormed_build columns
  generalize buildInPlace columns = t at ht
  refine ⟨ht, ht.rectangular.inBounds, fun n hn => isColumnName_iff.mp (ht.names n hn),
    fun e t' => ?_, ?_⟩
  · rw [appendColumn_eq, ← addColumn_eq_error_iff]
    cases t.addColumn name cells with
    | ok t₁ => exact iff_of_false nofun fun h => nomatch h.1
    | error e₁ =>
        rw [EStateM.Result.error.injEq, Except.error.injEq]
        exact and_congr_right fun _ => eq_comm
  · cases h : t.addColumn name cells with
    | error e => exact .inl ⟨e, addColumn_eq_error_iff.mp h⟩
    | ok t' => exact .inr ⟨t', by rw [appendColumn_eq, h], ht.rectangular.adds h⟩

end DeviceCode.Table
