import DeviceCode.Text.Layout

/-!
# File tables

A table of paths with a named column for each kind of artifact and a row for each module. In its
written form the header stands in brackets and a bar separates cells; nothing is escaped.
-/

namespace DeviceCode

structure Table where
  columns : List String
  rows : List (List String)
deriving DecidableEq, Repr

/-- Why a text is not a table. -/
inductive TableFault where
  | missingHeader
  | badHeader (line : String)
  | raggedRow (line : String) (found expected : Nat)
deriving DecidableEq, Repr

def TableFault.message : TableFault → String
  | missingHeader => "missing header"
  | badHeader line => "bad header '" ++ line ++ "'"
  | raggedRow line found expected =>
    "row '" ++ line ++ "' has " ++ found.repr ++ " cells, expected " ++ expected.repr

inductive TableError where
  | rowCount (column : String) (expected found : Nat)
  | duplicateColumn (name : String)
  | invalidName (name : String)
  | malformed (fault : TableFault)
deriving DecidableEq, Repr

def TableError.message : TableError → String
  | rowCount column expected found =>
    "column '" ++ column ++ "' has " ++ found.repr ++ " rows, expected " ++ expected.repr
  | duplicateColumn name => "duplicate column '" ++ name ++ "'"
  | invalidName name => "invalid column name '" ++ name ++ "'"
  | malformed fault => "malformed table: " ++ fault.message

namespace Table

def empty : Table := ⟨[], []⟩

/-- A column name has at least one character, and none that the written form uses. -/
def isColumnName (name : String) : Bool :=
  name != "" && !name.toList.any fun c => c == '|' || c == '[' || c == ']' || c == '\n'

/-- Adds a column. The first one sets the number of rows. -/
def addColumn (t : Table) (name : String) (cells : List String) : Except TableError Table :=
  if !isColumnName name then .error (.invalidName name)
  else if name ∈ t.columns then .error (.duplicateColumn name)
  else if t.columns = [] then .ok ⟨[name], cells.map fun cell => [cell]⟩
  else if cells.length ≠ t.rows.length then
    .error (.rowCount name t.rows.length cells.length)
  else .ok ⟨t.columns ++ [name], List.zipWith (fun row cell => row ++ [cell]) t.rows cells⟩

/-- Puts the cells of a new column at the ends of the rows. The first column makes the rows. -/
def appendCells (name : String) (cells : List String) : EStateM TableError Table Unit := do
  let t ← get
  if t.columns = [] then set { t with rows := cells.map fun cell => [cell] }
  else if cells.length ≠ t.rows.length then
    throw (.rowCount name t.rows.length cells.length)
  else set { t with rows := List.zipWith (fun row cell => row ++ [cell]) t.rows cells }

/-- Adds a column in place. What has been changed when a column is refused stays changed. -/
def appendColumn (name : String) (cells : List String) : EStateM TableError Table Unit := do
  if !isColumnName name then throw (.invalidName name)
  else
    let t ← get
    if name ∈ t.columns then throw (.duplicateColumn name)
    else
      appendCells name cells
      modify fun t => { t with columns := t.columns ++ [name] }

/-- The cells of the first column of a name, from top to bottom. -/
def column? (t : Table) (name : String) : Option (List String) :=
  (t.columns.idxOf? name).map fun i => t.rows.map fun row => row.getD i ""

/-- Cells with a bar between them. -/
def rowText (cells : List String) : String := "|".intercalate cells

def text (t : Table) : String :=
  "[" ++ rowText t.columns ++ "]\n" ++ String.join (t.rows.map fun row => rowText row ++ "\n")

/-- What stands between the brackets of a header. -/
def unbracket? (line : List Char) : Option (List Char) :=
  match line with
  | '[' :: r => if r.getLast? = some ']' then some r.dropLast else none
  | _ => none

/-- Reads a row of so many cells. -/
def readRow (width : Nat) (line : List Char) : Except TableFault (List String) :=
  let cells := line.splitOn '|'
  if cells.length = width then .ok (cells.map String.ofList)
  else .error (.raggedRow (String.ofList line) cells.length width)

def readLines : List (List Char) → Except TableFault Table
  | [] => .error .missingHeader
  | header :: lines =>
    match unbracket? header with
    | none => .error (.badHeader (String.ofList header))
    | some names => do
      let columns := (names.splitOn '|').map String.ofList
      let rows ← lines.mapM (readRow columns.length)
      pure ⟨columns, rows⟩

/-- Reads a table from its written form. -/
def read (text : String) : Except TableError Table :=
  (readLines (Text.lines text.toList)).mapError .malformed

end Table

end DeviceCode
