/-!
# Paths

A path is a text whose components are separated by slashes. Empty components and single dots add
nothing, but for the root and for a dot at the very front.
-/

namespace DeviceCode.Path

/-- The components between slashes, the empty ones included. -/
def pieces (path : List Char) : List (List Char) := path.splitOn '/'

/-- A piece that adds nothing. -/
def isTrivial (piece : List Char) : Bool := piece == [] || piece == ['.']

def parentDirectory : List Char := ['.', '.']

/-- The last component, unless it leads upwards or to the root. -/
def fileName? (path : String) : Option (List Char) :=
  match ((pieces path.toList).filter (!isTrivial ·)).getLast? with
  | some name => if name = parentDirectory then none else some name
  | none => none

/-- The part of a name in front of its last dot; all of it, if the only dot is in front or there is
none. -/
def stemOf (name : List Char) : List Char :=
  match name.reverse.dropWhile (· != '.') with
  | _ :: before => if before = [] then name else before.reverse
  | [] => name

def fileStem? (path : String) : Option String :=
  (fileName? path).map fun name => String.ofList (stemOf name)

/-- A path as its root or its dot in front, and the rest. -/
def splitStart : List Char → List Char × List Char
  | '/' :: r => (['/'], r)
  | ['.'] => (['.'], [])
  | '.' :: '/' :: r => (['.'], '/' :: r)
  | r => ([], r)

/-- Pieces without those at the end that add nothing. -/
def trimEnd (ps : List (List Char)) : List (List Char) := (ps.reverse.dropWhile isTrivial).reverse

/-- The path without its last component; `none` if there is no component to take away. -/
def parent? (path : String) : Option String :=
  let (start, body) := splitStart path.toList
  match trimEnd (if body = [] then [] else pieces body) with
  | [] => if start = ['.'] then some "" else none
  | ps => some (String.ofList (start ++ ['/'].intercalate (trimEnd ps.dropLast)))

/-- A path inside a directory; a path from the root stands for itself. -/
def join (directory path : String) : String :=
  if path.toList.head? = some '/' then path
  else if directory = "" ∨ directory.toList.getLast? = some '/' then directory ++ path
  else directory ++ "/" ++ path

end DeviceCode.Path
