import DeviceCode.File.Path

/-!
# Directory trees

Files and directories by their components from the root, with a working directory from which
relative paths start. A path is followed component by component; each but the last has to lead to a
directory.
-/

namespace DeviceCode

/-- Why a file cannot be opened. -/
inductive FileFault where
  | notFound
  | notADirectory
  | isADirectory
  | nameTooLong
  | containsNul
  | other (message : String)
deriving DecidableEq, Repr

def FileFault.message : FileFault → String
  | notFound => "No such file or directory (os error 2)"
  | notADirectory => "Not a directory (os error 20)"
  | isADirectory => "Is a directory (os error 21)"
  | nameTooLong => "File name too long (os error 36)"
  | containsNul => "file name contained an unexpected NUL byte"
  | other message => message

inductive FileNode where
  | directory
  | file (content : List UInt8)
deriving DecidableEq, Repr

/-- Where a file is: the components of its path from the root. -/
abbrev Location := List String

structure FileTree where
  nodes : List (Location × FileNode)
  workingDirectory : Location

namespace FileTree

/-- The longest path in bytes, with the zero at its end, and the longest component. -/
def pathLimit : Nat := 4096

def nameLimit : Nat := 255

/-- The node at a location; the root is always there. -/
def node? (t : FileTree) (location : Location) : Option FileNode :=
  if location = [] then some .directory
  else (t.nodes.find? (·.1 == location)).map (·.2)

def set (t : FileTree) (location : Location) (node : FileNode) : FileTree :=
  { t with nodes := (location, node) :: t.nodes.filter (·.1 != location) }

/-- One step along a path. -/
def step (t : FileTree) (location : Location) (component : String) :
    Except FileFault Location :=
  match t.node? location with
  | none => .error .notFound
  | some (.file _) => .error .notADirectory
  | some .directory =>
    if component = "." then .ok location
    else if component = ".." then .ok location.dropLast
    else if nameLimit < component.utf8ByteSize then .error .nameTooLong
    else .ok (location ++ [component])

/-- The components of a path whose text can be followed at all. -/
def components (path : String) : Except FileFault (List String) :=
  if path.toList.contains '\x00' then .error .containsNul
  else if path = "" then .error .notFound
  else if pathLimit ≤ path.utf8ByteSize then .error .nameTooLong
  else .ok (((Path.pieces path.toList).filter (· != [])).map String.ofList)

/-- Where the components lead, from the root for a path that begins there. -/
def follow (t : FileTree) (path : String) (components : List String) : Except FileFault Location :=
  components.foldlM t.step (if path.toList.head? = some '/' then [] else t.workingDirectory)

/-- The location a path leads to, whether or not anything is there. -/
def resolve (t : FileTree) (path : String) : Except FileFault Location := do
  t.follow path (← components path)

/-- A path with a slash at its end names a directory. -/
def namesDirectory (path : String) : Bool := path.toList.getLast? == some '/'

def read (t : FileTree) (path : String) : Except FileFault (List UInt8) := do
  let location ← t.resolve path
  match t.node? location with
  | none => .error .notFound
  | some .directory => .error .isADirectory
  | some (.file content) =>
    if namesDirectory path then .error .notADirectory else .ok content

/-- The fault of writing to a path that names a directory. Whatever its last component is, it is not
looked at: only the way to it has to be there. -/
def directoryFault (t : FileTree) (path : String) (components : List String) : FileFault :=
  match t.follow path (components.dropLast ++ ["."]) with
  | .error fault => fault
  | .ok _ => .isADirectory

/-- Writes a file, which may be new. -/
def write (t : FileTree) (path : String) (content : List UInt8) : Except FileFault FileTree := do
  let names ← components path
  if namesDirectory path then .error (t.directoryFault path names)
  else
    let location ← t.follow path names
    match t.node? location with
    | some .directory => .error .isADirectory
    | _ => .ok (t.set location (.file content))

/-- The directories above a location, the highest first. -/
def above (location : Location) : List Location :=
  (List.range location.length).map (location.take ·)

/-- Adds a node, and the directories above it that are missing. -/
def plant (t : FileTree) (location : Location) (node : FileNode) : FileTree :=
  ((above location).foldl (fun t l => if (t.node? l).isSome then t else t.set l .directory) t).set
    location node

/-- The files below the working directory, by their paths from there. -/
def files (t : FileTree) : List (String × List UInt8) :=
  t.nodes.filterMap fun
    | (location, .file content) =>
      if t.workingDirectory.isPrefixOf location then
        some ("/".intercalate (location.drop t.workingDirectory.length), content)
      else none
    | (_, .directory) => none

end FileTree

end DeviceCode
