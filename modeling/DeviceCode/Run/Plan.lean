import DeviceCode.Module.Assembly
import DeviceCode.Output.PropertySet
import DeviceCode.Partition.Split
import DeviceCode.Run.Options

/-!
# What a run writes

A run reads one file. What it writes is a sequence of files that depends on the content of that file
alone, followed by its result.
-/

namespace DeviceCode

/-- A file to write. -/
structure Artifact where
  path : String
  content : List UInt8
  /-- Whether it may not go to a terminal. -/
  guarded : Bool
deriving DecidableEq, Repr

/-- What a successful run leaves: a module, or a table with so many rows. -/
inductive Outcome where
  | module (path : String)
  | table (path : String) (rows : Nat)
deriving DecidableEq, Repr

/-- The files to write in order, and the result when all are written. -/
structure Plan where
  writes : List Artifact
  result : Except RunError Outcome

/-- Files of one kind, which are numbered in order. -/
structure FileKind where
  extension : String
  contents : List (List UInt8)
  /-- Whether they may not go to a terminal. -/
  guarded : Bool

/-- A column of the file table and the files it lists. -/
structure Column where
  name : String
  cells : List String
  artifacts : List Artifact

namespace Column

/-- The column of some files. -/
def ofArtifacts (name : String) (artifacts : List Artifact) : Column :=
  ⟨name, artifacts.map (·.path), artifacts⟩

/-- Adds columns to a table, each when its files are written; up to the first that does not fit. -/
def addAll (t : Table) : List Column → List Artifact × Except TableError Table
  | [] => ([], .ok t)
  | c :: cs =>
    match t.addColumn c.name c.cells with
    | .error e => (c.artifacts, .error e)
    | .ok t =>
      let (artifacts, r) := addAll t cs
      (c.artifacts ++ artifacts, r)

end Column

def utf8 (s : String) : List UInt8 := s.toUTF8.data.toList

namespace Options

/-- The content of a file with a module. -/
def encode (o : Options) (m : Module) : List UInt8 :=
  if o.assembly then utf8 m.text else m.toBytes

/-- Whether modules may not go to a terminal: in binary form they may only by force. -/
def isGuarded (o : Options) : Bool := !o.assembly && !o.force

/-- One file for each content of a kind, numbered in order. -/
def numbered (o : Options) (kind : FileKind) : List Artifact :=
  kind.contents.mapIdx fun i content => ⟨o.resultPath kind.extension i, content, kind.guarded⟩

/-- The groups of a module's kernels, if the run has a use for them. -/
def groups (o : Options) (m : Module) : KernelGroups :=
  if o.split.isSome || o.symbols then KernelGroups.ofModule o.granularity m else .empty

/-- The modules of a run: its partitions, or the whole if there are none. -/
def modules (o : Options) (groups : KernelGroups) (m : Module) : List Module :=
  match if o.split.isSome then m.split groups else [] with
  | [] => [m]
  | parts => parts

def codeFiles (o : Options) (modules : List Module) : FileKind :=
  ⟨o.codeExtension, modules.map o.encode, o.isGuarded⟩

/-- The property files: the numbers that the calls of each module tell. -/
def propertyFiles (lowered : Bool) (modules : List Module) : FileKind :=
  ⟨".prop", modules.map fun m =>
    let ids := if lowered then m.specIds else .empty
    utf8 (PropertyRegistry.text (PropertyRegistry.addSpecIds .empty ids)), false⟩

/-- The code files, or the input if it would be written as it is. -/
def codeColumn (o : Options) (lowered : Bool) (modules : List Module) : Column :=
  if lowered || 1 < modules.length then .ofArtifacts "Code" (o.numbered (o.codeFiles modules))
  else ⟨"Code", [o.input], []⟩

def propertyColumn (o : Options) (lowered : Bool) (modules : List Module) : Column :=
  .ofArtifacts "Properties" (o.numbered (propertyFiles lowered modules))

/-- The symbol lists: one for each group if the module is split, else one in all. -/
def symbolLists (o : Options) (groups : KernelGroups) : List String :=
  if o.split.isSome then
    match groups.symbolLists with
    | [] => [""]
    | lists => lists
  else [groups.mergedSymbolList]

def symbolFiles (o : Options) (groups : KernelGroups) : FileKind :=
  ⟨".sym", (o.symbolLists groups).map utf8, false⟩

def symbolColumn (o : Options) (groups : KernelGroups) : Column :=
  .ofArtifacts "Symbols" (o.numbered (o.symbolFiles groups))

def columns (o : Options) (groups : KernelGroups) (lowered : Bool) (modules : List Module) :
    List Column :=
  o.codeColumn lowered modules ::
    ((if o.specConstants = some .runtime then [o.propertyColumn lowered modules] else []) ++
      if o.symbols then [o.symbolColumn groups] else [])

/-- The plan for modules that go into a table. -/
def tablePlan (o : Options) (columns : List Column) : Plan :=
  match Column.addAll .empty columns with
  | (artifacts, .error e) => ⟨artifacts, .error (.table e)⟩
  | (artifacts, .ok t) =>
    ⟨artifacts ++ [⟨o.outputPath, utf8 t.text, false⟩], .ok (.table o.outputPath t.rows.length)⟩

/-- The module with its specialization constants lowered as the options say, and whether that
changed it. -/
def lower (o : Options) (m : Module) : Except RunError (Module × Bool) :=
  match o.specConstants with
  | none => .ok (m, false)
  | some mode =>
    match m.lowerSpecConstants mode with
    | (_, .error failure) => .error (.specConstant failure)
    | (m, .ok changed) => .ok (m, changed)

/-- The plan for a module. -/
def plan (o : Options) (m : Module) : Plan :=
  let groups := o.groups m
  match o.lower m with
  | .error e => ⟨[], .error e⟩
  | .ok (m, lowered) =>
    if o.singleModule then
      ⟨[⟨o.outputPath, o.encode m, o.isGuarded⟩], .ok (.module o.outputPath)⟩
    else o.tablePlan (o.columns groups lowered (o.modules groups m))

/-- The plan for the content of the input, or the reason why it cannot be read. -/
def planContent (o : Options) (content : Except FileFault (List UInt8)) : Plan :=
  match content with
  | .error fault => ⟨[], .error (.file o.input fault)⟩
  | .ok bytes =>
    match Module.ofContent o.input bytes with
    | .error e => ⟨[], .error e⟩
    | .ok m => o.plan m

end Options

end DeviceCode
