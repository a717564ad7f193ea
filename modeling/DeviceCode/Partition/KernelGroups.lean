import DeviceCode.Module.Query
import DeviceCode.SortedMap

/-!
# Kernel groups

Kernels are grouped by the source file they come from, or each by itself. Groups are in the order of
their keys, and the kernels of a group in the order of the module.
-/

namespace DeviceCode

inductive Granularity where
  | source | kernel
deriving DecidableEq, Repr

/-- The key of a kernel's group; a kernel without a source file is in no group of that
granularity. -/
def Granularity.key? : Granularity → Function → Option String
  | source, f => f.moduleId?
  | kernel, f => some f.name

/-- The names of the kernels of each group. -/
abbrev KernelGroups := SortedMap (List String)

namespace KernelGroups

def add (groups : KernelGroups) (key name : String) : KernelGroups :=
  groups.alter key fun names => names.getD [] ++ [name]

def addFunction (granularity : Granularity) (groups : KernelGroups) (f : Function) :
    KernelGroups :=
  match granularity.key? f with
  | some key => groups.add key f.name
  | none => groups

def ofModule (granularity : Granularity) (m : Module) : KernelGroups :=
  m.kernels.foldl (addFunction granularity) SortedMap.empty

/-- Names, each on a line. -/
def symbolList (names : List String) : String := String.join (names.map (· ++ "\n"))

/-- One list of names for each group. -/
def symbolLists (groups : KernelGroups) : List String := groups.values.map symbolList

/-- The names of all groups in one list. -/
def mergedSymbolList (groups : KernelGroups) : String := symbolList groups.values.flatten

end KernelGroups

end DeviceCode
