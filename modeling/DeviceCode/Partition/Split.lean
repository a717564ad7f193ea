import DeviceCode.Cleanup
import DeviceCode.Partition.KernelGroups

/-!
# Partitions

The partition of a group of kernels defines the kernels, the functions they call and all global
variables; what else of the module is needed is declared, and what is not needed is gone.
-/

namespace DeviceCode.Module

/-! ## Call closure

The functions a set of roots needs with their bodies: the roots, and every function defined in the
module that they call directly, through any number of calls. Of several functions of one name the
last counts.
-/

/-- The last function of a name. -/
def lastFunction? (m : Module) (name : String) : Option Function :=
  m.functions.reverse.find? (·.name == name)

def isDefined (m : Module) (name : String) : Bool :=
  (m.lastFunction? name).any (!·.isDeclaration)

/-- The defined functions that the function of a name calls directly. -/
def definedCallees (m : Module) (name : String) : List String :=
  match m.lastFunction? name with
  | some f => f.callees.filter m.isDefined
  | none => []

/-- The roots that are functions of the module, and what they call, each once. -/
def callClosure (m : Module) (roots : List String) : List String :=
  reach m.definedCallees (m.functions.map (·.name)) roots

/-! ## Stubs

A module keeps some of its definitions and has declarations in place of the others.
-/

/-- Turns every definition whose name is not kept into a declaration. -/
def stub (m : Module) (keep : String → Bool) : Module :=
  { m with
    globals := m.globals.map fun g => if g.isDeclaration || keep g.name then g else g.stub
    functions := m.functions.map fun f => if f.isDeclaration || keep f.name then f else f.stub }

/-! ## Splitting -/

/-- Deletes what is dead, then its debug records, then unused declarations. -/
def clean (m : Module) : Module := m.removeDead.1.removeDeadRecords.1.removeUnusedPrototypes.1

/-- Whether the partition of the kernels keeps the definition of a name. -/
def isNeeded (m : Module) (closure : List String) (name : String) : Bool :=
  closure.contains name || m.globals.any (·.name == name)

def partition (m : Module) (kernels : List String) : Module :=
  (m.stub (m.isNeeded (m.callClosure kernels))).clean

/-- One partition for each group. -/
def split (m : Module) (groups : KernelGroups) : List Module := groups.values.map m.partition

end DeviceCode.Module
