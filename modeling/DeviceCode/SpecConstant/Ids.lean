import DeviceCode.Module.Query
import DeviceCode.SortedMap

/-!
# Specialization constants

Device code reads a specialization constant through a symbolic call, whose only argument is the
constant's string ID. A lowered call has a number instead, and keeps the string ID as an attachment,
so that a module tells which number stands for which constant.
-/

namespace DeviceCode

/-- The numbers of specialization constants by string ID. -/
abbrev SpecIds := SortedMap UInt32

namespace SpecConstant

/-- What the name of a symbolic intrinsic begins with. -/
def symbolicStem : String := "__sycl_getSpecConstantValue"

/-- What the name of an intrinsic that takes a number begins with. -/
def numberedStem : String := "__spirv_SpecConstant"

/-- The kind of the attachment that holds the string ID of a lowered call. -/
def attachmentKind : String := "sycl.spec_const"

def beginsWith (name stem : String) : Bool := stem.toList.isPrefixOf name.toList

def isSymbolicName (name : String) : Bool := beginsWith name symbolicStem

def isNumberedName (name : String) : Bool := beginsWith name numberedStem

/-- The intrinsic that takes a number and gives a value of the type. -/
def numberedName (type : ValueType) : String := numberedStem ++ "_" ++ type.name

/-- A literal as a number of 32 bits. -/
def idOfLiteral? : Literal → Option UInt32
  | .int v =>
      if 0 ≤ v.toInt ∧ v.toInt.toNat < UInt32.size then some (.ofNat v.toInt.toNat) else none
  | .float _ => none

/-- The string ID and the number of a lowered call. -/
def loweredCall? (i : Instruction) : Option (String × UInt32) :=
  match i.directCallee?, i.attachment? attachmentKind, i.operands with
  | some callee, some (.string name), .constant _ literal :: _ =>
    if isNumberedName callee then (idOfLiteral? literal).map (name, ·) else none
  | _, _, _ => none

end SpecConstant

namespace Module

open SpecConstant

/-- The lowered calls of a module in order. -/
def loweredCalls (m : Module) : List (String × UInt32) :=
  m.functions.flatMap fun f => f.instructions.filterMap loweredCall?

/-- The numbers that the lowered calls tell; of several for one constant the last. -/
def specIds (m : Module) : SpecIds :=
  m.loweredCalls.foldl (fun ids call => ids.insert call.1 call.2) .empty

end Module

end DeviceCode
