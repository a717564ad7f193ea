import DeviceCode.SpecConstant.Ids

/-!
# Property sets

Typed values under names, in categories. A category is written as a line with its name in brackets,
and below it a line for each of its properties.
-/

namespace DeviceCode

inductive PropertyValue where
  | uint32 (value : UInt32)
deriving DecidableEq, Repr

namespace PropertyValue

/-- The number that stands for the type of a value. -/
def typeTag : PropertyValue → Nat
  | uint32 _ => 1

def text (v : PropertyValue) : String :=
  v.typeTag.repr ++ "|" ++ match v with | uint32 n => n.toNat.repr

end PropertyValue

abbrev PropertySet := SortedMap PropertyValue

/-- Property sets by category. -/
abbrev PropertyRegistry := SortedMap PropertySet

namespace PropertyRegistry

/-- The category of the numbers of specialization constants. -/
def specConstants : String := "SYCL/specialization constants"

/-- The category is made if it is not there. -/
def add (r : PropertyRegistry) (category name : String) (value : PropertyValue) :
    PropertyRegistry :=
  r.alter category fun set => (set.getD .empty).insert name value

/-- Adds all numbers of specialization constants; the category is there even if there are none. -/
def addSpecIds (r : PropertyRegistry) (ids : SpecIds) : PropertyRegistry :=
  r.alter specConstants fun set =>
    ids.entries.foldl (fun set e => set.insert e.1 (.uint32 e.2)) (set.getD .empty)

/-- A property is one line: its name, its type and its value. -/
def propertyText (entry : String × PropertyValue) : String :=
  entry.1 ++ "=" ++ entry.2.text ++ "\n"

def categoryText (entry : String × PropertySet) : String :=
  "[" ++ entry.1 ++ "]\n" ++ String.join (entry.2.entries.map propertyText)

def text (r : PropertyRegistry) : String := String.join (r.entries.map categoryText)

end PropertyRegistry

end DeviceCode
