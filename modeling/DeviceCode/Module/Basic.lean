import DeviceCode.Number.Double

/-!
# Device code modules

A module is a list of global variables, a list of functions made of blocks of instructions, and
records that tell where functions come from. Names tie the parts together: a symbol names a
function or a global variable of the module, a value a parameter or an instruction's result, a
label a block of the same function, a number a debug record.
-/

namespace DeviceCode

/-- The types of values. Pointers are of one type, whatever they point to. -/
inductive ValueType where
  | void | i1 | i8 | i16 | i32 | i64 | f32 | f64 | ptr
deriving DecidableEq, Inhabited, Repr

/-- A scalar constant: a whole number, or a binary64 whatever the type it is written with. -/
inductive Literal where
  | int (value : Int64)
  | float (value : Double)
deriving DecidableEq, Repr

/-- Who sees a definition, and whether it may be dropped where nothing uses it. -/
inductive Linkage where
  | external | internal | modulePrivate | linkOnceODR | weakODR
deriving DecidableEq, Inhabited, Repr

/-- Kernels are the functions that a host can start. -/
inductive CallingConvention where
  | ordinary | kernel
deriving DecidableEq, Inhabited, Repr

/-- What an instruction works on. All forms but constants and strings refer to something by its name
or number. -/
inductive Operand where
  | value (name : String)
  | symbol (name : String)
  | constant (type : ValueType) (literal : Literal)
  | string (content : String)
  | block (label : String)
  | metadata (id : UInt32)
deriving DecidableEq, Repr

/-- What a call calls: a symbol, or whatever a value points at. -/
inductive Callee where
  | direct (symbol : String)
  | indirect (value : String)
deriving DecidableEq, Repr

/-- What an instruction does. A call names what it calls apart from its arguments. -/
inductive Action where
  | call (type : ValueType) (callee : Callee) (arguments : List Operand)
  | operation (opcode : String) (operands : List Operand)
deriving DecidableEq, Repr

/-- An operand hung on an instruction under a name of its own. -/
structure Attachment where
  kind : String
  value : Operand
deriving DecidableEq, Repr

structure Instruction where
  result : Option String
  action : Action
  attachments : List Attachment
deriving DecidableEq, Repr

structure Block where
  label : String
  instructions : List Instruction
deriving DecidableEq, Repr

structure Attribute where
  key : String
  value : String
deriving DecidableEq, Repr

/-- A function; without a body it is a declaration. -/
structure Function where
  name : String
  linkage : Linkage
  convention : CallingConvention
  returnType : ValueType
  parameters : List String
  attributes : List Attribute
  debug : Option UInt32
  body : Option (List Block)
deriving DecidableEq, Repr

/-- What a global variable holds at the start. Arrays nest to any depth. -/
inductive Initializer where
  | scalar (type : ValueType) (literal : Literal)
  | symbol (name : String)
  | array (elements : List Initializer)
  | string (content : String)
  | zero
deriving Repr

/-- A global variable; without an initializer it is a declaration. -/
structure GlobalVariable where
  name : String
  linkage : Linkage
  isConstant : Bool
  initializer : Option Initializer
deriving Repr

/-- A file that was compiled, or a function together with the record of its file. -/
inductive DebugEntry where
  | compileUnit (file : String)
  | subprogram (name : String) (unit : UInt32)
deriving DecidableEq, Repr

structure DebugRecord where
  id : UInt32
  entry : DebugEntry
deriving DecidableEq, Repr

/-- The parts of a module are listed in the order in which they are written. -/
structure Module where
  sourceName : Option String
  globals : List GlobalVariable
  functions : List Function
  debugRecords : List DebugRecord
deriving Repr

namespace ValueType

def all : List ValueType := [void, i1, i8, i16, i32, i64, f32, f64, ptr]

def name : ValueType → String
  | void => "void" | i1 => "i1" | i8 => "i8" | i16 => "i16" | i32 => "i32" | i64 => "i64"
  | f32 => "f32" | f64 => "f64" | ptr => "ptr"

def ofName? (s : String) : Option ValueType := all.find? (·.name == s)

def isFloat : ValueType → Bool
  | f32 | f64 => true
  | _ => false

/-- The zero of a type that has values. -/
def zero? : ValueType → Option Literal
  | void => none
  | f32 | f64 => some (.float .zero)
  | _ => some (.int 0)

@[simp] theorem ofName?_name (t : ValueType) : ofName? t.name = some t := by cases t <;> decide

end ValueType

namespace Linkage

def all : List Linkage := [external, internal, modulePrivate, linkOnceODR, weakODR]

def keyword : Linkage → String
  | external => "external" | internal => "internal" | modulePrivate => "private"
  | linkOnceODR => "linkonce_odr" | weakODR => "weak_odr"

def ofKeyword? (s : String) : Option Linkage := all.find? (·.keyword == s)

/-- Whether an unreferenced definition of this linkage may be dropped. -/
def isDiscardable : Linkage → Bool
  | internal | modulePrivate | linkOnceODR => true
  | external | weakODR => false

@[simp] theorem ofKeyword?_keyword (l : Linkage) :
    ofKeyword? l.keyword = some l := by cases l <;> decide

end Linkage

namespace CallingConvention

def all : List CallingConvention := [ordinary, kernel]

def keyword : CallingConvention → String
  | ordinary => "spir_func"
  | kernel => "spir_kernel"

def ofKeyword? (s : String) : Option CallingConvention := all.find? (·.keyword == s)

@[simp] theorem ofKeyword?_keyword (c : CallingConvention) : ofKeyword? c.keyword = some c := by
  cases c <;> decide

end CallingConvention

end DeviceCode
