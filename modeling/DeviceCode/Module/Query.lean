import DeviceCode.Module.Basic

/-!
# Questions about a module

What an instruction, a function or a global variable refers to, and what a name stands for in a
module: of several definitions of one name the first.
-/

namespace DeviceCode

namespace Operand

def symbol? : Operand → Option String
  | symbol name => some name
  | _ => none

def metadata? : Operand → Option UInt32
  | metadata id => some id
  | _ => none

/-- The operand with uses of the value `name` replaced by `new`. -/
def substitute (name : String) (new : Operand) : Operand → Operand
  | value n => if n = name then new else value n
  | other => other

end Operand

namespace Action

def operands : Action → List Operand
  | call _ _ arguments => arguments
  | operation _ operands => operands

/-- The callee of a call is none of its operands, and stays. -/
def mapOperands (f : Operand → Operand) : Action → Action
  | call type callee arguments => call type callee (arguments.map f)
  | operation opcode operands => operation opcode (operands.map f)

def directCallee? : Action → Option String
  | call _ (.direct symbol) _ => some symbol
  | _ => none

end Action

namespace Instruction

def operands (i : Instruction) : List Operand := i.action.operands

def directCallee? (i : Instruction) : Option String := i.action.directCallee?

/-- The first attachment of a kind. -/
def attachment? (i : Instruction) (kind : String) : Option Operand :=
  (i.attachments.find? (·.kind == kind)).map (·.value)

/-- The symbols an instruction mentions: its callee, its operands, its attachments. -/
def symbols (i : Instruction) : List String :=
  i.directCallee?.toList ++ i.operands.filterMap Operand.symbol? ++
    i.attachments.filterMap (·.value.symbol?)

/-- The debug records an instruction mentions: in its operands, then in its attachments. -/
def metadata (i : Instruction) : List UInt32 :=
  i.operands.filterMap Operand.metadata? ++ i.attachments.filterMap (·.value.metadata?)

/-- Replaces the uses of a value among the operands; the callee and the attachments stay. -/
def substitute (name : String) (new : Operand) (i : Instruction) : Instruction :=
  { i with action := i.action.mapOperands (Operand.substitute name new) }

/-- How many operands are uses of a value. -/
def countUses (name : String) (i : Instruction) : Nat := i.operands.count (.value name)

end Instruction

namespace Function

/-- A declaration with the ordinary calling convention. -/
def declaration (name : String) (returnType : ValueType) (parameters : List String) : Function where
  name := name
  linkage := .external
  convention := .ordinary
  returnType := returnType
  parameters := parameters
  attributes := []
  debug := none
  body := none

def isDeclaration (f : Function) : Bool := f.body.isNone

def isKernel (f : Function) : Bool := decide (f.convention = .kernel)

/-- The first attribute with a key. -/
def attribute? (f : Function) (key : String) : Option String :=
  (f.attributes.find? (·.key == key)).map (·.value)

def blocks (f : Function) : List Block := f.body.getD []

def instructions (f : Function) : List Instruction := f.blocks.flatMap (·.instructions)

/-- The functions called directly, in order and with repetitions. -/
def callees (f : Function) : List String := f.instructions.filterMap Instruction.directCallee?

def symbols (f : Function) : List String := f.instructions.flatMap Instruction.symbols

def metadata (f : Function) : List UInt32 := f.instructions.flatMap Instruction.metadata

def mapInstructions (g : Instruction → Instruction) (f : Function) : Function :=
  { f with body := f.body.map (List.map fun b =>
      { b with instructions := b.instructions.map g }) }

/-- The declaration that stands for a definition elsewhere. -/
def stub (f : Function) : Function :=
  { f with body := none, debug := none, linkage := .external }

/-- The source file a kernel is grouped by. -/
def moduleId? (f : Function) : Option String := f.attribute? "sycl-module-id"

end Function

namespace Initializer

mutual

/-- The symbols mentioned at any depth, in order. -/
def symbols : Initializer → List String
  | symbol name => [name]
  | array elements => symbolsOfList elements
  | scalar _ _ | string _ | zero => []

def symbolsOfList : List Initializer → List String
  | [] => []
  | e :: es => e.symbols ++ symbolsOfList es

end

end Initializer

namespace GlobalVariable

def isDeclaration (g : GlobalVariable) : Bool := g.initializer.isNone

def symbols (g : GlobalVariable) : List String :=
  match g.initializer with
  | some init => init.symbols
  | none => []

/-- The declaration that stands for a definition elsewhere. -/
def stub (g : GlobalVariable) : GlobalVariable :=
  { g with initializer := none, linkage := .external }

end GlobalVariable

namespace Module

def empty : Module := ⟨none, [], [], []⟩

/-- The first function of the name: binary modules are read without a look at the names, and may
have several. -/
def function? (m : Module) (name : String) : Option Function :=
  m.functions.find? (·.name == name)

def global? (m : Module) (name : String) : Option GlobalVariable :=
  m.globals.find? (·.name == name)

/-- The names of the functions, then those of the global variables. -/
def names (m : Module) : List String := m.functions.map (·.name) ++ m.globals.map (·.name)

def kernels (m : Module) : List Function := m.functions.filter Function.isKernel

/-- Whether a body or an initializer mentions a symbol. -/
def isReferenced (m : Module) (name : String) : Bool :=
  m.functions.any (fun f => f.symbols.contains name) ||
    m.globals.any (fun g => g.symbols.contains name)

def instructionCount (m : Module) : Nat := (m.functions.flatMap Function.instructions).length

/-- Changes the first function of a name; `none` if there is none. -/
def modifyFunction? (m : Module) (name : String) (g : Function → Function) : Option Module :=
  (m.functions.findIdx? (·.name == name)).map fun i =>
    { m with functions := m.functions.modify i g }

/-- Changes the first global variable of a name; `none` if there is none. -/
def modifyGlobal? (m : Module) (name : String) (g : GlobalVariable → GlobalVariable) :
    Option Module :=
  (m.globals.findIdx? (·.name == name)).map fun i =>
    { m with globals := m.globals.modify i g }

end Module

end DeviceCode
