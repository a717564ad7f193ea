import DeviceCode.Module.Basic

/-!
# Agreement of modules

Two modules agree when they are equal with their numbers compared as numbers: the zeros of either
sign agree, and a NaN does not agree with itself.
-/

namespace DeviceCode

/-- An integer never agrees with a float, even where both stand for one number. -/
def Literal.agrees : Literal → Literal → Bool
  | .int a, .int b => a == b
  | .float x, .float y => x.agrees y
  | _, _ => false

def Operand.agrees : Operand → Operand → Bool
  | .constant t a, .constant u b => t == u && a.agrees b
  | a, b => a == b

/-- Actions agree operand by operand; a call also needs the callee and the type to be the same. -/
def Action.agrees : Action → Action → Bool
  | .call t c as, .call u d bs => t == u && c == d && as.isEqv bs Operand.agrees
  | .operation o as, .operation p bs => o == p && as.isEqv bs Operand.agrees
  | _, _ => false

def Attachment.agrees (a b : Attachment) : Bool := a.kind == b.kind && a.value.agrees b.value

/-- Instructions agree with their attachments in order. -/
def Instruction.agrees (i j : Instruction) : Bool :=
  i.result == j.result && i.action.agrees j.action &&
    i.attachments.isEqv j.attachments Attachment.agrees

def Block.agrees (a b : Block) : Bool :=
  a.label == b.label && a.instructions.isEqv b.instructions Instruction.agrees

/-- Functions agree if their headers are equal and their blocks agree; a declaration agrees with
declarations only. -/
def Function.agrees (f g : Function) : Bool :=
  f.name == g.name && f.linkage == g.linkage && f.convention == g.convention &&
    f.returnType == g.returnType && f.parameters == g.parameters &&
    f.attributes == g.attributes && f.debug == g.debug &&
    match f.body, g.body with
    | none, none => true
    | some bs, some cs => bs.isEqv cs Block.agrees
    | _, _ => false

mutual

/-- Initializers agree leaf by leaf, in arrays of the same shape. -/
def Initializer.agrees : Initializer → Initializer → Bool
  | .scalar t a, .scalar u b => t == u && a.agrees b
  | .symbol a, .symbol b => a == b
  | .array as, .array bs => Initializer.agreesOfList as bs
  | .string s, .string t => s == t
  | .zero, .zero => true
  | _, _ => false

def Initializer.agreesOfList : List Initializer → List Initializer → Bool
  | [], [] => true
  | a :: as, b :: bs => a.agrees b && Initializer.agreesOfList as bs
  | _, _ => false

end

/-- Global variables agree if they are equal but for their initializers, and these agree. -/
def GlobalVariable.agrees (a b : GlobalVariable) : Bool :=
  a.name == b.name && a.linkage == b.linkage && a.isConstant == b.isConstant &&
    match a.initializer, b.initializer with
    | none, none => true
    | some i, some j => i.agrees j
    | _, _ => false

/-- Modules agree entity by entity, in order. Debug records have no numbers of their own to
compare. -/
def Module.agrees (m n : Module) : Bool :=
  m.sourceName == n.sourceName && m.globals.isEqv n.globals GlobalVariable.agrees &&
    m.functions.isEqv n.functions Function.agrees && m.debugRecords == n.debugRecords

end DeviceCode
