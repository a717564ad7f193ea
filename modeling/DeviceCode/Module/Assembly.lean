import DeviceCode.Module.Basic
import DeviceCode.Number.Numeral
import DeviceCode.Text.Escape

/-!
# The written form of a module

One line for each global variable, instruction and debug record, a blank line between the parts and
before each function. A declaration is written without its debug record, and linkage is written for
definitions only, external linkage not at all.
-/

namespace DeviceCode

open Text (quoted)

/-- Texts with a comma and a space between them. -/
def commaSeparated (texts : List String) : String := ", ".intercalate texts

def Literal.text : Literal → String
  | .int value => value.toInt.repr
  | .float value => value.text

/-- A literal with its type in front. -/
def typedText (type : ValueType) (literal : Literal) : String := type.name ++ " " ++ literal.text

def Operand.text : Operand → String
  | .value name => "%" ++ name
  | .symbol name => "@" ++ name
  | .constant type literal => typedText type literal
  | .string content => quoted content
  | .block label => "^" ++ label
  | .metadata id => "!" ++ id.toNat.repr

def Callee.text : Callee → String
  | .direct symbol => "@" ++ symbol
  | .indirect value => "%" ++ value

def Action.text : Action → String
  | .call type callee arguments =>
    "call " ++ type.name ++ " " ++ callee.text ++ "(" ++
      commaSeparated (arguments.map Operand.text) ++ ")"
  | .operation opcode [] => opcode
  | .operation opcode operands => opcode ++ " " ++ commaSeparated (operands.map Operand.text)

def Attachment.text (a : Attachment) : String := " !" ++ a.kind ++ " " ++ a.value.text

/-- The name of the result, the action and the attachments, on one line without its end. -/
def Instruction.text (i : Instruction) : String :=
  (match i.result with | some name => "%" ++ name ++ " = " | none => "") ++ i.action.text ++
    String.join (i.attachments.map Attachment.text)

def Block.text (b : Block) : String :=
  b.label ++ ":\n" ++ String.join (b.instructions.map fun i => "  " ++ i.text ++ "\n")

def Attribute.text (a : Attribute) : String := " #" ++ quoted a.key ++ "=" ++ quoted a.value

/-- The linkage of a definition, with a space behind it. -/
def Linkage.text : Linkage → String
  | .external => ""
  | linkage => linkage.keyword ++ " "

/-- What declarations and definitions have in common: convention, type, name, parameters and
attributes. -/
def Function.signatureText (f : Function) : String :=
  f.convention.keyword ++ " " ++ f.returnType.name ++ " @" ++ f.name ++ "(" ++
    commaSeparated (f.parameters.map ("%" ++ ·)) ++ ")" ++
    String.join (f.attributes.map Attribute.text)

def Function.text (f : Function) : String :=
  match f.body with
  | none => "declare " ++ f.signatureText
  | some blocks =>
    "define " ++ f.linkage.text ++ f.signatureText ++
      (match f.debug with | some id => " !dbg !" ++ id.toNat.repr | none => "") ++
      " \x7b\n" ++ String.join (blocks.map Block.text) ++ "\x7d"

mutual

def Initializer.text : Initializer → String
  | .scalar type literal => typedText type literal
  | .symbol name => "@" ++ name
  | .array elements => "[" ++ commaSeparated (Initializer.texts elements) ++ "]"
  | .string content => quoted content
  | .zero => "zeroinitializer"

def Initializer.texts : List Initializer → List String
  | [] => []
  | e :: es => e.text :: Initializer.texts es

end

/-- Without an initializer a variable is written as external, whatever its linkage. -/
def GlobalVariable.text (g : GlobalVariable) : String :=
  let kind := if g.isConstant then "constant" else "global"
  match g.initializer with
  | none => "@" ++ g.name ++ " = external " ++ kind
  | some init => "@" ++ g.name ++ " = " ++ g.linkage.text ++ kind ++ " " ++ init.text

def DebugRecord.text (r : DebugRecord) : String :=
  "!" ++ r.id.toNat.repr ++ " = " ++
    match r.entry with
    | .compileUnit file => "compile_unit " ++ quoted file
    | .subprogram name unit => "subprogram " ++ quoted name ++ " !" ++ unit.toNat.repr

/-- Each text as a line of its own. -/
def lines (texts : List String) : String := String.join (texts.map (· ++ "\n"))

/-- The parts of a module that are set apart by blank lines. -/
def Module.paragraphs (m : Module) : List String :=
  (match m.sourceName with
    | some name => ["source_filename = " ++ quoted name ++ "\n"] | none => []) ++
  (if m.globals.isEmpty then [] else [lines (m.globals.map GlobalVariable.text)]) ++
  m.functions.map (·.text ++ "\n") ++
  (if m.debugRecords.isEmpty then [] else [lines (m.debugRecords.map DebugRecord.text)])

/-- The paragraphs of a module, with a blank line between them. -/
def Module.text (m : Module) : String := "\n".intercalate m.paragraphs

end DeviceCode
