import DeviceCode.Binary.Wire
import DeviceCode.Module.Basic

/-!
# Modules as bytes

The parts of a record follow each other in the order in which the record lists them; a value with
several forms is written as the number of its form and the parts of that form.
-/

namespace DeviceCode.Binary

def putType (t : ValueType) : Bytes := putVariant ValueType.all t

def takeType : Take ValueType := takeVariant ValueType.all

def putLinkage (l : Linkage) : Bytes := putVariant Linkage.all l

def takeLinkage : Take Linkage := takeVariant Linkage.all

def putConvention (c : CallingConvention) : Bytes := putVariant CallingConvention.all c

def takeConvention : Take CallingConvention := takeVariant CallingConvention.all

/-- The number of a form. -/
def takeForm : Take Nat := takeNat 15 5

def putDouble (x : Double) : Bytes := putFixed 8 x.bits.toNat

def takeDouble : Take Double := (fun n => ⟨.ofNat n⟩) <$> takeFixed 8

def putLiteral : Literal → Bytes
  | .int v => putNat 0 ++ putInt64 v
  | .float x => putNat 1 ++ putDouble x

def takeLiteral : Take Literal := do
  match ← takeForm with
  | 0 => Literal.int <$> takeInt64
  | 1 => Literal.float <$> takeDouble
  | _ => throw .unknownVariant

def putOperand : Operand → Bytes
  | .value name => putNat 0 ++ putString name
  | .symbol name => putNat 1 ++ putString name
  | .constant type literal => putNat 2 ++ putType type ++ putLiteral literal
  | .string content => putNat 3 ++ putString content
  | .block label => putNat 4 ++ putString label
  | .metadata id => putNat 5 ++ putUInt32 id

def takeOperand : Take Operand := do
  match ← takeForm with
  | 0 => Operand.value <$> takeString
  | 1 => Operand.symbol <$> takeString
  | 2 => do
    let type ← takeType
    Operand.constant type <$> takeLiteral
  | 3 => Operand.string <$> takeString
  | 4 => Operand.block <$> takeString
  | 5 => Operand.metadata <$> takeUInt32
  | _ => throw .unknownVariant

def putCallee : Callee → Bytes
  | .direct symbol => putNat 0 ++ putString symbol
  | .indirect value => putNat 1 ++ putString value

def takeCallee : Take Callee := do
  match ← takeForm with
  | 0 => Callee.direct <$> takeString
  | 1 => Callee.indirect <$> takeString
  | _ => throw .unknownVariant

def putAction : Action → Bytes
  | .call type callee arguments =>
    putNat 0 ++ putType type ++ putCallee callee ++ putList putOperand arguments
  | .operation opcode operands => putNat 1 ++ putString opcode ++ putList putOperand operands

def takeAction : Take Action := do
  match ← takeForm with
  | 0 => do
    let type ← takeType
    let callee ← takeCallee
    Action.call type callee <$> takeList takeOperand
  | 1 => do
    let opcode ← takeString
    Action.operation opcode <$> takeList takeOperand
  | _ => throw .unknownVariant

def putAttachment (a : Attachment) : Bytes := putString a.kind ++ putOperand a.value

def takeAttachment : Take Attachment := do
  let kind ← takeString
  let value ← takeOperand
  pure ⟨kind, value⟩

def putInstruction (i : Instruction) : Bytes :=
  putOption putString i.result ++ putAction i.action ++ putList putAttachment i.attachments

def takeInstruction : Take Instruction := do
  let result ← takeOption takeString
  let action ← takeAction
  let attachments ← takeList takeAttachment
  pure ⟨result, action, attachments⟩

def putBlock (b : Block) : Bytes := putString b.label ++ putList putInstruction b.instructions

def takeBlock : Take Block := do
  let label ← takeString
  let instructions ← takeList takeInstruction
  pure ⟨label, instructions⟩

def putAttribute (a : Attribute) : Bytes := putString a.key ++ putString a.value

def takeAttribute : Take Attribute := do
  let key ← takeString
  let value ← takeString
  pure ⟨key, value⟩

def putFunction (f : Function) : Bytes :=
  putString f.name ++ putLinkage f.linkage ++ putConvention f.convention ++
    putType f.returnType ++ putList putString f.parameters ++
    putList putAttribute f.attributes ++ putOption putUInt32 f.debug ++
    putOption (putList putBlock) f.body

def takeFunction : Take Function := do
  let name ← takeString
  let linkage ← takeLinkage
  let convention ← takeConvention
  let returnType ← takeType
  let parameters ← takeList takeString
  let attributes ← takeList takeAttribute
  let debug ← takeOption takeUInt32
  let body ← takeOption (takeList takeBlock)
  pure ⟨name, linkage, convention, returnType, parameters, attributes, debug, body⟩

mutual

/-- The elements of an array stand behind their number. -/
def putInitializer : Initializer → Bytes
  | .scalar type literal => putNat 0 ++ putType type ++ putLiteral literal
  | .symbol name => putNat 1 ++ putString name
  | .array elements => putNat 2 ++ putNat (elements.length) ++ putInitializers elements
  | .string content => putNat 3 ++ putString content
  | .zero => putNat 4

def putInitializers : List Initializer → Bytes
  | [] => []
  | e :: es => putInitializer e ++ putInitializers es

end

/-- The beginning of an initializer: an array with so many elements, or the whole of it. -/
inductive Piece where
  | array (size : Nat)
  | whole (value : Initializer)

/-- Of an array only the number of its elements is read, as they follow in the bytes. -/
def takePiece : Take Piece := do
  match ← takeForm with
  | 0 => do
    let type ← takeType
    let literal ← takeLiteral
    pure (.whole (.scalar type literal))
  | 1 => (fun n => .whole (.symbol n)) <$> takeString
  | 2 => Piece.array <$> takeNat64
  | 3 => (fun s => .whole (.string s)) <$> takeString
  | 4 => pure (.whole .zero)
  | _ => throw .unknownVariant

theorem shrinks_takeLiteral : Shrinks 0 takeLiteral := by
  refine ((shrinks_takeNat _ _).bind (l := 0) fun n => ?_).mono (Nat.zero_le _)
  split
  · exact ((shrinks_takeNat _ _).map.map).mono (Nat.zero_le _)
  · exact (shrinks_takeFixed 8).map.map
  · exact shrinks_throw _ _

theorem shrinks_takePiece : Shrinks 1 takePiece := by
  refine (shrinks_takeNat _ _).bind (l := 0) fun n => ?_
  split
  · exact ((shrinks_takeVariant _).bind fun _ => shrinks_takeLiteral.bind fun _ =>
      shrinks_pure _).mono (Nat.zero_le _)
  · exact shrinks_takeString.map
  · exact ((shrinks_takeNat _ _).map).mono (Nat.zero_le _)
  · exact shrinks_takeString.map
  · exact shrinks_pure _
  · exact shrinks_throw _ _

/-- An array that is being read: how many elements are still to come behind the current one, and
those read so far in reverse. -/
structure OpenArray where
  left : Nat
  elements : List Initializer

/-- Puts a finished initializer into the innermost open array, which may finish that one, and so on:
gives the whole if no array is open any more, else the arrays that are. -/
def close (value : Initializer) : List OpenArray → Initializer ⊕ List OpenArray
  | [] => .inl value
  | ⟨0, elements⟩ :: outer => close (.array (value :: elements).reverse) outer
  | ⟨left + 1, elements⟩ :: outer => .inr (⟨left, value :: elements⟩ :: outer)

/-- An array without elements is whole at once; any other one waits for its first element. -/
def Piece.placeIn (outer : List OpenArray) : Piece → Initializer ⊕ List OpenArray
  | .array 0 => close (.array []) outer
  | .array (size + 1) => .inr (⟨size, []⟩ :: outer)
  | .whole value => close value outer

/-- Reads an initializer inside the open arrays `outer`, the innermost first. -/
def takeWithin (outer : List OpenArray) (bytes : Bytes) : Except Fault (Initializer × Bytes) :=
  match _e : takePiece bytes with
  | .error fault => .error fault
  | .ok (piece, rest) =>
    match piece.placeIn outer with
    | .inl value => .ok (value, rest)
    | .inr outer => takeWithin outer rest
termination_by bytes.length
decreasing_by exact shrinks_takePiece _ _ _ _e

def takeInitializer : Take Initializer := takeWithin []

def putGlobal (g : GlobalVariable) : Bytes :=
  putString g.name ++ putLinkage g.linkage ++ putBool g.isConstant ++
    putOption putInitializer g.initializer

def takeGlobal : Take GlobalVariable := do
  let name ← takeString
  let linkage ← takeLinkage
  let isConstant ← takeBool
  let initializer ← takeOption takeInitializer
  pure ⟨name, linkage, isConstant, initializer⟩

def putDebugEntry : DebugEntry → Bytes
  | .compileUnit file => putNat 0 ++ putString file
  | .subprogram name unit => putNat 1 ++ putString name ++ putUInt32 unit

def takeDebugEntry : Take DebugEntry := do
  match ← takeForm with
  | 0 => DebugEntry.compileUnit <$> takeString
  | 1 => do
    let name ← takeString
    DebugEntry.subprogram name <$> takeUInt32
  | _ => throw .unknownVariant

def putDebugRecord (r : DebugRecord) : Bytes := putUInt32 r.id ++ putDebugEntry r.entry

def takeDebugRecord : Take DebugRecord := do
  let id ← takeUInt32
  let entry ← takeDebugEntry
  pure ⟨id, entry⟩

def putModule (m : Module) : Bytes :=
  putOption putString m.sourceName ++ putList putGlobal m.globals ++
    putList putFunction m.functions ++ putList putDebugRecord m.debugRecords

def takeModule : Take Module := do
  let sourceName ← takeOption takeString
  let globals ← takeList takeGlobal
  let functions ← takeList takeFunction
  let debugRecords ← takeList takeDebugRecord
  pure ⟨sourceName, globals, functions, debugRecords⟩

end DeviceCode.Binary
