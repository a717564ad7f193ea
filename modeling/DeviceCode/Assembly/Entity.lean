import DeviceCode.Assembly.Initializer

/-!
# Top-level entities

A text is a sequence of entities, each of which ends with its line: the source name, global
variables, functions and debug records. `Module.ofEntities` sorts them into a module.
-/

namespace DeviceCode

/-- One part of a text, with a value of its own kind. -/
inductive Entity where
  | sourceName (value : String)
  | global (value : GlobalVariable)
  | function (value : Function)
  | debugRecord (value : DebugRecord)

namespace Entity

def sourceName? : Entity → Option String
  | sourceName name => some name
  | _ => none

def global? : Entity → Option GlobalVariable
  | global v => some v
  | _ => none

def function? : Entity → Option Function
  | function f => some f
  | _ => none

def debugRecord? : Entity → Option DebugRecord
  | debugRecord r => some r
  | _ => none

end Entity

/-- The entities of each kind in order; of several source names the last. -/
def Module.ofEntities (es : List Entity) : Module where
  sourceName := (es.filterMap Entity.sourceName?).getLast?
  globals := es.filterMap Entity.global?
  functions := es.filterMap Entity.function?
  debugRecords := es.filterMap Entity.debugRecord?

namespace Assembly.Scan

/-- A keyword and the place in front of the blanks before it. -/
def word : Scan (String × Place) := do
  let start ← place
  let w ← keyword
  pure (w, start)

theorem shrinks_word : Shrinks (fun _ => 1) word :=
  shrinks_place.bind fun _ => shrinks_keyword.bind fun _ => Shrinks.pure rfl

theorem shrinks_anyWord : Shrinks (fun _ => 0) word := shrinks_word.mono fun _ => Nat.zero_le _

/-- The linkage in front of a variable, if there is one, and the word behind it. -/
def variableLinkage? : Scan (Option Linkage × String × Place) := do
  let w ← word
  match Linkage.ofKeyword? w.1 with
  | some l => do
    let next ← word
    pure (some l, next)
  | none => pure (none, w)

/-- The linkage in front of a function, external if none is written, and the word behind it. -/
def functionLinkage (isDefinition : Bool) : Scan (Linkage × String × Place) := do
  let w ← word
  match Linkage.ofKeyword? w.1 with
  | some l =>
    if !isDefinition && l != .external then failAt w.2 .functionDeclarationLinkage
    else do
      let next ← word
      pure (l, next)
  | none => pure (.external, w)

/-- The calling convention that `w` names and the word behind it, or the ordinary one and `w`. -/
def convention (w : String × Place) : Scan (CallingConvention × String × Place) := do
  match CallingConvention.ofKeyword? w.1 with
  | some c => do
    let next ← word
    pure (c, next)
  | none => pure (.ordinary, w)

theorem shrinks_variableLinkage? : Shrinks (fun _ => 0) variableLinkage? := by
  refine shrinks_anyWord.bind fun w => ?_
  split
  · exact shrinks_anyWord.bind fun _ => Shrinks.pure rfl
  · exact Shrinks.pure rfl

theorem shrinks_functionLinkage (isDefinition : Bool) :
    Shrinks (fun _ => 0) (functionLinkage isDefinition) := by
  refine shrinks_anyWord.bind fun w => ?_
  split
  · split
    · exact shrinks_failAt _ _
    · exact shrinks_anyWord.bind fun _ => Shrinks.pure rfl
  · exact Shrinks.pure rfl

theorem shrinks_convention (w : String × Place) : Shrinks (fun _ => 0) (convention w) := by
  unfold convention
  split
  · exact shrinks_anyWord.bind fun _ => Shrinks.pure rfl
  · exact Shrinks.pure rfl

/-- Whether a variable of this kind is constant. -/
def variableKind (w : String) : Scan Bool :=
  if w = "global" then pure false
  else if w = "constant" then pure true
  else fail (.expectedVariableKind w)

/-- The initializer of the variable `name`, which is written at `start`; without one it is a
declaration. -/
def initializer? (name : String) (start : Place) (linkage : Linkage) :
    Scan (Option Initializer) := do
  if ← isAtLineEnd then
    if linkage = .external then pure none
    else failAt start (.variableDeclarationLinkage name)
  else some <$> initializer

/-- Where no linkage is written, a variable is external. -/
def global : Scan GlobalVariable := do
  expect '@'
  let start ← place
  let name ← noted .defineSymbol
  expect '='
  let (linkage, kind, _) ← variableLinkage?
  let isConstant ← variableKind kind
  let init ← initializer? name start (linkage.getD .external)
  pure ⟨name, linkage.getD .external, isConstant, init⟩

theorem shrinks_variableKind (w : String) : Shrinks (fun _ => 0) (variableKind w) := by
  unfold variableKind
  split
  · exact Shrinks.pure rfl
  · split
    · exact Shrinks.pure rfl
    · exact shrinks_fail _

theorem shrinks_initializer? (name : String) (start : Place) (linkage : Linkage) :
    Shrinks (fun _ => 0) (initializer? name start linkage) := by
  refine shrinks_isAtLineEnd.bind fun b => ?_
  cases b
  · exact shrinks_initializer.map fun _ => Nat.le_refl _
  · split
    · split
      · exact Shrinks.pure rfl
      · exact shrinks_failAt _ _
    · exact shrinks_initializer.map fun _ => Nat.le_refl _

theorem shrinks_global : Shrinks (fun _ => 1) global :=
  (shrinks_expect _).bind fun _ => shrinks_place.bind fun _ =>
    ((shrinks_noted _).mono fun _ => Nat.zero_le _).bind fun _ =>
      ((shrinks_expect _).mono fun _ => Nat.zero_le _).bind fun _ =>
        shrinks_variableLinkage?.bind fun _ => (shrinks_variableKind _).bind fun _ =>
          (shrinks_initializer? _ _ _).bind fun _ => Shrinks.pure rfl

def debugEntry : Scan DebugEntry := do
  let (w, start) ← word
  if w = "compile_unit" then DebugEntry.compileUnit <$> string
  else if w = "subprogram" then
    let name ← string
    DebugEntry.subprogram name <$> metadataUse
  else failAt start (.unknownDebugEntry w)

/-- The number of a record is noted where it stands, in case it is taken already. -/
def debugRecord : Scan DebugRecord := do
  expect '!'
  let start ← place
  let id ← number
  note (.defineMetadata id) start
  expect '='
  let entry ← debugEntry
  pure ⟨id, entry⟩

theorem shrinks_debugEntry : Shrinks (fun _ => 0) debugEntry := by
  refine shrinks_anyWord.bind fun w => ?_
  obtain ⟨w, start⟩ := w
  dsimp only
  split
  · exact shrinks_string.map fun _ => Nat.zero_le _
  · split
    · exact (shrinks_string.mono fun _ => Nat.zero_le _).bind fun _ =>
        shrinks_metadataUse.map fun _ => Nat.zero_le _
    · exact shrinks_failAt _ _

theorem shrinks_debugRecord : Shrinks (fun _ => 1) debugRecord :=
  (shrinks_expect _).bind fun _ => shrinks_place.bind fun _ => shrinks_number.bind fun _ =>
    (shrinks_note _ _).bind fun _ => ((shrinks_expect _).mono fun _ => Nat.zero_le _).bind fun _ =>
      shrinks_debugEntry.bind fun _ => Shrinks.pure rfl

def parameter : Scan String := do
  expect '%'
  noted .defineParameter

def functionAttribute : Scan Attribute := do
  let key ← string
  expect '='
  let value ← string
  pure ⟨key, value⟩

/-- The debug record of a definition. -/
def debugUse? : Scan (Option UInt32) := do
  if ← tryChar '!' then
    let (w, start) ← word
    if w = "dbg" then some <$> metadataUse else failAt start .expectedDebugAttachment
  else pure none

/-- The next block of the body of a function, up to the closing brace. -/
def bodyItem (function : String) : Scan (Option Block) := do
  if ← tryChar '\x7d' then pure none
  else
    let rest ← place
    if rest = [] then fail (.unclosedBody function)
    else
      let b ← block
      blanks true
      pure (some b)

theorem shrinks_parameter : Shrinks (fun _ => 0) parameter :=
  ((shrinks_expect _).mono fun _ => Nat.zero_le _).bind fun _ =>
    (shrinks_noted _).mono fun _ => Nat.zero_le _

theorem shrinks_functionAttribute : Shrinks (fun _ => 0) functionAttribute :=
  (shrinks_string.mono fun _ => Nat.zero_le _).bind fun _ =>
    ((shrinks_expect _).mono fun _ => Nat.zero_le _).bind fun _ =>
      (shrinks_string.mono fun _ => Nat.zero_le _).bind fun _ => Shrinks.pure rfl

theorem shrinks_debugUse? : Shrinks (fun _ => 0) debugUse? := by
  refine ((shrinks_tryChar _).mono fun _ => Nat.zero_le _).bind fun b => ?_
  cases b
  · exact Shrinks.pure rfl
  · refine shrinks_anyWord.bind fun w => ?_
    obtain ⟨w, start⟩ := w
    dsimp only
    split
    · exact shrinks_metadataUse.map fun _ => Nat.zero_le _
    · exact shrinks_failAt _ _

theorem shrinks_bodyItem (function : String) : Shrinks perItem (bodyItem function) := by
  refine ((shrinks_tryChar _).mono fun _ => Nat.zero_le _).bind fun b => ?_
  cases b
  · refine shrinks_place.bind fun _ => ?_
    split
    · exact shrinks_fail _
    · exact shrinks_block.bind fun _ => (shrinks_blanks _).bind fun _ => Shrinks.pure rfl
  · exact Shrinks.pure rfl

/-- The body ends with its brace, where all values and blocks that were used have to be there. -/
def body (function : String) : Scan (List Block) := do
  expect '\x7b'
  blanks true
  let blocks ← many (bodyItem function) (shrinks_bodyItem function)
  note .endBody (← place)
  pure blocks

/-- The name, the parameters and the attributes of a function. -/
def header (linkage : Linkage) (cc : CallingConvention) (type : ValueType) : Scan Function := do
  expect '@'
  let name ← noted .defineSymbol
  note .beginFunction (← place)
  expect '('
  let parameters ← listUntil ')' parameter shrinks_parameter
  let attributes ←
    many (behind '#' functionAttribute) (shrinks_behind '#' shrinks_functionAttribute)
  pure ⟨name, linkage, cc, type, parameters, attributes, none, none⟩

/-- What stands behind the word that opens a function, from its linkage to its attributes. -/
def signature (isDefinition : Bool) : Scan Function := do
  let (linkage, next) ← functionLinkage isDefinition
  let (cc, typeName, start) ← convention next
  match ValueType.ofName? typeName with
  | none => failAt start (.expectedReturnType typeName)
  | some type => header linkage cc type

/-- Only definitions have a debug record and a body. -/
def function (isDefinition : Bool) : Scan Function := do
  let f ← signature isDefinition
  if isDefinition then
    let debug ← debugUse?
    let blocks ← body f.name
    pure { f with debug := debug, body := some blocks }
  else pure f

theorem shrinks_body (function : String) : Shrinks (fun _ => 0) (body function) :=
  ((shrinks_expect _).mono fun _ => Nat.zero_le _).bind fun _ => (shrinks_blanks _).bind fun _ =>
    (shrinks_many _).bind fun _ => shrinks_place.bind fun _ => (shrinks_note _ _).bind fun _ =>
      Shrinks.pure rfl

theorem shrinks_header (linkage : Linkage) (cc : CallingConvention) (type : ValueType) :
    Shrinks (fun _ => 0) (header linkage cc type) :=
  ((shrinks_expect _).mono fun _ => Nat.zero_le _).bind fun _ =>
    ((shrinks_noted _).mono fun _ => Nat.zero_le _).bind fun _ => shrinks_place.bind fun _ =>
      (shrinks_note _ _).bind fun _ =>
        ((shrinks_expect _).mono fun _ => Nat.zero_le _).bind fun _ =>
          (shrinks_listUntil _ _ _).bind fun _ => (shrinks_many _).bind fun _ => Shrinks.pure rfl

theorem shrinks_signature (isDefinition : Bool) :
    Shrinks (fun _ => 0) (signature isDefinition) := by
  refine (shrinks_functionLinkage _).bind fun l => (shrinks_convention _).bind fun c => ?_
  obtain ⟨cc, typeName, start⟩ := c
  dsimp only
  split
  · exact shrinks_failAt _ _
  · exact shrinks_header _ _ _

theorem shrinks_function (isDefinition : Bool) :
    Shrinks (fun _ => 0) (function isDefinition) := by
  refine (shrinks_signature _).bind fun f => ?_
  split
  · exact shrinks_debugUse?.bind fun _ => (shrinks_body _).bind fun _ => Shrinks.pure rfl
  · exact Shrinks.pure rfl

/-- An entity that a word begins: a function, or the source name. -/
def worded : Scan Entity := do
  let (w, start) ← word
  if w = "define" then Entity.function <$> function true
  else if w = "declare" then Entity.function <$> function false
  else if w = "source_filename" then
    expect '='
    Entity.sourceName <$> string
  else failAt start (.expectedTopLevel w)

/-- Variables and records begin with their sigils, all other entities with a word. -/
def entity : Scan Entity := do
  let c ← next?
  if c = some '@' then Entity.global <$> global
  else if c = some '!' then Entity.debugRecord <$> debugRecord
  else worded

theorem shrinks_worded : Shrinks (fun _ => 1) worded := by
  refine shrinks_word.bind fun w => ?_
  obtain ⟨w, start⟩ := w
  dsimp only
  split
  · exact (shrinks_function _).map fun _ => Nat.le_refl _
  · split
    · exact (shrinks_function _).map fun _ => Nat.le_refl _
    · split
      · exact ((shrinks_expect _).mono fun _ => Nat.zero_le _).bind fun _ =>
          shrinks_string.map fun _ => Nat.zero_le _
      · exact shrinks_failAt _ _

theorem shrinks_entity : Shrinks (fun _ => 1) entity := by
  refine shrinks_next?.bind fun c => ?_
  split
  · exact shrinks_global.map fun _ => Nat.le_refl _
  · split
    · exact shrinks_debugRecord.map fun _ => Nat.le_refl _
    · exact shrinks_worded

/-- The next entity of a text, up to its end. -/
def entityItem : Scan (Option Entity) := do
  let rest ← place
  if rest = [] then pure none
  else
    let e ← entity
    expectLineEnd
    blanks true
    pure (some e)

theorem shrinks_entityItem : Shrinks perItem entityItem := by
  refine shrinks_place.bind fun _ => ?_
  split
  · exact Shrinks.pure rfl
  · exact shrinks_entity.bind fun _ => shrinks_expectLineEnd.bind fun _ =>
      (shrinks_blanks _).bind fun _ => Shrinks.pure rfl

/-- All entities of a text. -/
def entities : Scan (List Entity) := do
  blanks true
  many entityItem shrinks_entityItem

end Assembly.Scan

end DeviceCode
