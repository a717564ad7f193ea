import DeviceCode.Assembly.Token

/-!
# Instructions and blocks

The grammar of function bodies, one scan for each kind of phrase. An instruction ends with its line;
a block runs up to the next label or the closing brace.
-/

namespace DeviceCode.Assembly.Scan

variable {α : Type}

/-- Reads `x` behind the character `ch`, and declines if another character is next. -/
def behind (ch : Char) (x : Scan α) : Scan (Option α) := do
  if ← tryChar ch then some <$> x else pure none

theorem shrinks_behind (ch : Char) {x : Scan α} (h : Shrinks (fun _ => 0) x) :
    Shrinks perItem (behind ch x) := by
  refine (shrinks_tryChar ch).bind fun b => ?_
  cases b
  · exact Shrinks.pure rfl
  · exact h.map fun _ => Nat.le_refl _

/-- One or more items with commas between them. -/
def commaList (item : Scan α) (h : Shrinks (fun _ => 0) item) : Scan (List α) := do
  let first ← item
  let others ← many (behind ',' item) (shrinks_behind ',' h)
  pure (first :: others)

/-- Items with commas between them up to the character `close`. -/
def listUntil (close : Char) (item : Scan α) (h : Shrinks (fun _ => 0) item) : Scan (List α) := do
  if ← tryChar close then pure []
  else
    let items ← commaList item h
    expect close
    pure items

theorem shrinks_commaList (item : Scan α) (h : Shrinks (fun _ => 0) item) :
    Shrinks (fun _ => 0) (commaList item h) :=
  h.bind fun _ => (shrinks_many _).bind fun _ => Shrinks.pure rfl

theorem shrinks_listUntil (close : Char) (item : Scan α) (h : Shrinks (fun _ => 0) item) :
    Shrinks (fun _ => 0) (listUntil close item h) := by
  refine ((shrinks_tryChar close).mono fun _ => Nat.zero_le _).bind fun b => ?_
  cases b
  · exact (shrinks_commaList item h).bind fun _ =>
      ((shrinks_expect close).mono fun _ => Nat.zero_le _).bind fun _ => Shrinks.pure rfl
  · exact Shrinks.pure rfl

/-- The first character tells which form an operand has; any other one begins the type of a
constant. -/
def operand : Scan Operand := do
  if ← tryChar '%' then Operand.value <$> noted .useValue
  else if ← tryChar '@' then Operand.symbol <$> noted .useSymbol
  else if ← tryChar '^' then Operand.block <$> noted .useBlock
  else match ← peek? with
    | some '"' => Operand.string <$> string
    | some '!' => Operand.metadata <$> metadataUse
    | some _ => do
      let type ← valueType
      Operand.constant type <$> literal type
    | none => fail .expectedOperand

theorem shrinks_operand : Shrinks (fun _ => 1) operand := by
  refine (shrinks_tryChar _).bind fun b => ?_
  cases b
  · refine (shrinks_tryChar _).bind fun b => ?_
    cases b
    · refine (shrinks_tryChar _).bind fun b => ?_
      cases b
      · refine shrinks_peek?.bind fun c => ?_
        split
        · exact shrinks_string.map fun _ => Nat.le_refl _
        · exact shrinks_metadataUse.map fun _ => Nat.le_refl _
        · exact shrinks_valueType.bind fun type => (shrinks_literal type).map fun _ => Nat.le_refl _
        · exact shrinks_fail _
      · exact (shrinks_noted _).map fun _ => Nat.zero_le _
    · exact (shrinks_noted _).map fun _ => Nat.zero_le _
  · exact (shrinks_noted _).map fun _ => Nat.zero_le _

theorem shrinks_anyOperand : Shrinks (fun _ => 0) operand :=
  shrinks_operand.mono fun _ => Nat.zero_le _

/-- A callee is a function of the module or a value, never a constant. -/
def callee : Scan Callee := do
  if ← tryChar '@' then Callee.direct <$> noted .useSymbol
  else if ← tryChar '%' then Callee.indirect <$> noted .useValue
  else fail (.expectedCallee (← next?))

def call : Scan Action := do
  let type ← valueType
  let target ← callee
  expect '('
  let arguments ← listUntil ')' operand shrinks_anyOperand
  pure (.call type target arguments)

/-- Any instruction but a call: operands up to the end of the line or the first attachment. -/
def operation (opcode : String) : Scan Action := do
  let atEnd ← isAtLineEnd
  let c ← next?
  if atEnd || c == some '!' then pure (.operation opcode [])
  else (Action.operation opcode) <$> commaList operand shrinks_anyOperand

def attachment : Scan Attachment := do
  let kind ← keyword
  let value ← operand
  pure ⟨kind, value⟩

theorem shrinks_callee : Shrinks (fun _ => 0) callee := by
  refine ((shrinks_tryChar _).mono fun _ => Nat.zero_le _).bind fun b => ?_
  cases b
  · refine ((shrinks_tryChar _).mono fun _ => Nat.zero_le _).bind fun b => ?_
    cases b
    · exact shrinks_next?.bind fun _ => shrinks_fail _
    · exact (shrinks_noted _).map fun _ => Nat.zero_le _
  · exact (shrinks_noted _).map fun _ => Nat.zero_le _

theorem shrinks_call : Shrinks (fun _ => 0) call :=
  (shrinks_valueType.mono fun _ => Nat.zero_le _).bind fun _ => shrinks_callee.bind fun _ =>
    ((shrinks_expect _).mono fun _ => Nat.zero_le _).bind fun _ =>
      (shrinks_listUntil _ _ _).bind fun _ => Shrinks.pure rfl

theorem shrinks_operation (opcode : String) : Shrinks (fun _ => 0) (operation opcode) := by
  refine shrinks_isAtLineEnd.bind fun _ => shrinks_next?.bind fun _ => ?_
  split
  · exact Shrinks.pure rfl
  · exact (shrinks_commaList _ _).map fun _ => Nat.le_refl _

theorem shrinks_attachment : Shrinks (fun _ => 0) attachment :=
  (shrinks_keyword.mono fun _ => Nat.zero_le _).bind fun _ => shrinks_anyOperand.bind fun _ =>
    Shrinks.pure rfl

/-- The result an instruction gives a name to. -/
def result? : Scan (Option String) := do
  if (← next?) = some '%' then
    advance
    let n ← noted .defineValue
    expect '='
    pure (some n)
  else pure none

/-- The word `call` is no opcode, so no other operation is named so. -/
def action : Scan Action := do
  let opcode ← keyword
  if opcode = "call" then call else operation opcode

def instruction : Scan Instruction := do
  let result ← result?
  let action ← action
  let attachments ← many (behind '!' attachment) (shrinks_behind '!' shrinks_attachment)
  pure ⟨result, action, attachments⟩

theorem shrinks_result? : Shrinks (fun _ => 0) result? := by
  refine shrinks_next?.bind fun c => ?_
  split
  · exact shrinks_advance.bind fun _ =>
      ((shrinks_noted _).mono fun _ => Nat.zero_le _).bind fun _ =>
        ((shrinks_expect _).mono fun _ => Nat.zero_le _).bind fun _ => Shrinks.pure rfl
  · exact Shrinks.pure rfl

theorem shrinks_action : Shrinks (fun _ => 1) action := by
  refine shrinks_keyword.bind fun _ => ?_
  split
  · exact shrinks_call
  · exact shrinks_operation _

theorem shrinks_instruction : Shrinks (fun _ => 1) instruction :=
  shrinks_result?.bind fun _ => shrinks_action.bind fun _ => (shrinks_many _).bind fun _ =>
    Shrinks.pure rfl

/-- Whether a text goes on with a name and a colon. -/
def startsWithLabel (s : List Char) : Bool :=
  s.takeWhile isNameChar != [] && (s.dropWhile isNameChar).head? == some ':'

/-- The next instruction of a block. -/
def blockItem : Scan (Option Instruction) := do
  blanks true
  let rest ← place
  if rest = [] ∨ rest.head? = some '\x7d' ∨ startsWithLabel rest then pure none
  else
    let i ← instruction
    expectLineEnd
    pure (some i)

theorem shrinks_blockItem : Shrinks perItem blockItem := by
  refine (shrinks_blanks _).bind fun _ => shrinks_place.bind fun _ => ?_
  split
  · exact Shrinks.pure rfl
  · exact shrinks_instruction.bind fun _ => shrinks_expectLineEnd.bind fun _ => Shrinks.pure rfl

/-- A label with its line, and the instructions up to the next one. -/
def block : Scan Block := do
  let start ← place
  let label ← name
  expect ':'
  note (.defineBlock label) start
  expectLineEnd
  let instructions ← many blockItem shrinks_blockItem
  pure ⟨label, instructions⟩

theorem shrinks_block : Shrinks (fun _ => 1) block :=
  shrinks_place.bind fun _ => shrinks_name.bind fun _ =>
    ((shrinks_expect _).mono fun _ => Nat.zero_le _).bind fun _ => (shrinks_note _ _).bind fun _ =>
      shrinks_expectLineEnd.bind fun _ => (shrinks_many _).bind fun _ => Shrinks.pure rfl

end DeviceCode.Assembly.Scan
