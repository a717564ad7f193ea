import Mathlib.Tactic.Tauto
import DeviceCode.Cleanup

/-!
# Well-formed modules

What a module has to be for its names to mean something: no name is defined twice where it is
looked up, and every use of a name has a definition.  Symbols and debug records belong to the
module, values and labels to a function.  A declaration is external, literals fit their types, and
an operation can be told from a call and from its attachments.
-/

namespace DeviceCode

namespace Operand

/-- The value that an operand is. -/
def value? : Operand → Option String
  | value name => some name
  | _ => none

/-- The block that an operand is. -/
def block? : Operand → Option String
  | block label => some label
  | _ => none

end Operand

/-- The value that a call goes through. -/
def Callee.value? : Callee → Option String
  | direct _ => none
  | indirect value => some value

/-- The value that is called, if a call goes through one. -/
def Action.calledValue? : Action → Option String
  | call _ callee _ => callee.value?
  | operation _ _ => none

namespace Instruction

/-- The operands, then what is attached. -/
def allOperands (i : Instruction) : List Operand := i.operands ++ i.attachments.map (·.value)

/-- The values used outside of the operands: the value that is called, and what is attached. -/
def outerValues (i : Instruction) : List String :=
  i.action.calledValue?.toList ++ i.attachments.filterMap (·.value.value?)

/-- The values an instruction uses. -/
def values (i : Instruction) : List String :=
  i.action.calledValue?.toList ++ i.allOperands.filterMap Operand.value?

/-- The labels an instruction uses. -/
def targets (i : Instruction) : List String := i.allOperands.filterMap Operand.block?

/-- An instruction uses the symbol it calls and those among its operands. -/
theorem symbols_eq (i : Instruction) :
    i.symbols = i.directCallee?.toList ++ i.allOperands.filterMap Operand.symbol? := by
  simp only [symbols, allOperands, List.filterMap_append, List.filterMap_map, Function.comp_def,
    List.append_assoc]

theorem metadata_eq (i : Instruction) : i.metadata = i.allOperands.filterMap Operand.metadata? := by
  simp only [metadata, allOperands, List.filterMap_append, List.filterMap_map, Function.comp_def]

/-- The values of an instruction are its operands, or stand outside of them as attachments or as the
callee. -/
theorem mem_values_iff {i : Instruction} {v : String} :
    v ∈ i.values ↔ v ∈ i.operands.filterMap Operand.value? ∨ v ∈ i.outerValues := by
  simp only [values, allOperands, outerValues, List.filterMap_append, List.filterMap_map,
    List.mem_append, Function.comp_def]
  tauto

end Instruction

namespace Function

theorem instructions_of_none {f : Function} (h : f.body = none) : f.instructions = [] := by
  rw [instructions, blocks, h]
  rfl

theorem instructions_of_some {f : Function} {bs : List Block} (h : f.body = some bs) :
    f.instructions = bs.flatMap (·.instructions) := by
  rw [instructions, blocks, h, Option.getD_some]

/-- The values that the instructions of a function define. -/
def results (f : Function) : List String := f.instructions.filterMap (·.result)

/-- The values a function defines: its parameters and the results of its instructions. -/
def locals (f : Function) : List String := f.parameters ++ f.results

def labels (f : Function) : List String := f.blocks.map (·.label)

end Function

def Module.recordIds (m : Module) : List UInt32 := m.debugRecords.map (·.id)

def Literal.isFloat : Literal → Bool
  | int _ => false
  | float _ => true

/-- Whether a literal can be written with a type: any number but with `void`, and a float exactly
where the type is one. -/
def Literal.HasType (l : Literal) (type : ValueType) : Prop :=
  type ≠ .void ∧ l.isFloat = type.isFloat

def Operand.IsTyped : Operand → Prop
  | constant type literal => literal.HasType type
  | _ => True

namespace Initializer

mutual

/-- The parts that are no arrays, at any depth and in order. -/
def leaves : Initializer → List Initializer
  | array elements => leavesOfList elements
  | scalar type literal => [scalar type literal]
  | symbol name => [symbol name]
  | string content => [string content]
  | zero => [zero]

def leavesOfList : List Initializer → List Initializer
  | [] => []
  | e :: es => e.leaves ++ leavesOfList es

end

def symbol? : Initializer → Option String
  | symbol name => some name
  | _ => none

/-- Of the leaves, only scalars can be ill-typed. -/
def IsTypedLeaf : Initializer → Prop
  | scalar type literal => literal.HasType type
  | _ => True

mutual

theorem symbols_eq_leaves (i : Initializer) : i.symbols = i.leaves.filterMap symbol? := by
  cases i with
  | array elements => rw [symbols, leaves, symbolsOfList_eq_leaves]
  | scalar => rfl
  | symbol => rfl
  | string => rfl
  | zero => rfl

theorem symbolsOfList_eq_leaves (es : List Initializer) :
    symbolsOfList es = (leavesOfList es).filterMap symbol? := by
  cases es with
  | nil => rfl
  | cons e es =>
      rw [symbolsOfList, leavesOfList, List.filterMap_append, symbols_eq_leaves,
        symbolsOfList_eq_leaves]

end

@[simp] theorem leavesOfList_append (as bs : List Initializer) :
    leavesOfList (as ++ bs) = leavesOfList as ++ leavesOfList bs := by
  induction as with
  | nil => rfl
  | cons a as ih => rw [List.cons_append, leavesOfList, leavesOfList, ih, List.append_assoc]

end Initializer

/-- An action is well-formed if its operands are typed and it reads as the action it is. -/
structure Action.WellFormed (a : Action) : Prop where
  typed : ∀ o ∈ a.operands, o.IsTyped
  notCall : ∀ opcode operands, a = .operation opcode operands → opcode ≠ "call"
  /-- An operation whose first operand is a record would read like one with attachments only. -/
  firstOperand : ∀ opcode id operands, a ≠ .operation opcode (.metadata id :: operands)

structure Instruction.WellFormed (i : Instruction) : Prop where
  action : i.action.WellFormed
  attachments : ∀ a ∈ i.attachments, a.value.IsTyped

/-- A function defines each of its values and labels once, and it uses no others.  A declaration is
external, and has no debug record. -/
structure Function.WellFormed (f : Function) : Prop where
  instructions : ∀ i ∈ f.instructions, i.WellFormed
  locals : f.locals.Nodup
  labels : f.labels.Nodup
  values : ∀ i ∈ f.instructions, ∀ v ∈ i.values, v ∈ f.locals
  targets : ∀ i ∈ f.instructions, ∀ l ∈ i.targets, l ∈ f.labels
  declaration : f.body = none → f.linkage = .external ∧ f.debug = none

/-- The scalars of an initializer are of their types.  A declaration is external. -/
structure GlobalVariable.WellFormed (g : GlobalVariable) : Prop where
  typed : ∀ init, g.initializer = some init → ∀ leaf ∈ init.leaves, leaf.IsTypedLeaf
  declaration : g.initializer = none → g.linkage = .external

/-- A module defines each of its symbols and debug records once, and it uses no others. -/
structure Module.WellFormed (m : Module) : Prop where
  names : m.names.Nodup
  records : m.recordIds.Nodup
  functions : ∀ f ∈ m.functions, f.WellFormed
  globals : ∀ g ∈ m.globals, g.WellFormed
  functionSymbols : ∀ f ∈ m.functions, ∀ s ∈ f.symbols, s ∈ m.names
  globalSymbols : ∀ g ∈ m.globals, ∀ s ∈ g.symbols, s ∈ m.names
  debug : ∀ f ∈ m.functions, ∀ id ∈ f.debug, id ∈ m.recordIds
  metadata : ∀ f ∈ m.functions, ∀ id ∈ f.metadata, id ∈ m.recordIds
  units : ∀ r ∈ m.debugRecords, ∀ id ∈ r.entry.unit?, id ∈ m.recordIds

/-- No name is that of two functions or global variables, and what is used in a body, an initializer
or a debug record is there. -/
structure Module.IsLinked (m : Module) : Prop where
  names : m.names.Nodup
  functionSymbols : ∀ f ∈ m.functions, ∀ s ∈ f.symbols, s ∈ m.names
  globalSymbols : ∀ g ∈ m.globals, ∀ s ∈ g.symbols, s ∈ m.names
  values : ∀ f ∈ m.functions, ∀ i ∈ f.instructions, ∀ v ∈ i.values, v ∈ f.locals
  targets : ∀ f ∈ m.functions, ∀ i ∈ f.instructions, ∀ l ∈ i.targets, l ∈ f.labels
  debug : ∀ f ∈ m.functions, ∀ id ∈ f.debug, id ∈ m.recordIds
  metadata : ∀ f ∈ m.functions, ∀ id ∈ f.metadata, id ∈ m.recordIds
  units : ∀ r ∈ m.debugRecords, ∀ id ∈ r.entry.unit?, id ∈ m.recordIds

/-- A well-formed module has all that linking needs. -/
theorem Module.WellFormed.isLinked {m : Module} (hm : m.WellFormed) : m.IsLinked where
  names := hm.names
  functionSymbols := hm.functionSymbols
  globalSymbols := hm.globalSymbols
  values f hf := (hm.functions f hf).values
  targets f hf := (hm.functions f hf).targets
  debug := hm.debug
  metadata := hm.metadata
  units := hm.units

/-! ## Decidability -/

section Decidability

instance (l : Literal) (type : ValueType) : Decidable (l.HasType type) :=
  inferInstanceAs (Decidable (_ ∧ _))

instance (o : Operand) : Decidable o.IsTyped :=
  match o with
  | .constant type literal => inferInstanceAs (Decidable (literal.HasType type))
  | .value _ | .symbol _ | .string _ | .block _ | .metadata _ => .isTrue trivial

instance (leaf : Initializer) : Decidable leaf.IsTypedLeaf :=
  match leaf with
  | .scalar type literal => inferInstanceAs (Decidable (literal.HasType type))
  | .symbol _ | .array _ | .string _ | .zero => .isTrue trivial

/-- What there is to know of an operation beside the types of its operands. -/
def Action.isDistinct : Action → Bool
  | call _ _ _ => true
  | operation opcode operands =>
    opcode != "call" && (operands.head?.bind Operand.metadata?).isNone

/-- What is asked of the form of an action can be decided. -/
theorem Action.wellFormed_iff {a : Action} :
    a.WellFormed ↔ (∀ o ∈ a.operands, o.IsTyped) ∧ a.isDistinct := by
  cases a with
  | call type callee arguments =>
      exact ⟨fun h => ⟨h.typed, rfl⟩, fun h => ⟨h.1, nofun, nofun⟩⟩
  | operation opcode operands =>
      have hfirst : (operands.head?.bind Operand.metadata?).isNone ↔
          ∀ id rest, operands ≠ .metadata id :: rest := by
        cases operands with
        | nil => simp
        | cons o os => cases o <;> simp [Operand.metadata?]
      rw [isDistinct, Bool.and_eq_true, bne_iff_ne, hfirst]
      constructor
      · rintro ⟨typed, notCall, firstOperand⟩
        exact ⟨typed, notCall _ _ rfl, fun id rest he => firstOperand opcode id rest (he ▸ rfl)⟩
      · rintro ⟨typed, notCall, firstOperand⟩
        refine ⟨typed, ?_, ?_⟩
        · rintro _ _ ⟨⟩
          exact notCall
        · rintro _ id rest ⟨⟩
          exact firstOperand id rest rfl

instance (a : Action) : Decidable a.WellFormed := decidable_of_iff _ Action.wellFormed_iff.symm

instance (i : Instruction) : Decidable i.WellFormed :=
  decidable_of_iff (i.action.WellFormed ∧ ∀ a ∈ i.attachments, a.value.IsTyped)
    ⟨fun ⟨action, attachments⟩ => ⟨action, attachments⟩, fun h => ⟨h.action, h.attachments⟩⟩

instance (f : Function) : Decidable f.WellFormed :=
  decidable_of_iff ((∀ i ∈ f.instructions, i.WellFormed) ∧ f.locals.Nodup ∧ f.labels.Nodup ∧
      (∀ i ∈ f.instructions, ∀ v ∈ i.values, v ∈ f.locals) ∧
      (∀ i ∈ f.instructions, ∀ l ∈ i.targets, l ∈ f.labels) ∧
      (f.body = none → f.linkage = .external ∧ f.debug = none))
    ⟨fun ⟨instructions, locals, labels, values, targets, declaration⟩ =>
        ⟨instructions, locals, labels, values, targets, declaration⟩,
      fun h => ⟨h.instructions, h.locals, h.labels, h.values, h.targets, h.declaration⟩⟩

instance (g : GlobalVariable) : Decidable g.WellFormed :=
  decidable_of_iff ((∀ init ∈ g.initializer, ∀ leaf ∈ init.leaves, leaf.IsTypedLeaf) ∧
      (g.initializer = none → g.linkage = .external))
    ⟨fun ⟨typed, declaration⟩ => ⟨typed, declaration⟩, fun h => ⟨h.typed, h.declaration⟩⟩

-- Uses of records are stated by `⊆`: a quantifier over numbers would try each of the finitely many.
instance (m : Module) : Decidable m.WellFormed :=
  decidable_of_iff (m.names.Nodup ∧ m.recordIds.Nodup ∧ (∀ f ∈ m.functions, f.WellFormed) ∧
      (∀ g ∈ m.globals, g.WellFormed) ∧ (∀ f ∈ m.functions, f.symbols ⊆ m.names) ∧
      (∀ g ∈ m.globals, g.symbols ⊆ m.names) ∧
      (∀ f ∈ m.functions, f.debug.toList ⊆ m.recordIds) ∧
      (∀ f ∈ m.functions, f.metadata ⊆ m.recordIds) ∧
      (∀ r ∈ m.debugRecords, r.entry.unit?.toList ⊆ m.recordIds))
    ⟨fun ⟨names, records, functions, globals, functionSymbols, globalSymbols, debug, metadata,
          units⟩ =>
        ⟨names, records, functions, globals, functionSymbols, globalSymbols,
          fun f hf _ hid => debug f hf (Option.mem_toList.mpr hid), metadata,
          fun r hr _ hid => units r hr (Option.mem_toList.mpr hid)⟩,
      fun h => ⟨h.names, h.records, h.functions, h.globals, h.functionSymbols, h.globalSymbols,
        fun f hf id hid => h.debug f hf id (Option.mem_toList.mp hid), h.metadata,
        fun r hr id hid => h.units r hr id (Option.mem_toList.mp hid)⟩⟩

end Decidability

end DeviceCode
