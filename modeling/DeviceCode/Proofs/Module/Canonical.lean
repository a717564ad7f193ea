import DeviceCode.Module.Assembly
import DeviceCode.Proofs.Module.WellFormed
import DeviceCode.Proofs.Number.Numeral

/-!
# Modules without payloads

The written form of a NaN does not show its bits, so they are lost when a module is read again.
`canonical` puts the NaN that arithmetic produces for every NaN among the literals of a module, and
leaves all else as it is.  The bits name nothing and do not change the kind of a literal: a module
uses and defines the same names without them (`names_canonical` and its siblings), and it is
well-formed exactly if it was (`wellFormed_canonical_iff`).
-/

namespace DeviceCode

/-- A literal without the payload of a NaN. -/
def Literal.canonical : Literal → Literal
  | int value => int value
  | float value => float value.canonical

/-- Only literals have payloads. -/
def Operand.canonical : Operand → Operand
  | constant type literal => constant type literal.canonical
  | other => other

def Attachment.canonical (a : Attachment) : Attachment := { a with value := a.value.canonical }

def Instruction.canonical (i : Instruction) : Instruction :=
  { i with
    action := i.action.mapOperands Operand.canonical
    attachments := i.attachments.map Attachment.canonical }

def Block.canonical (b : Block) : Block :=
  { b with instructions := b.instructions.map Instruction.canonical }

def Function.canonical (f : Function) : Function :=
  { f with body := f.body.map (List.map Block.canonical) }

mutual

def Initializer.canonical : Initializer → Initializer
  | .scalar type literal => .scalar type literal.canonical
  | .array elements => .array (Initializer.canonicalList elements)
  | .symbol name => .symbol name
  | .string content => .string content
  | .zero => .zero

def Initializer.canonicalList : List Initializer → List Initializer
  | [] => []
  | e :: es => e.canonical :: Initializer.canonicalList es

end

def GlobalVariable.canonical (g : GlobalVariable) : GlobalVariable :=
  { g with initializer := g.initializer.map Initializer.canonical }

/-- A module whose NaNs are all the one that arithmetic produces. -/
def Module.canonical (m : Module) : Module :=
  { m with
    globals := m.globals.map GlobalVariable.canonical
    functions := m.functions.map Function.canonical }

/-! ## Literals -/

/-- A NaN stays a float. -/
@[simp] theorem Literal.isFloat_canonical (l : Literal) : l.canonical.isFloat = l.isFloat := by
  cases l <;> rfl

@[simp] theorem Literal.hasType_canonical_iff {l : Literal} {type : ValueType} :
    l.canonical.HasType type ↔ l.HasType type := by
  rw [HasType, HasType, l.isFloat_canonical]

/-! ## Instructions -/

namespace Operand

@[simp] theorem isTyped_canonical_iff {o : Operand} : o.canonical.IsTyped ↔ o.IsTyped := by
  cases o with
  | constant type literal => exact Literal.hasType_canonical_iff
  | value | symbol | string | block | metadata => exact Iff.rfl

/-- What is seen of operands without a look at their literals. -/
theorem filterMap_canonical {α : Type} {view : Operand → Option α}
    (h : ∀ type literal, view (.constant type literal) = none) (os : List Operand) :
    (os.map canonical).filterMap view = os.filterMap view := by
  rw [List.filterMap_map]
  refine List.filterMap_congr fun o _ => ?_
  cases o with
  | constant type literal => exact (h type literal.canonical).trans (h type literal).symm
  | value | symbol | string | block | metadata => rfl

end Operand

namespace Action

variable (a : Action)

@[simp] theorem operands_canonical :
    (a.mapOperands Operand.canonical).operands = a.operands.map Operand.canonical := by
  cases a <;> rfl

/-- Whether the result of an action is distinct does not depend on its literals. -/
@[simp] theorem isDistinct_canonical :
    (a.mapOperands Operand.canonical).isDistinct = a.isDistinct := by
  cases a with
  | call => rfl
  | operation opcode operands =>
      cases operands with
      | nil => rfl
      | cons o os => cases o <;> rfl

@[simp] theorem wellFormed_canonical_iff :
    (a.mapOperands Operand.canonical).WellFormed ↔ a.WellFormed := by
  rw [wellFormed_iff, wellFormed_iff, isDistinct_canonical, operands_canonical,
    List.forall_mem_map]
  simp only [Operand.isTyped_canonical_iff]

end Action

namespace Instruction

variable (i : Instruction)

/-- The operands of an instruction, those of its attachments among them, lose their payloads one by
one. -/
@[simp] theorem allOperands_canonical :
    i.canonical.allOperands = i.allOperands.map Operand.canonical := by
  simp [allOperands, operands, canonical, Action.operands_canonical, Attachment.canonical]

@[simp] theorem directCallee?_canonical : i.canonical.directCallee? = i.directCallee? := by
  obtain ⟨result, action, attachments⟩ := i
  cases action with
  | operation => rfl
  | call type callee arguments => cases callee <;> rfl

@[simp] theorem symbols_canonical : i.canonical.symbols = i.symbols := by
  rw [symbols_eq, symbols_eq, directCallee?_canonical, allOperands_canonical,
    Operand.filterMap_canonical fun _ _ => rfl]

@[simp] theorem metadata_canonical : i.canonical.metadata = i.metadata := by
  rw [metadata_eq, metadata_eq, allOperands_canonical, Operand.filterMap_canonical fun _ _ => rfl]

/-- An instruction uses the values it used, a called value among them. -/
@[simp] theorem values_canonical : i.canonical.values = i.values := by
  have hcalled : i.canonical.action.calledValue? = i.action.calledValue? := by
    obtain ⟨result, action, attachments⟩ := i
    cases action <;> rfl
  rw [values, values, hcalled, allOperands_canonical, Operand.filterMap_canonical fun _ _ => rfl]

@[simp] theorem targets_canonical : i.canonical.targets = i.targets := by
  rw [targets, targets, allOperands_canonical, Operand.filterMap_canonical fun _ _ => rfl]

/-- An instruction is well-formed if its operands are typed, and types do not look at bits. -/
@[simp] theorem wellFormed_canonical_iff : i.canonical.WellFormed ↔ i.WellFormed := by
  have hattachments : (∀ a ∈ i.canonical.attachments, a.value.IsTyped) ↔
      ∀ a ∈ i.attachments, a.value.IsTyped := by
    rw [canonical, List.forall_mem_map]
    simp only [Attachment.canonical, Operand.isTyped_canonical_iff]
  exact ⟨fun h => ⟨i.action.wellFormed_canonical_iff.mp h.action, hattachments.mp h.attachments⟩,
    fun h => ⟨i.action.wellFormed_canonical_iff.mpr h.action, hattachments.mpr h.attachments⟩⟩

end Instruction

/-! ## Functions -/

namespace Function

variable (f : Function)

/-- The instructions of a function are those it had, without payloads. -/
@[simp] theorem instructions_canonical :
    f.canonical.instructions = f.instructions.map Instruction.canonical := by
  obtain ⟨name, linkage, convention, type, parameters, attributes, debug, body⟩ := f
  cases body with
  | none => rfl
  | some bs =>
      simp [instructions, blocks, canonical, Block.canonical, List.flatMap_map, List.map_flatMap]

@[simp] theorem locals_canonical : f.canonical.locals = f.locals := by
  rw [locals, locals, results, results, instructions_canonical, List.filterMap_map]
  rfl

@[simp] theorem labels_canonical : f.canonical.labels = f.labels := by
  obtain ⟨name, linkage, convention, type, parameters, attributes, debug, body⟩ := f
  cases body <;> simp [labels, blocks, canonical, Block.canonical]

@[simp] theorem symbols_canonical : f.canonical.symbols = f.symbols := by
  rw [symbols, symbols, instructions_canonical, List.flatMap_map]
  simp only [Instruction.symbols_canonical]

@[simp] theorem metadata_canonical : f.canonical.metadata = f.metadata := by
  rw [metadata, metadata, instructions_canonical, List.flatMap_map]
  simp only [Instruction.metadata_canonical]

/-- A function is well-formed exactly if it was: its names are the same, and so are the types of its
literals. -/
@[simp] theorem wellFormed_canonical_iff : f.canonical.WellFormed ↔ f.WellFormed := by
  have hdeclaration : f.canonical.body = none ↔ f.body = none := Option.map_eq_none_iff
  constructor
  · rintro ⟨instructions, locals, labels, values, targets, declaration⟩
    rw [instructions_canonical, List.forall_mem_map] at instructions values targets
    simp only [Instruction.values_canonical, Instruction.targets_canonical, locals_canonical,
      labels_canonical, Instruction.wellFormed_canonical_iff] at *
    exact ⟨instructions, locals, labels, values, targets, fun h => declaration (hdeclaration.mpr h)⟩
  · rintro ⟨instructions, locals, labels, values, targets, declaration⟩
    constructor
    case declaration => exact fun h => declaration (hdeclaration.mp h)
    all_goals
      simpa only [instructions_canonical, List.forall_mem_map, Instruction.values_canonical,
        Instruction.targets_canonical, locals_canonical, labels_canonical,
        Instruction.wellFormed_canonical_iff]

end Function

/-! ## Initializers -/

namespace Initializer

mutual

/-- The leaves of an initializer are those it had, without payloads, in order. -/
@[simp] theorem leaves_canonical (init : Initializer) :
    init.canonical.leaves = init.leaves.map canonical := by
  cases init with
  | array elements => exact leavesOfList_canonical elements
  | scalar | symbol | string | zero => rfl

@[simp] theorem leavesOfList_canonical (es : List Initializer) :
    leavesOfList (canonicalList es) = (leavesOfList es).map canonical := by
  cases es with
  | nil => rfl
  | cons e es =>
      rw [canonicalList, leavesOfList, leavesOfList, List.map_append, leaves_canonical e,
        leavesOfList_canonical es]

end

/-- Of the leaves only scalars have types, and these they keep. -/
@[simp] theorem isTypedLeaf_canonical_iff {leaf : Initializer} :
    leaf.canonical.IsTypedLeaf ↔ leaf.IsTypedLeaf := by
  cases leaf with
  | scalar type literal => exact Literal.hasType_canonical_iff
  | symbol | array | string | zero => exact Iff.rfl

@[simp] theorem symbols_canonical (init : Initializer) : init.canonical.symbols = init.symbols := by
  rw [symbols_eq_leaves, symbols_eq_leaves, leaves_canonical, List.filterMap_map]
  refine List.filterMap_congr fun leaf _ => ?_
  cases leaf <;> rfl

end Initializer

namespace GlobalVariable

variable (g : GlobalVariable)

@[simp] theorem symbols_canonical : g.canonical.symbols = g.symbols := by
  obtain ⟨name, linkage, isConstant, init⟩ := g
  cases init with
  | none => rfl
  | some init => exact init.symbols_canonical

/-- A variable is well-formed exactly if it was, since the leaves of its initializer keep their
types. -/
@[simp] theorem wellFormed_canonical_iff : g.canonical.WellFormed ↔ g.WellFormed := by
  obtain ⟨name, linkage, isConstant, init⟩ := g
  cases init with
  | none => exact ⟨fun h => ⟨nofun, h.declaration⟩, fun h => ⟨nofun, h.declaration⟩⟩
  | some init =>
      have typed : (∀ leaf ∈ init.canonical.leaves, leaf.IsTypedLeaf) ↔
          ∀ leaf ∈ init.leaves, leaf.IsTypedLeaf := by
        rw [init.leaves_canonical, List.forall_mem_map]
        simp only [Initializer.isTypedLeaf_canonical_iff]
      exact ⟨fun h => ⟨fun _ hi => Option.some.inj hi ▸ typed.mp (h.typed _ rfl), nofun⟩,
        fun h => ⟨fun _ hi => Option.some.inj hi ▸ typed.mpr (h.typed _ rfl), nofun⟩⟩

end GlobalVariable

/-! ## Modules -/

namespace Module

variable (m : Module)

@[simp] theorem names_canonical : m.canonical.names = m.names := by
  simp only [names, canonical, List.map_map]
  rfl

/-- A module is well-formed exactly if it was: no condition looks at the bits of a NaN. -/
@[simp] theorem wellFormed_canonical_iff : m.canonical.WellFormed ↔ m.WellFormed := by
  have functions : ∀ {P : Function → Prop},
      (∀ f ∈ m.canonical.functions, P f) ↔ ∀ f ∈ m.functions, P f.canonical := List.forall_mem_map
  have globals : ∀ {P : GlobalVariable → Prop},
      (∀ g ∈ m.canonical.globals, P g) ↔ ∀ g ∈ m.globals, P g.canonical := List.forall_mem_map
  have hrecords : m.canonical.recordIds = m.recordIds := rfl
  have hdebug : ∀ f : Function, f.canonical.debug = f.debug := fun _ => rfl
  constructor
  · rintro ⟨hnames, records, hfunctions, hglobals, functionSymbols, globalSymbols, debug, metadata,
      units⟩
    simp only [functions, globals, names_canonical, Function.wellFormed_canonical_iff,
      Function.symbols_canonical, Function.metadata_canonical, GlobalVariable.symbols_canonical,
      GlobalVariable.wellFormed_canonical_iff, hrecords, hdebug] at *
    exact ⟨hnames, records, hfunctions, hglobals, functionSymbols, globalSymbols, debug, metadata,
      units⟩
  · rintro ⟨hnames, records, hfunctions, hglobals, functionSymbols, globalSymbols, debug, metadata,
      units⟩
    constructor
    case records => exact records
    case units => exact units
    all_goals
      simpa only [functions, globals, names_canonical, Function.wellFormed_canonical_iff,
        Function.symbols_canonical, Function.metadata_canonical, GlobalVariable.symbols_canonical,
        GlobalVariable.wellFormed_canonical_iff, hrecords, hdebug]

end Module

end DeviceCode
