import DeviceCode.Proofs.Assembly.WellFormed
import DeviceCode.Proofs.Module.Equality

/-!
# What the names of a text stand for

Well-formedness collects the names that a function or a module uses.  Here it is followed to the
places where names are written: each operand, callee, initializer and debug record of a module that
is read says something that is there (`resolves_of_read`).
-/

namespace DeviceCode

variable {m : Module} {f : Function}

/-- What an operand names is there: a value or a block in the function, a symbol or a debug record
in the module.  A literal fits its type. -/
def Operand.Resolves (m : Module) (f : Function) : Operand → Prop
  | value name => name ∈ f.locals
  | symbol name => name ∈ m.names
  | constant type literal => literal.HasType type
  | string _ => True
  | block label => label ∈ f.labels
  | metadata id => id ∈ m.recordIds

/-- A direct callee is a symbol of the module, and an indirect one is a value of the function. -/
def Callee.Resolves (m : Module) (f : Function) : Callee → Prop
  | direct symbol => symbol ∈ m.names
  | indirect value => value ∈ f.locals

/-- An operation is no call, it does not begin with a reference to a debug record, and all of its
operands resolve. -/
def Action.Resolves (m : Module) (f : Function) : Action → Prop
  | call _ callee arguments => callee.Resolves m f ∧ ∀ o ∈ arguments, o.Resolves m f
  | operation opcode operands =>
    opcode ≠ "call" ∧ (∀ id rest, operands ≠ .metadata id :: rest) ∧ ∀ o ∈ operands, o.Resolves m f

structure Instruction.Resolves (m : Module) (f : Function) (i : Instruction) : Prop where
  action : i.action.Resolves m f
  attachments : ∀ a ∈ i.attachments, a.value.Resolves m f

/-- A function defines each of its names once, and all names that its instructions use. -/
structure Function.Resolves (m : Module) (f : Function) : Prop where
  locals : f.locals.Nodup
  labels : f.labels.Nodup
  instructions : ∀ i ∈ f.instructions, i.Resolves m f
  debug : ∀ id ∈ f.debug, id ∈ m.recordIds
  declaration : f.body = none → f.linkage = .external ∧ f.debug = none

mutual

/-- The symbols of an initializer are those of the module and its literals fit their types, at any
depth. -/
def Initializer.Resolves (m : Module) : Initializer → Prop
  | .scalar type literal => literal.HasType type
  | .symbol name => name ∈ m.names
  | .array elements => Initializer.AllResolve m elements
  | .string _ | .zero => True

def Initializer.AllResolve (m : Module) : List Initializer → Prop
  | [] => True
  | e :: es => e.Resolves m ∧ Initializer.AllResolve m es

end

structure GlobalVariable.Resolves (m : Module) (g : GlobalVariable) : Prop where
  initializer : ∀ init ∈ g.initializer, init.Resolves m
  declaration : g.initializer = none → g.linkage = .external

/-- A subprogram has its compile unit among the records. -/
def DebugEntry.Resolves (m : Module) : DebugEntry → Prop
  | compileUnit _ => True
  | subprogram _ unit => unit ∈ m.recordIds

/-- A module defines each of its names once, and it defines all names that its parts use. -/
structure Module.Resolves (m : Module) : Prop where
  names : m.names.Nodup
  records : m.recordIds.Nodup
  functions : ∀ f ∈ m.functions, f.Resolves m
  globals : ∀ g ∈ m.globals, g.Resolves m
  debugRecords : ∀ r ∈ m.debugRecords, r.entry.Resolves m

/-! ## Instructions -/

section Instructions

variable {i : Instruction}

/-- An operand of a function resolves, since the function and the module are well-formed. -/
theorem Instruction.resolves_of_mem_allOperands (hm : m.WellFormed) (hf : f ∈ m.functions)
    (hi : i ∈ f.instructions) (typed : ∀ o ∈ i.allOperands, o.IsTyped) {o : Operand}
    (ho : o ∈ i.allOperands) : o.Resolves m f := by
  have hfun := hm.functions f hf
  cases o with
  | value name =>
      exact hfun.values i hi name
        (List.mem_append_right _ (List.mem_filterMap.mpr ⟨_, ho, rfl⟩))
  | symbol name =>
      refine hm.functionSymbols f hf name (List.mem_flatMap.mpr ⟨i, hi, ?_⟩)
      rw [symbols_eq]
      exact List.mem_append_right _ (List.mem_filterMap.mpr ⟨_, ho, rfl⟩)
  | constant type literal => exact typed _ ho
  | string => exact trivial
  | block label => exact hfun.targets i hi label (List.mem_filterMap.mpr ⟨_, ho, rfl⟩)
  | metadata id =>
      refine hm.metadata f hf id (List.mem_flatMap.mpr ⟨i, hi, ?_⟩)
      rw [metadata_eq]
      exact List.mem_filterMap.mpr ⟨_, ho, rfl⟩

theorem Instruction.resolves_of_wellFormed (hm : m.WellFormed) (hf : f ∈ m.functions)
    (hi : i ∈ f.instructions) : i.Resolves m f := by
  have hw := (hm.functions f hf).instructions i hi
  have typed : ∀ o ∈ i.allOperands, o.IsTyped := by
    intro o ho
    rcases List.mem_append.mp ho with ho | ho
    · exact hw.action.typed o ho
    · obtain ⟨a, ha, rfl⟩ := List.mem_map.mp ho
      exact hw.attachments a ha
  have operands : ∀ o ∈ i.action.operands, o.Resolves m f := fun o ho =>
    resolves_of_mem_allOperands hm hf hi typed (List.mem_append_left _ ho)
  constructor
  case attachments =>
    exact fun a ha => resolves_of_mem_allOperands hm hf hi typed
      (List.mem_append_right _ (List.mem_map_of_mem ha))
  case action =>
    cases ha : i.action with
    | operation opcode rest =>
        rw [ha] at operands
        exact ⟨hw.action.notCall _ _ ha,
          fun id rest he => hw.action.firstOperand opcode id rest (he ▸ ha), operands⟩
    | call type callee arguments =>
        rw [ha] at operands
        refine ⟨?_, operands⟩
        cases callee with
        | direct symbol =>
            refine hm.functionSymbols f hf symbol (List.mem_flatMap.mpr ⟨i, hi, ?_⟩)
            simp [symbols_eq, directCallee?, ha, Action.directCallee?]
        | indirect value =>
            refine (hm.functions f hf).values i hi value ?_
            simp [values, ha, Action.calledValue?, Callee.value?]

end Instructions

/-! ## Initializers -/

mutual

/-- An initializer resolves if its leaves do; it goes by induction on the arrays. -/
theorem Initializer.resolves_of_leaves (init : Initializer)
    (typed : ∀ leaf ∈ init.leaves, leaf.IsTypedLeaf) (symbols : ∀ s ∈ init.symbols, s ∈ m.names) :
    init.Resolves m := by
  cases init with
  | scalar type literal => exact typed _ (List.mem_singleton_self _)
  | symbol name => exact symbols _ (List.mem_singleton_self _)
  | array elements => exact Initializer.allResolve_of_leaves elements typed symbols
  | string => exact trivial
  | zero => exact trivial

theorem Initializer.allResolve_of_leaves (elements : List Initializer)
    (typed : ∀ leaf ∈ leavesOfList elements, leaf.IsTypedLeaf)
    (symbols : ∀ s ∈ symbolsOfList elements, s ∈ m.names) : AllResolve m elements := by
  cases elements with
  | nil => exact trivial
  | cons e es =>
      rw [leavesOfList] at typed
      rw [symbolsOfList] at symbols
      exact ⟨e.resolves_of_leaves (fun leaf h => typed leaf (List.mem_append_left _ h))
          fun s h => symbols s (List.mem_append_left _ h),
        Initializer.allResolve_of_leaves es (fun leaf h => typed leaf (List.mem_append_right _ h))
          fun s h => symbols s (List.mem_append_right _ h)⟩

end

/-! ## Modules -/

namespace Module

/-- In a well-formed module every name that is written resolves. -/
theorem WellFormed.resolves (hm : m.WellFormed) : m.Resolves where
  names := hm.names
  records := hm.records
  functions f hf :=
    { locals := (hm.functions f hf).locals
      labels := (hm.functions f hf).labels
      instructions := fun _ => Instruction.resolves_of_wellFormed hm hf
      debug := hm.debug f hf
      declaration := (hm.functions f hf).declaration }
  globals g hg :=
    { initializer := fun init hi =>
        init.resolves_of_leaves ((hm.globals g hg).typed init hi) fun s hs =>
          hm.globalSymbols g hg s (by rw [GlobalVariable.symbols, hi]; exact hs)
      declaration := (hm.globals g hg).declaration }
  debugRecords r hr := by
    cases he : r.entry with
    | compileUnit => exact trivial
    | subprogram name unit => exact hm.units r hr unit (by rw [he]; rfl)

/-- In a module that is read, every name that is looked up is defined once, and every place that
uses a name says something that is there. -/
theorem resolves_of_read {text : String} (h : Module.read text = .ok m) : m.Resolves :=
  (wellFormed_of_read h).resolves

/-- Symbols, blocks and records used before they are defined, and a call through a value. -/
def forwardUses : Module where
  sourceName := none
  globals := [⟨"table", .internal, true, some (.array [.symbol "f", .array [.symbol "table"]])⟩]
  functions := [
    { Function.declaration "f" .void ["p"] with
      debug := some 1
      body := some [
        ⟨"entry", [⟨none, .operation "br" [.block "exit"], []⟩]⟩,
        ⟨"exit", [
          ⟨some "r", .call .i32 (.indirect "p") [.symbol "table"], [⟨"note", .metadata 0⟩]⟩,
          ⟨none, .operation "ret" [.value "r"], []⟩]⟩] }]
  debugRecords := [⟨1, .subprogram "f" 0⟩, ⟨0, .compileUnit "f.cpp"⟩]

/-- Symbols, blocks and debug records are used in front of their definitions here. -/
theorem forwardUses_resolves :
    Module.read ("define void @f(%p) !dbg !1 \x7b\nentry:\n  br ^exit\nexit:\n" ++
        "  %r = call i32 %p(@table) !note !0\n  ret %r\n\x7d\n\n" ++
        "@table = internal constant [@f, [@table]]\n\n" ++
        "!1 = subprogram \"f\" !0\n!0 = compile_unit \"f.cpp\"\n") = .ok forwardUses ∧
      forwardUses.Resolves := by
  have hr : Module.read ("define void @f(%p) !dbg !1 \x7b\nentry:\n  br ^exit\nexit:\n" ++
        "  %r = call i32 %p(@table) !note !0\n  ret %r\n\x7d\n\n" ++
        "@table = internal constant [@f, [@table]]\n\n" ++
        "!1 = subprogram \"f\" !0\n!0 = compile_unit \"f.cpp\"\n") = .ok forwardUses := by
    decide +kernel
  exact ⟨hr, resolves_of_read hr⟩

end Module

end DeviceCode
