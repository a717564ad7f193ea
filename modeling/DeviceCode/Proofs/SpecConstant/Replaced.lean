import Mathlib.Data.Option.Basic
import DeviceCode.Proofs.Assembly.RoundTrip
import DeviceCode.Proofs.SpecConstant.Rewritten
import DeviceCode.Proofs.SpecConstant.Zeros

/-!
# The module that a lowering to defaults leaves

A lowering to defaults takes the calls of symbolic intrinsics out of their blocks and puts the zero
of its type where the result of such a call is an operand.  The declarations of symbolic intrinsics
that are not mentioned any more are deleted.  Nothing else changes (`zeroed_of_lowering`).
-/

namespace DeviceCode

open SpecConstant

/-- The function gets the value from a call of a symbolic intrinsic, with a type. -/
def Function.GetsSymbolically (f : Function) (name : String) (type : ValueType) : Prop :=
  ∃ i ∈ f.instructions, i.result = some name ∧ ∃ callee arguments,
    i.action = .call type (.direct callee) arguments ∧ isSymbolicName callee

/-! ## What becomes of each part of a function -/

/-- Where an operand is the result of a symbolic call of the function, there is the zero of its type
instead. -/
inductive Operand.Zeroed (f : Function) : Operand → Operand → Prop where
  | result {name : String} {type : ValueType} : f.GetsSymbolically name type →
      Zeroed f (.value name) (.constant type (if type.isFloat then .float .zero else .int 0))
  | other {o : Operand} : (∀ name type, f.GetsSymbolically name type → o ≠ .value name) →
      Zeroed f o o

/-- Operands may become zeros; the result, the callee and the attachments stay. -/
inductive Instruction.Zeroed (f : Function) : Instruction → Instruction → Prop where
  | call {result : Option String} {type : ValueType} {callee : Callee}
      {arguments arguments' : List Operand} {attachments : List Attachment} :
      List.Forall₂ (Operand.Zeroed f) arguments arguments' →
      Zeroed f ⟨result, .call type callee arguments, attachments⟩
        ⟨result, .call type callee arguments', attachments⟩
  | operation {result : Option String} {opcode : String} {operands operands' : List Operand}
      {attachments : List Attachment} :
      List.Forall₂ (Operand.Zeroed f) operands operands' →
      Zeroed f ⟨result, .operation opcode operands, attachments⟩
        ⟨result, .operation opcode operands', attachments⟩

/-- The instructions but for symbolic calls, in order. -/
structure Block.Zeroed (f : Function) (b b' : Block) : Prop where
  label : b'.label = b.label
  instructions :
    List.Forall₂ (Instruction.Zeroed f) (b.instructions.filter (!·.isSymbolicCall)) b'.instructions

/-- The same blocks in order, if there is a body, and the same function else. -/
structure Function.Zeroed (f f' : Function) : Prop where
  header : f' = { f with body := f'.body }
  body : Option.Rel (List.Forall₂ (Block.Zeroed f)) f.body f'.body

/-! ## Several substitutions at once -/

theorem Action.mapOperands_id (a : Action) : a.mapOperands id = a := by
  cases a with
  | call => simp [mapOperands]
  | operation => simp [mapOperands]

theorem Action.mapOperands_mapOperands (g h : Operand → Operand) (a : Action) :
    (a.mapOperands g).mapOperands h = a.mapOperands (h ∘ g) := by
  cases a with
  | call => simp [mapOperands]
  | operation => simp [mapOperands]

/-- Replaces the uses of several values, one after the other. -/
def Operand.substituteAll (zeros : List (String × Operand)) (o : Operand) : Operand :=
  zeros.foldl (fun o z => substitute z.1 z.2 o) o

variable {zeros : List (String × Operand)}

/-- Several substitutions are one, which changes operands only. -/
theorem Instruction.substituteAll_eq (zeros : List (String × Operand)) (i : Instruction) :
    i.substituteAll zeros =
      { i with action := i.action.mapOperands (Operand.substituteAll zeros) } := by
  induction zeros generalizing i with
  | nil =>
      have hid : Operand.substituteAll [] = id := rfl
      rw [hid, Action.mapOperands_id]
      rfl
  | cons z zeros ih =>
      change (i.substitute z.1 z.2).substituteAll zeros = _
      rw [ih, Instruction.substitute, Action.mapOperands_mapOperands]
      rfl

namespace Operand

theorem substituteAll_of_ne {o : Operand} (h : ∀ z ∈ zeros, o ≠ .value z.1) :
    o.substituteAll zeros = o := by
  induction zeros with
  | nil => rfl
  | cons z zeros ih =>
      obtain ⟨hz, hzs⟩ := List.forall_mem_cons.mp h
      change (substitute z.1 z.2 o).substituteAll zeros = o
      rw [substitute_of_ne hz, ih hzs]

/-- A value that has a replacement is replaced, and nothing replaces what has come in its place. -/
theorem exists_substituteAll_value {name : String} (hzeros : ∀ z ∈ zeros, z.2.value? = none)
    (hname : name ∈ zeros.map (·.1)) :
    ∃ z ∈ zeros, z.1 = name ∧ (Operand.value name).substituteAll zeros = z.2 := by
  induction zeros with
  | nil => cases hname
  | cons z zeros ih =>
      obtain ⟨hz, hzs⟩ := List.forall_mem_cons.mp hzeros
      by_cases he : z.1 = name
      · refine ⟨z, List.mem_cons_self, he, ?_⟩
        have hvalue : ∀ y ∈ zeros, z.2 ≠ .value y.1 := by
          intro y _ hy
          rw [hy] at hz
          cases hz
        change (substitute z.1 z.2 (.value name)).substituteAll zeros = z.2
        rw [substitute, if_pos he.symm, substituteAll_of_ne hvalue]
      · rw [List.map_cons, List.mem_cons] at hname
        obtain ⟨y, hy, hyname, heq⟩ := ih hzs (hname.resolve_left (Ne.symm he))
        refine ⟨y, List.mem_cons_of_mem _ hy, hyname, ?_⟩
        change (substitute z.1 z.2 (.value name)).substituteAll zeros = y.2
        rw [substitute, if_neg (Ne.symm he), heq]

end Operand

/-! ## A function with zeros -/

/-- The zero of a type is a float or an integer, as the type is. -/
theorem SpecConstant.zeroOf?_eq_some {type : ValueType} {zero : Literal}
    (h : zeroOf? type = some zero) : zero = if type.isFloat then .float .zero else .int 0 := by
  cases type <;> cases h <;> rfl

section Zeroed

variable {f : Function}

/-- A result of a symbolic call is one of those that are deleted. -/
theorem Function.mem_symbolicResults_of_gets {name : String} {type : ValueType}
    (h : f.GetsSymbolically name type) : name ∈ f.symbolicResults := by
  obtain ⟨i, hi, hr, callee, arguments, ha, hs⟩ := h
  refine mem_symbolicResults.mpr ⟨i, hi, ?_, hr⟩
  rw [Instruction.isSymbolicCall, Instruction.directCallee?, ha]
  exact hs

/-- Each zero is for the result of a symbolic call, and of its type. -/
theorem Function.gets_of_mem_zeros {z : String × Operand} (hz : z ∈ f.zeros) :
    ∃ type : ValueType, f.GetsSymbolically z.1 type ∧
      z.2 = .constant type (if type.isFloat then .float .zero else .int 0) := by
  obtain ⟨i, hi, hzero⟩ := List.mem_filterMap.mp hz
  obtain ⟨hr, c, hc, he⟩ := zero?_eq_some_iff.mp hzero
  obtain ⟨callee, hs, ha⟩ := symbolicCall?_eq_some hc
  refine ⟨c.type, ⟨i, hi, hr, callee, _, ha, hs⟩, ?_⟩
  rw [← he, SymbolicCall.zeroOperand, zeroOf?_eq_some (zeroOf?_of_symbolicCall hc)]

/-- An operand becomes a zero exactly if it is the result of a symbolic call. -/
theorem Operand.zeroed_substituteAll (hc : ∀ i ∈ f.instructions, ∃ c, symbolicCall? i = .ok c)
    (o : Operand) : o.Zeroed f (o.substituteAll f.zeros) := by
  by_cases h : ∃ name ∈ f.zeros.map (·.1), o = .value name
  · obtain ⟨name, hname, rfl⟩ := h
    obtain ⟨z, hz, rfl, he⟩ :=
      exists_substituteAll_value (fun _ => Function.value?_of_mem_zeros) hname
    obtain ⟨type, hgets, hzero⟩ := Function.gets_of_mem_zeros hz
    rw [he, hzero]
    exact .result hgets
  · rw [substituteAll_of_ne fun z hz he => h ⟨z.1, List.mem_map_of_mem hz, he⟩]
    refine .other fun name type hgets he => h ⟨name, ?_, he⟩
    exact (Function.mem_zeros_names hc).mpr (Function.mem_symbolicResults_of_gets hgets)

theorem Instruction.zeroed_substituteAll
    (hc : ∀ i ∈ f.instructions, ∃ c, symbolicCall? i = .ok c) (i : Instruction) :
    i.Zeroed f (i.substituteAll f.zeros) := by
  have hoperands : ∀ os : List Operand,
      List.Forall₂ (Operand.Zeroed f) os (os.map (Operand.substituteAll f.zeros)) := by
    intro os
    rw [List.forall₂_map_right_iff, List.forall₂_same]
    exact fun o _ => Operand.zeroed_substituteAll hc o
  rw [substituteAll_eq]
  rcases i with ⟨result, action, attachments⟩
  cases action with
  | call type callee arguments => exact .call (hoperands arguments)
  | operation opcode operands => exact .operation (hoperands operands)

/-- Where all symbolic calls are well-formed, the function with zeros has a zero for each use of
their results, and else it is the same. -/
theorem Function.zeroed_withZeros (hc : ∀ i ∈ f.instructions, ∃ c, symbolicCall? i = .ok c) :
    f.Zeroed f.withZeros where
  header := withZeros_eq f
  body := by
    rw [withZeros, substituteZeros_eq, mapInstructions, withoutSymbolicCalls, Option.map_map]
    cases f.body with
    | none => exact .none
    | some blocks =>
        refine .some ?_
        rw [Function.comp_apply, List.map_map, List.forall₂_map_right_iff, List.forall₂_same]
        refine fun b _ => ⟨rfl, ?_⟩
        change List.Forall₂ _ _ ((b.instructions.filter _).map _)
        rw [List.forall₂_map_right_iff, List.forall₂_same]
        exact fun i _ => Instruction.zeroed_substituteAll hc i

/-- A result has one type, as it is that of one instruction. -/
theorem Function.gets_unique (h : f.locals.Nodup) {name : String} {type type' : ValueType}
    (hgets : f.GetsSymbolically name type) (hgets' : f.GetsSymbolically name type') :
    type = type' := by
  obtain ⟨i, hi, hr, _, _, ha, _⟩ := hgets
  obtain ⟨j, hj, hr', _, _, ha', _⟩ := hgets'
  rw [eq_of_result h hi hj hr hr', ha'] at ha
  cases ha
  rfl

end Zeroed

/-! ## The module -/

namespace Module

variable {m m' : Module}

/-- A lowering to defaults of a module that is read, if it changes anything, takes all symbolic
calls out, puts zeros for the uses of their results, which have one type each, and deletes the
declarations of symbolic intrinsics that have no use in what there is then. -/
theorem zeroed_of_lowering {text : String} (hr : Module.read text = .ok m)
    (h : m.lowerSpecConstants .default = (m', .ok true)) :
    (∀ f ∈ m.functions, ∀ name type type', f.GetsSymbolically name type →
      f.GetsSymbolically name type' → type = type') ∧
    ∃ rewritten : Module, rewritten = { m with functions := rewritten.functions } ∧
      List.Forall₂ Function.Zeroed m.functions rewritten.functions ∧
      m' = { rewritten with
        functions := rewritten.functions.filter fun f => ¬ rewritten.IsUnusedSymbolic f } := by
  have hw : m.WellFormed := wellFormed_of_read hr
  obtain ⟨hcalls, hm⟩ := lowerSpecConstants_default h
  have hs : m.hasSymbolicCall = true := (lowerSpecConstants_changed h).1.symm
  refine ⟨fun f hf _ _ _ => Function.gets_unique (hw.functions f hf).locals, m.withZeros, rfl,
    ?_, ?_⟩
  · change List.Forall₂ _ _ (m.functions.map Function.withZeros)
    rw [List.forall₂_map_right_iff, List.forall₂_same]
    exact fun f hf => Function.zeroed_withZeros (hcalls f hf)
  · have hnames : (m.withZeros.functions.map (·.name)).Nodup := by
      refine nodup_functions ?_
      rw [names_withZeros]
      exact hw.names
    rw [hm, if_pos hs]
    exact dropPrototypes_eq_filter hnames

/-- Uses of results before and after their calls, in operations, calls and attachments, in blocks of
their own; another function has a value of the same name, and a table mentions one intrinsic. -/
def scatteredUses : Module where
  sourceName := none
  globals := [
    ⟨"table", .external, false, some (.array [.symbol "__sycl_getSpecConstantValue_f64"])⟩]
  functions := [
    .declaration "__sycl_getSpecConstantValue" .i32 ["id"],
    .declaration "__sycl_getSpecConstantValue_f64" .f64 ["id"],
    { Function.declaration "f" .i32 ["b"] with
      body := some [
        ⟨"entry", [
          ⟨none, .operation "store" [.value "c", .value "b"], [⟨"note", .value "a"⟩]⟩,
          ⟨some "a", .call .i32 (.direct "__sycl_getSpecConstantValue") [.string "A"], []⟩]⟩,
        ⟨"next", [
          ⟨some "c", .call .f64 (.direct "__sycl_getSpecConstantValue_f64") [.string "C"], []⟩,
          ⟨some "d", .call .i32 (.indirect "a") [.value "a", .value "c", .value "b"], []⟩]⟩] },
    { Function.declaration "g" .i32 ["a"] with
      body := some [⟨"entry", [⟨none, .operation "ret" [.value "a"], []⟩]⟩] }]
  debugRecords := []

/-- The intrinsic that the table mentions stays. -/
theorem scatteredUses_zeroed :
    ∃ m' : Module, Module.read scatteredUses.text = .ok scatteredUses ∧
      scatteredUses.lowerSpecConstants .default = (m', .ok true) ∧
      (∃ rewritten : Module, rewritten = { scatteredUses with functions := rewritten.functions } ∧
        List.Forall₂ Function.Zeroed scatteredUses.functions rewritten.functions ∧
        m' = { rewritten with
          functions := rewritten.functions.filter fun f => ¬ rewritten.IsUnusedSymbolic f }) ∧
      m'.functions.map (·.name) = ["__sycl_getSpecConstantValue_f64", "f", "g"] ∧
      m'.instructions = [
        ⟨none, .operation "store" [.constant .f64 (.float .zero), .value "b"],
          [⟨"note", .value "a"⟩]⟩,
        ⟨some "d", .call .i32 (.indirect "a")
          [.constant .i32 (.int 0), .constant .f64 (.float .zero), .value "b"], []⟩,
        ⟨none, .operation "ret" [.value "a"], []⟩] := by
  have hr : Module.read scatteredUses.text = .ok scatteredUses := by
    have hw : scatteredUses.WellFormed := by decide +kernel
    rw [Module.read, readChars_text hw (by decide +kernel)]
    rfl
  have hl : scatteredUses.lowerSpecConstants .default =
      ((scatteredUses.lowerSpecConstants .default).1, .ok true) := by decide +kernel
  exact ⟨_, hr, hl, (zeroed_of_lowering hr hl).2, by decide +kernel, by decide +kernel⟩

end Module

end DeviceCode
