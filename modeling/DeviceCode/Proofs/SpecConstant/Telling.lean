import DeviceCode.Proofs.Assembly.RoundTrip
import DeviceCode.Proofs.SpecConstant.Recovery

/-!
# Modules that tell given numbers

Whatever the numbers and the string IDs are, there is a module that tells them: it has a lowered
call for each, and it can be written and read again, since a string ID is written with escapes
(`exists_read_specIds`).
-/

namespace DeviceCode

namespace Module

open SpecConstant

/-- A call that was lowered to a number. -/
def tellingCall (call : String × UInt32) : Instruction where
  result := none
  action := .call .i32 (.direct "__spirv_SpecConstant_i32")
    [.constant .i32 (.int (.ofInt call.2.toNat)), .constant .i32 (.int 0)]
  attachments := [⟨"sycl.spec_const", .string call.1⟩]

/-- A function with such calls. -/
def tellingFunction (calls : List (String × UInt32)) : Function :=
  { Function.declaration "f" .void [] with body := some [⟨"entry", calls.map tellingCall⟩] }

/-- A module with such a function. -/
def telling (calls : List (String × UInt32)) : Module where
  sourceName := none
  globals := []
  functions := [.declaration "__spirv_SpecConstant_i32" .i32 [], tellingFunction calls]
  debugRecords := []

variable (calls : List (String × UInt32))

@[simp] theorem loweredCall?_tellingCall (call : String × UInt32) :
    loweredCall? (tellingCall call) = some call :=
  loweredCall?_eq_some_iff.mpr ⟨_, _, _, rfl, by decide, rfl, rfl, idOfLiteral?_ofInt call.2⟩

@[simp] theorem names_telling : (telling calls).names = ["__spirv_SpecConstant_i32", "f"] := rfl

@[simp] theorem labels_tellingFunction : (tellingFunction calls).labels = ["entry"] := rfl

@[simp] theorem instructions_tellingFunction :
    (tellingFunction calls).instructions = calls.map tellingCall := by
  simp [tellingFunction, Function.instructions, Function.blocks]

/-- The module tells all numbers it is made for. -/
@[simp] theorem loweredCalls_telling : (telling calls).loweredCalls = calls := by
  have hinstructions : (telling calls).instructions = calls.map tellingCall := by
    rw [← instructions_tellingFunction]
    exact List.append_nil _
  rw [loweredCalls_eq, hinstructions, List.filterMap_map]
  simp

@[simp] theorem locals_tellingFunction : (tellingFunction calls).locals = [] := by
  rw [Function.locals, Function.results, instructions_tellingFunction]
  simp [tellingFunction, Function.declaration, tellingCall]

theorem wellFormed_tellingCall (call : String × UInt32) : (tellingCall call).WellFormed where
  action.typed := by
    rw [tellingCall, Action.operands, List.forall_mem_cons, List.forall_mem_singleton]
    exact ⟨⟨by decide, rfl⟩, ⟨by decide, rfl⟩⟩
  action.notCall _ _ h := by cases h
  action.firstOperand _ _ _ h := by cases h
  attachments := List.forall_mem_singleton.mpr trivial

theorem wellFormed_tellingFunction : (tellingFunction calls).WellFormed := by
  constructor
  case locals => rw [locals_tellingFunction]; exact List.nodup_nil
  case labels => exact List.nodup_singleton _
  case declaration => intro h; cases h
  all_goals
    rw [instructions_tellingFunction, List.forall_mem_map]
    intro call _
  case instructions => exact wellFormed_tellingCall call
  case values => exact List.forall_mem_nil _
  case targets => exact List.forall_mem_nil _

theorem wellFormed_telling : (telling calls).WellFormed := by
  have hsymbols : ∀ s ∈ (tellingFunction calls).symbols, s ∈ (telling calls).names := by
    rw [Function.symbols, instructions_tellingFunction, List.flatMap_map]
    intro s hs
    obtain ⟨call, -, hs⟩ := List.mem_flatMap.mp hs
    rw [List.mem_singleton.mp hs]
    exact List.mem_cons_self
  have hmetadata : ∀ id ∈ (tellingFunction calls).metadata, id ∈ (telling calls).recordIds := by
    rw [Function.metadata, instructions_tellingFunction, List.flatMap_map]
    intro id hid
    obtain ⟨call, -, hid⟩ := List.mem_flatMap.mp hid
    cases hid
  constructor
  case names => rw [names_telling]; decide
  case records => exact List.nodup_nil
  case globals => exact List.forall_mem_nil _
  case globalSymbols => exact List.forall_mem_nil _
  case units => exact List.forall_mem_nil _
  all_goals rw [telling, List.forall_mem_cons, List.forall_mem_singleton]
  case functions => exact ⟨by decide, wellFormed_tellingFunction calls⟩
  case functionSymbols => exact ⟨List.forall_mem_nil _, hsymbols⟩
  case debug =>
    have hnone : ∀ id ∈ (none : Option UInt32), id ∈ (telling calls).recordIds :=
      fun _ h => absurd h (Option.not_mem_none _)
    exact ⟨hnone, hnone⟩
  case metadata => exact ⟨List.forall_mem_nil _, hmetadata⟩

/-- Its names are words, whatever the string IDs are. -/
theorem wellNamed_telling : (telling calls).WellNamed := by
  have hkind : Assembly.IsKeyword "sycl.spec_const" := by decide
  constructor
  case names => rw [names_telling]; decide
  case functions =>
    rw [telling, List.forall_mem_cons, List.forall_mem_singleton]
    refine ⟨by decide, ?_⟩
    constructor
    case locals => rw [locals_tellingFunction]; exact List.forall_mem_nil _
    case labels => rw [labels_tellingFunction]; decide
    all_goals
      rw [instructions_tellingFunction, List.forall_mem_map]
      intro call _
    case opcodes => intro _ h; cases h
    case kinds => exact List.forall_mem_singleton.mpr hkind

@[simp] theorem canonical_telling : (telling calls).canonical = telling calls := by
  have hcalls : (calls.map tellingCall).map Instruction.canonical = calls.map tellingCall := by
    rw [List.map_map]
    rfl
  simp [telling, tellingFunction, canonical, Function.canonical, Block.canonical,
    Function.declaration, hcalls]

/-- Any numbers are those that some module tells. -/
theorem exists_read_specIds (ids : SpecIds) :
    ∃ text m, Module.read text = .ok m ∧ m.specIds = ids := by
  refine ⟨(telling ids.entries).text, telling ids.entries, ?_, ?_⟩
  · rw [Module.read, readChars_text (wellFormed_telling _) (wellNamed_telling _), canonical_telling]
    rfl
  · refine SortedMap.ext ?_
    rw [specIds, loweredCalls_telling]
    exact (SortedMap.entries_foldl_insert (m := .empty) ids.ascending (List.forall_mem_nil _)).trans
      (List.map_id _)

end Module

end DeviceCode
