import DeviceCode.Proofs.Assembly.WellFormed
import DeviceCode.Proofs.Cleanup.Liveness
import DeviceCode.Proofs.Module.Equality
import DeviceCode.Proofs.SpecConstant.Default

/-!
# Uses of deleted results

A lowering to defaults puts zeros for the results of the calls it deletes, but it looks for them
among operands only.  A result that is called or attached to an instruction is still there after its
call is gone, and this is the one way in which a value can lose its definition.
-/

namespace DeviceCode

/-! ## Substitution -/

/-- A value that is still an operand was one, and it was not substituted. -/
theorem Operand.substitute_eq_value_iff {o new : Operand} {name v : String}
    (hn : new.value? = none) : substitute name new o = .value v ↔ o = .value v ∧ v ≠ name := by
  cases o with
  | value n =>
      by_cases he : n = name
      · subst he
        rw [substitute, if_pos rfl]
        constructor
        · rintro rfl
          cases hn
        · rintro ⟨h, hne⟩
          cases h
          exact absurd rfl hne
      · rw [substitute, if_neg he]
        constructor
        · intro h
          cases h
          exact ⟨rfl, he⟩
        · exact fun h => h.1
  | _ => simp [substitute]

theorem Operand.substitute_of_ne {o new : Operand} {name : String} (h : o ≠ .value name) :
    substitute name new o = o := by
  cases o with
  | value n => exact if_neg fun he => h (by rw [he])
  | _ => rfl

namespace Instruction

variable {i : Instruction} {name v : String} {new : Operand}

@[simp] theorem operands_substitute :
    (i.substitute name new).operands = i.operands.map (Operand.substitute name new) := by
  rcases i with ⟨result, action, attachments⟩
  cases action with
  | call => rfl
  | operation => rfl

/-- What is called and what is attached is not substituted. -/
@[simp] theorem outerValues_substitute : (i.substitute name new).outerValues = i.outerValues := by
  rcases i with ⟨result, action, attachments⟩
  cases action with
  | call => rfl
  | operation => rfl

theorem value_mem_operands_substitute (hn : new.value? = none) :
    .value v ∈ (i.substitute name new).operands ↔ .value v ∈ i.operands ∧ v ≠ name := by
  rw [operands_substitute, List.mem_map]
  constructor
  · rintro ⟨o, ho, he⟩
    obtain ⟨rfl, hne⟩ := (Operand.substitute_eq_value_iff hn).mp he
    exact ⟨ho, hne⟩
  · rintro ⟨ho, hne⟩
    exact ⟨_, ho, (Operand.substitute_eq_value_iff hn).mpr ⟨rfl, hne⟩⟩

/-- Replaces the uses of several values, one after the other. -/
def substituteAll (zeros : List (String × Operand)) (i : Instruction) : Instruction :=
  zeros.foldl (fun i z => i.substitute z.1 z.2) i

variable {zeros : List (String × Operand)}

@[simp] theorem result_substituteAll (zeros : List (String × Operand)) (i : Instruction) :
    (i.substituteAll zeros).result = i.result := by
  induction zeros generalizing i with
  | nil => rfl
  | cons z zeros ih => exact ih _

@[simp] theorem outerValues_substituteAll (zeros : List (String × Operand)) (i : Instruction) :
    (i.substituteAll zeros).outerValues = i.outerValues := by
  induction zeros generalizing i with
  | nil => rfl
  | cons z zeros ih => exact (ih _).trans outerValues_substitute

/-- After several substitutions the values among the operands are those that none was for. -/
theorem value_mem_operands_substituteAll (hz : ∀ z ∈ zeros, z.2.value? = none) :
    .value v ∈ (i.substituteAll zeros).operands ↔
      .value v ∈ i.operands ∧ v ∉ zeros.map (·.1) := by
  induction zeros generalizing i with
  | nil => simp [substituteAll]
  | cons z zeros ih =>
      obtain ⟨hz, hzs⟩ := List.forall_mem_cons.mp hz
      change .value v ∈ ((i.substitute z.1 z.2).substituteAll zeros).operands ↔ _
      rw [ih hzs, value_mem_operands_substitute hz, List.map_cons, List.mem_cons, not_or, and_assoc]

/-- A value is used as an operand, or it is called or attached. -/
theorem mem_values_iff_operands :
    v ∈ i.values ↔ .value v ∈ i.operands ∨ v ∈ i.outerValues := by
  have ho : v ∈ i.operands.filterMap Operand.value? ↔ .value v ∈ i.operands := by
    rw [List.mem_filterMap]
    constructor
    · rintro ⟨o, ho, hv⟩
      cases o with
      | value n =>
          cases hv
          exact ho
      | _ => cases hv
    · exact fun ho => ⟨_, ho, rfl⟩
  rw [mem_values_iff, ho]

end Instruction

/-! ## The values of a function with zeros -/

namespace Function

open SpecConstant

variable {f : Function} {v : String}

/-- The results of a function's symbolic calls. -/
def symbolicResults (f : Function) : List String :=
  (f.instructions.filter Instruction.isSymbolicCall).filterMap (·.result)

@[simp] theorem instructions_mapInstructions (g : Instruction → Instruction) (f : Function) :
    (f.mapInstructions g).instructions = f.instructions.map g := by
  cases hb : f.body with
  | none => simp [instructions, blocks, mapInstructions, hb]
  | some bs => simp [instructions, blocks, mapInstructions, hb, List.flatMap_map, List.map_flatMap]

/-- Several substitutions go through the instructions one by one. -/
@[simp] theorem instructions_substituteZeros (zeros : List (String × Operand)) (f : Function) :
    (substituteZeros zeros f).instructions =
      f.instructions.map (Instruction.substituteAll zeros) := by
  induction zeros generalizing f with
  | nil => exact (List.map_id _).symm
  | cons z zeros ih =>
      change (substituteZeros zeros (f.mapInstructions _)).instructions = _
      rw [ih, instructions_mapInstructions, List.map_map]
      rfl

@[simp] theorem parameters_substituteZeros (zeros : List (String × Operand)) (f : Function) :
    (substituteZeros zeros f).parameters = f.parameters := by
  induction zeros generalizing f with
  | nil => rfl
  | cons z zeros ih => exact ih _

@[simp] theorem name_substituteZeros (zeros : List (String × Operand)) (f : Function) :
    (substituteZeros zeros f).name = f.name := by
  induction zeros generalizing f with
  | nil => rfl
  | cons z zeros ih => exact ih _

@[simp] theorem instructions_withoutSymbolicCalls (f : Function) :
    f.withoutSymbolicCalls.instructions = f.instructions.filter (!·.isSymbolicCall) := by
  cases hb : f.body with
  | none => simp [instructions, blocks, withoutSymbolicCalls, hb]
  | some bs =>
      simp [instructions, blocks, withoutSymbolicCalls, hb, List.flatMap_map, List.filter_flatMap,
        Block.withoutSymbolicCalls]

/-- The instructions of a function with zeros are those that are not symbolic, with zeros in
them. -/
theorem instructions_withZeros (f : Function) :
    f.withZeros.instructions =
      (f.instructions.filter (!·.isSymbolicCall)).map (Instruction.substituteAll f.zeros) := by
  rw [withZeros, instructions_substituteZeros, instructions_withoutSymbolicCalls]

theorem mem_instructions_withZeros {i : Instruction} :
    i ∈ f.withZeros.instructions ↔
      ∃ j ∈ f.instructions, j.isSymbolicCall = false ∧ j.substituteAll f.zeros = i := by
  simp [instructions_withZeros, and_assoc]

@[simp] theorem parameters_withZeros (f : Function) : f.withZeros.parameters = f.parameters :=
  parameters_substituteZeros _ _

@[simp] theorem body_substituteZeros (zeros : List (String × Operand)) (f : Function) :
    (substituteZeros zeros f).body = none ↔ f.body = none := by
  induction zeros generalizing f with
  | nil => rfl
  | cons z zeros ih => exact (ih _).trans (by simp [mapInstructions])

@[simp] theorem body_withZeros (f : Function) : f.withZeros.body = none ↔ f.body = none :=
  (body_substituteZeros _ _).trans (by simp [withoutSymbolicCalls])

@[simp] theorem name_withZeros (f : Function) : f.withZeros.name = f.name :=
  name_substituteZeros _ _

/-- The values of a function are its parameters and its results. -/
theorem mem_locals : v ∈ f.locals ↔ v ∈ f.parameters ∨ ∃ i ∈ f.instructions, i.result = some v := by
  simp [locals, results]

theorem mem_symbolicResults :
    v ∈ f.symbolicResults ↔ ∃ i ∈ f.instructions, i.isSymbolicCall ∧ i.result = some v := by
  simp [symbolicResults, and_assoc]

/-- The values that are left are parameters and results of other instructions. -/
theorem mem_locals_withZeros :
    v ∈ f.withZeros.locals ↔ v ∈ f.parameters ∨
      ∃ i ∈ f.instructions, i.isSymbolicCall = false ∧ i.result = some v := by
  rw [mem_locals, parameters_withZeros]
  refine or_congr_right ?_
  constructor
  · rintro ⟨_, hz, hv⟩
    obtain ⟨i, hi, hs, rfl⟩ := mem_instructions_withZeros.mp hz
    rw [Instruction.result_substituteAll] at hv
    exact ⟨i, hi, hs, hv⟩
  · rintro ⟨i, hi, hs, hv⟩
    refine ⟨_, mem_instructions_withZeros.mpr ⟨i, hi, hs, rfl⟩, ?_⟩
    rwa [Instruction.result_substituteAll]

/-- Two instructions with one result are one. -/
theorem eq_of_result (h : f.locals.Nodup) {i j : Instruction} (hi : i ∈ f.instructions)
    (hj : j ∈ f.instructions) (hiv : i.result = some v) (hjv : j.result = some v) : i = j := by
  have hr : f.results.Nodup := (List.nodup_append.mp h).2.1
  exact eq_of_nodup_filterMap hr hi hj hiv hjv

/-- Of the values of a function, those that lose their definition are the symbolic results. -/
theorem mem_locals_withZeros_iff (h : f.locals.Nodup) (hv : v ∈ f.locals) :
    v ∈ f.withZeros.locals ↔ v ∉ f.symbolicResults := by
  rw [mem_locals_withZeros, mem_symbolicResults]
  constructor
  · rintro (hp | ⟨i, hi, hs, hiv⟩) ⟨j, hj, hjs, hjv⟩
    · have hr : v ∈ f.results := List.mem_filterMap.mpr ⟨j, hj, hjv⟩
      exact (List.nodup_append.mp h).2.2 v hp v hr rfl
    · rw [eq_of_result h hi hj hiv hjv, hjs] at hs
      cases hs
  · intro hn
    rcases mem_locals.mp hv with hp | ⟨i, hi, hiv⟩
    · exact .inl hp
    · cases hs : i.isSymbolicCall with
      | false => exact .inr ⟨i, hi, hs, hiv⟩
      | true => exact absurd ⟨i, hi, hs, hiv⟩ hn

theorem value?_of_mem_zeros {z : String × Operand} (hz : z ∈ f.zeros) : z.2.value? = none := by
  obtain ⟨i, _, hi⟩ := List.mem_filterMap.mp hz
  obtain ⟨_, c, _, hc⟩ := zero?_eq_some_iff.mp hi
  rw [← hc]
  rfl

/-- Where all symbolic calls are well-formed, there is a zero for each of their results. -/
theorem mem_zeros_names (hc : ∀ i ∈ f.instructions, ∃ c, symbolicCall? i = .ok c) :
    v ∈ f.zeros.map (·.1) ↔ v ∈ f.symbolicResults := by
  rw [mem_symbolicResults, List.mem_map]
  constructor
  · rintro ⟨⟨_, zero⟩, hz, rfl⟩
    obtain ⟨i, hi, hz⟩ := List.mem_filterMap.mp hz
    obtain ⟨hv, c, hc, _⟩ := zero?_eq_some_iff.mp hz
    exact ⟨i, hi, isSymbolicCall_eq hc, hv⟩
  · rintro ⟨i, hi, hs, hv⟩
    obtain ⟨c, hc⟩ := hc i hi
    rw [isSymbolicCall_eq hc] at hs
    obtain ⟨c, rfl⟩ := Option.isSome_iff_exists.mp hs
    have hz : zero? i = some (v, c.zeroOperand) := zero?_eq_some_iff.mpr ⟨hv, c, hc, rfl⟩
    exact ⟨_, List.mem_filterMap.mpr ⟨i, hi, hz⟩, rfl⟩

/-- Operands only use what is still defined. -/
theorem operands_withZeros (hw : f.WellFormed)
    (hc : ∀ i ∈ f.instructions, ∃ c, symbolicCall? i = .ok c) {i : Instruction}
    (hi : i ∈ f.withZeros.instructions) (hv : .value v ∈ i.operands) :
    v ∈ f.withZeros.locals := by
  obtain ⟨j, hj, _, rfl⟩ := mem_instructions_withZeros.mp hi
  rw [Instruction.value_mem_operands_substituteAll fun _ => value?_of_mem_zeros,
    mem_zeros_names hc] at hv
  have hl : v ∈ f.locals := hw.values j hj v (Instruction.mem_values_iff_operands.mpr (.inl hv.1))
  exact (mem_locals_withZeros_iff hw.locals hl).mpr hv.2

/-- All values are still defined exactly if no symbolic result is called or attached. -/
theorem values_withZeros_iff (hw : f.WellFormed)
    (hc : ∀ i ∈ f.instructions, ∃ c, symbolicCall? i = .ok c) :
    (∀ i ∈ f.withZeros.instructions, ∀ v ∈ i.values, v ∈ f.withZeros.locals) ↔
      ∀ i ∈ f.instructions, i.isSymbolicCall = false → ∀ v ∈ i.outerValues,
        v ∉ f.symbolicResults := by
  have houter : ∀ i ∈ f.instructions, ∀ v ∈ i.outerValues,
      (v ∈ f.withZeros.locals ↔ v ∉ f.symbolicResults) := by
    intro i hi v hv
    exact mem_locals_withZeros_iff hw.locals
      (hw.values i hi v (Instruction.mem_values_iff_operands.mpr (.inr hv)))
  constructor
  · intro h i hi hs v hv
    rw [← houter i hi v hv]
    refine h _ (mem_instructions_withZeros.mpr ⟨i, hi, hs, rfl⟩) v ?_
    rw [Instruction.mem_values_iff_operands, Instruction.outerValues_substituteAll]
    exact .inr hv
  · intro h i hi v hv
    rcases Instruction.mem_values_iff_operands.mp hv with ho | ho
    · exact operands_withZeros hw hc hi ho
    · obtain ⟨j, hj, hs, rfl⟩ := mem_instructions_withZeros.mp hi
      rw [Instruction.outerValues_substituteAll] at ho
      exact (houter j hj v ho).mpr (h j hj hs v ho)

end Function

/-! ## The values of a module with zeros -/

namespace Module

open SpecConstant

variable {m m' : Module} {changed : Bool}

/-- A lowering to defaults leaves the functions with zeros, but for declarations. -/
theorem forall_functions_default_iff (hw : m.WellFormed)
    (h : m.lowerSpecConstants .default = (m', .ok changed)) (hs : m.hasSymbolicCall)
    {P : Function → Prop} (hP : ∀ f : Function, f.body = none → P f) :
    (∀ f ∈ m'.functions, P f) ↔ ∀ f ∈ m.functions, P f.withZeros := by
  obtain ⟨_, hm⟩ := lowerSpecConstants_default h
  rw [hm, if_pos hs]
  constructor
  · intro hall f hf
    by_cases hb : f.withZeros.body = none
    · exact hP _ hb
    · refine hall _ (mem_dropPrototypes_of_body ?_ (List.mem_map_of_mem hf) hb)
      have hn : (m.functions.map Function.withZeros).map (·.name) = m.functions.map (·.name) := by
        rw [List.map_map]
        exact List.map_congr_left fun f _ => Function.name_withZeros f
      rw [names, hn]
      exact hw.names
  · intro hall _ hmem
    obtain ⟨f, hf, rfl⟩ := List.mem_map.mp (mem_of_mem_dropPrototypes hmem)
    exact hall f hf

/-- After a lowering to defaults every value is defined exactly if no instruction that stays calls
the result of a symbolic call or has it attached.  Values among operands always are. -/
theorem values_defined_after_default_iff {text : String} (hr : Module.read text = .ok m)
    (h : m.lowerSpecConstants .default = (m', .ok changed)) :
    ((∀ f ∈ m'.functions, ∀ i ∈ f.instructions, ∀ v ∈ i.values, v ∈ f.locals) ↔
      ∀ f ∈ m.functions, ∀ i ∈ f.instructions, i.isSymbolicCall = false →
        ∀ v ∈ i.outerValues, v ∉ f.symbolicResults) ∧
    ∀ f ∈ m'.functions, ∀ i ∈ f.instructions, ∀ v, .value v ∈ i.operands → v ∈ f.locals := by
  have hw : m.WellFormed := wellFormed_of_read hr
  cases hs : m.hasSymbolicCall with
  | false =>
      obtain ⟨hc, hsame⟩ := lowerSpecConstants_changed h
      obtain rfl := hsame (hc.trans hs)
      refine ⟨iff_of_true ?_ ?_, ?_⟩
      · exact fun f hf => (hw.functions f hf).values
      · intro f hf i _ _ v _ hv
        obtain ⟨j, hj, hjs, _⟩ := Function.mem_symbolicResults.mp hv
        have hany : m'.hasSymbolicCall = true :=
          List.any_eq_true.mpr ⟨f, hf, List.any_eq_true.mpr ⟨j, hj, hjs⟩⟩
        rw [hany] at hs
        cases hs
      · intro f hf i hi v hv
        exact (hw.functions f hf).values i hi v (Instruction.mem_values_iff_operands.mpr (.inl hv))
  | true =>
      obtain ⟨hcalls, _⟩ := lowerSpecConstants_default h
      constructor
      · rw [forall_functions_default_iff hw h hs
          fun f hb => by simp [Function.instructions_of_none hb]]
        exact forall₂_congr fun f hf =>
          Function.values_withZeros_iff (hw.functions f hf) (hcalls f hf)
      · rw [forall_functions_default_iff hw h hs
          fun f hb => by simp [Function.instructions_of_none hb]]
        intro f hf i hi v hv
        exact Function.operands_withZeros (hw.functions f hf) (hcalls f hf) hi hv

/-- The result of a symbolic call that is attached to another instruction. -/
def attachedResult : Module where
  sourceName := none
  globals := []
  functions := [
    .declaration "__sycl_getSpecConstantValue" .i32 ["id"],
    { Function.declaration "f" .void [] with
      body := some [⟨"entry", [
        ⟨some "a", .call .i32 (.direct "__sycl_getSpecConstantValue") [.string "A"], []⟩,
        ⟨none, .operation "ret" [], [⟨"note", .value "a"⟩]⟩]⟩] }]
  debugRecords := []

/-- The call is deleted and the value that is attached has no definition any more. -/
theorem attached_result_undefined :
    ∃ m', Module.read ("declare i32 @__sycl_getSpecConstantValue(%id)\n\n" ++
        "define void @f() \x7b\nentry:\n  %a = call i32 @__sycl_getSpecConstantValue(\"A\")\n" ++
        "  ret !note %a\n\x7d\n") = .ok attachedResult ∧
      attachedResult.lowerSpecConstants .default = (m', .ok true) ∧
      ¬ ∀ f ∈ m'.functions, ∀ i ∈ f.instructions, ∀ v ∈ i.values, v ∈ f.locals := by
  have hr : Module.read ("declare i32 @__sycl_getSpecConstantValue(%id)\n\n" ++
        "define void @f() \x7b\nentry:\n  %a = call i32 @__sycl_getSpecConstantValue(\"A\")\n" ++
        "  ret !note %a\n\x7d\n") = .ok attachedResult := by decide +kernel
  have hl : attachedResult.lowerSpecConstants .default =
      ((attachedResult.lowerSpecConstants .default).1, .ok true) := by decide +kernel
  refine ⟨_, hr, hl, ?_⟩
  rw [(values_defined_after_default_iff hr hl).1]
  intro hall
  have hf : attachedResult.functions[1] ∈ attachedResult.functions := List.getElem_mem _
  have hsymbolic : "a" ∈ attachedResult.functions[1].symbolicResults := by decide +kernel
  exact hall _ hf ⟨none, .operation "ret" [], [⟨"note", .value "a"⟩]⟩ (by decide) (by decide) "a"
    (by decide) hsymbolic

end Module

end DeviceCode
