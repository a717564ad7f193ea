import DeviceCode.Assembly.Reading
import DeviceCode.Proofs.Assembly.WellFormed
import DeviceCode.Proofs.Cleanup.Liveness
import DeviceCode.Proofs.Module.Equality
import DeviceCode.Proofs.SpecConstant.Numbers

/-!
# Names after a lowering to numbers

A lowering declares the intrinsics that its calls need and deletes symbolic ones that are no longer
needed.  Whatever is mentioned afterwards has a function or a global variable, and lowered calls
call functions.  Functions keep names of their own; but an intrinsic is looked for among the
functions only, so that its declaration can take the name of a global variable
(`names_of_lowering_iff`).
-/

namespace DeviceCode

open SpecConstant

namespace SpecConstant

/-- A lowered call mentions its intrinsic, and what the symbolic one mentioned. -/
theorem symbols_lower {c : SymbolicCall} {id : UInt32} {i : Instruction} {s : String}
    (h : s ∈ (c.lower id i).symbols) : s = numberedName c.type ∨ s ∈ i.symbols := by
  simp only [Instruction.symbols, SymbolicCall.lower, SymbolicCall.zeroOperand,
    Instruction.directCallee?, Instruction.operands, Action.directCallee?, Action.operands,
    List.filterMap_append, List.filterMap_cons, List.filterMap_nil, Operand.symbol?,
    Option.toList_some, List.append_nil, List.mem_append, List.mem_singleton] at h ⊢
  exact h.imp_right .inr

/-- An instruction with its number mentions what it mentioned without, and perhaps an intrinsic. -/
theorem symbols_numbered {number : String → UInt32} {i : Instruction} {s : String}
    (h : s ∈ (numbered number i).symbols) :
    s ∈ i.symbols ∨ ∃ type, symbolicType? i = some type ∧ numberedName type = s := by
  unfold numbered at h
  split at h
  case h_1 c hc =>
    rcases symbols_lower h with rfl | h
    · exact .inr ⟨c.type, symbolicType?_eq_some_iff.mpr ⟨c, hc, rfl⟩, rfl⟩
    · exact .inl h
  case h_2 => exact .inl h

end SpecConstant

namespace Module

variable {m m' : Module} {changed : Bool} {s : String} {types : List ValueType}

/-! ## One declaration -/

@[simp] theorem globals_declareNumbered (m : Module) (type : ValueType) :
    (m.declareNumbered type).globals = m.globals := by
  unfold declareNumbered
  split
  · rfl
  · rfl

theorem mem_functions_declareNumbered {f : Function} {type : ValueType}
    (h : f ∈ (m.declareNumbered type).functions) : f ∈ m.functions ∨ f.body = none := by
  unfold declareNumbered at h
  split at h
  · exact .inl h
  · refine (List.mem_append.mp h).imp_right fun h => ?_
    rw [List.mem_singleton.mp h]
    rfl

/-- A declaration adds the name of its intrinsic, or finds it there. -/
theorem mem_functionNames_declareNumbered {type : ValueType} :
    s ∈ (m.declareNumbered type).functions.map (·.name) ↔
      s ∈ m.functions.map (·.name) ∨ s = numberedName type := by
  unfold declareNumbered
  split
  case isTrue h =>
    refine ⟨.inl, fun hs => hs.elim id ?_⟩
    rintro rfl
    simpa [function?] using h
  case isFalse =>
    rw [List.map_append, List.mem_append, List.map_singleton, List.mem_singleton]
    rfl

/-- An intrinsic is declared only if no function has its name. -/
theorem nodup_functionNames_declareNumbered (h : (m.functions.map (·.name)).Nodup)
    (type : ValueType) : ((m.declareNumbered type).functions.map (·.name)).Nodup := by
  unfold declareNumbered
  split
  case isTrue => exact h
  case isFalse hn =>
    rw [List.map_append, List.map_singleton, List.nodup_append]
    refine ⟨h, List.nodup_singleton _, ?_⟩
    rintro s hs t ht rfl
    obtain ⟨f, hf, he⟩ := List.mem_map.mp hs
    refine hn (List.find?_isSome.mpr ⟨f, hf, ?_⟩)
    rw [beq_iff_eq, he, List.mem_singleton.mp ht]
    rfl

/-! ## All declarations -/

@[simp] theorem globals_foldl_declareNumbered (types : List ValueType) (m : Module) :
    (types.foldl declareNumbered m).globals = m.globals := by
  induction types generalizing m with
  | nil => rfl
  | cons type types ih => exact (ih _).trans (globals_declareNumbered m type)

theorem mem_functions_foldl_declareNumbered {f : Function}
    (h : f ∈ (types.foldl declareNumbered m).functions) : f ∈ m.functions ∨ f.body = none := by
  induction types generalizing m with
  | nil => exact .inl h
  | cons type types ih => exact (ih h).elim mem_functions_declareNumbered .inr

theorem mem_functionNames_foldl_declareNumbered :
    s ∈ (types.foldl declareNumbered m).functions.map (·.name) ↔
      s ∈ m.functions.map (·.name) ∨ ∃ type ∈ types, numberedName type = s := by
  induction types generalizing m with
  | nil => simp
  | cons type types ih =>
      rw [List.foldl_cons, ih, mem_functionNames_declareNumbered, or_assoc,
        List.exists_mem_cons_iff]
      exact or_congr_right (or_congr_left eq_comm)

theorem nodup_functionNames_foldl_declareNumbered (h : (m.functions.map (·.name)).Nodup) :
    ((types.foldl declareNumbered m).functions.map (·.name)).Nodup := by
  induction types generalizing m with
  | nil => exact h
  | cons type types ih => exact ih (nodup_functionNames_declareNumbered h type)

/-- Functions that are added say nothing. -/
theorem isReferenced_of_foldl_declareNumbered
    (h : (types.foldl declareNumbered m).isReferenced s) : m.isReferenced s := by
  rw [isReferenced_iff, globals_foldl_declareNumbered] at h
  rw [isReferenced_iff]
  refine h.imp_left ?_
  rintro ⟨f, hf, hs⟩
  rcases mem_functions_foldl_declareNumbered hf with hf | hb
  · exact ⟨f, hf, hs⟩
  · rw [Function.symbols, Function.instructions_of_none hb] at hs
    cases hs

/-! ## Mentions -/

/-- What is mentioned with numbers was mentioned before, or is an intrinsic for a number. -/
theorem isReferenced_of_withNumbers {number : String → UInt32}
    (h : isReferenced { m with functions := m.functions.map (Function.withNumbers number) } s) :
    m.isReferenced s ∨ ∃ type ∈ m.symbolicTypes, numberedName type = s := by
  rw [isReferenced_iff] at h
  rcases h with ⟨f', hf', hs⟩ | hg
  · obtain ⟨f, hf, rfl⟩ := List.mem_map.mp hf'
    rw [Function.symbols, Function.instructions_withNumbers, List.flatMap_map] at hs
    obtain ⟨i, hi, hs⟩ := List.mem_flatMap.mp hs
    rcases symbols_numbered hs with hs | ⟨type, ht, rfl⟩
    · exact .inl (isReferenced_iff.mpr (.inl ⟨f, hf, List.mem_flatMap.mpr ⟨i, hi, hs⟩⟩))
    · obtain ⟨c, hc, rfl⟩ := symbolicType?_eq_some_iff.mp ht
      have hi : i ∈ m.instructions := List.mem_flatMap.mpr ⟨f, hf, hi⟩
      exact .inr ⟨c.type, mem_symbolicTypes.mpr ⟨i, hi, c, hc, rfl⟩, rfl⟩
  · exact .inl (isReferenced_iff.mpr (.inr hg))

theorem isReferenced_of_directCallee? {i : Instruction} (hi : i ∈ m.instructions)
    (hs : i.directCallee? = some s) : m.isReferenced s := by
  obtain ⟨f, hf, hi⟩ := List.mem_flatMap.mp hi
  refine isReferenced_iff.mpr (.inl ⟨f, hf, List.mem_flatMap.mpr ⟨i, hi, ?_⟩⟩)
  simp [Instruction.symbols, hs]

/-- Without symbolic calls there is no type to declare an intrinsic for. -/
theorem symbolicTypes_eq_nil (h : m.hasSymbolicCall = false) : m.symbolicTypes = [] := by
  rw [List.eq_nil_iff_forall_not_mem]
  intro type ht
  obtain ⟨i, hi, c, hc, _⟩ := mem_symbolicTypes.mp ht
  have hnot := isSymbolicCall_eq_false h hi
  rw [isSymbolicCall_eq hc] at hnot
  cases hnot

/-! ## The lowered module -/

/-- What a lowering to numbers does to the names of a module. -/
structure NamesLowered (m m' : Module) : Prop where
  globals : m'.globals = m.globals
  functions : (m.functions.map (·.name)).Nodup → (m'.functions.map (·.name)).Nodup
  names : ∀ s ∈ m'.functions.map (·.name),
    s ∈ m.functions.map (·.name) ∨ ∃ type ∈ m.symbolicTypes, numberedName type = s
  mentions : (∀ s, m.isReferenced s → s ∈ m.names) → ∀ s, m'.isReferenced s → s ∈ m'.names
  intrinsics : ∀ type ∈ m.symbolicTypes, m'.isReferenced (numberedName type) →
    ∃ f ∈ m'.functions, f.name = numberedName type

/-- What a lowering to numbers does to the names, in one place. -/
theorem namesLowered_of_lowering (h : m.lowerSpecConstants .runtime = (m', .ok changed)) :
    NamesLowered m m' := by
  obtain ⟨_, n, _, hm⟩ := lowerSpecConstants_runtime h
  cases hs : m.hasSymbolicCall with
  | false =>
      rw [hs, if_neg nofun] at hm
      subst hm
      exact {
        globals := rfl
        functions := id
        names := fun _ => .inl
        mentions := id
        intrinsics := by
          rw [symbolicTypes_eq_nil hs]
          exact nofun }
  | true =>
      rw [hs, if_pos rfl] at hm
      subst hm
      have hnames : (m.functions.map (Function.withNumbers n.number)).map (·.name) =
          m.functions.map (·.name) := by
        rw [List.map_map]
        rfl
      exact {
        globals := globals_foldl_declareNumbered _ _
        functions := fun hf => by
          refine List.Nodup.sublist (List.filter_sublist.map _)
            (nodup_functionNames_foldl_declareNumbered ?_)
          dsimp only
          rwa [hnames]
        names := by
          intro s hs
          obtain ⟨f, hf, rfl⟩ := List.mem_map.mp hs
          rw [← hnames]
          exact mem_functionNames_foldl_declareNumbered.mp
            (List.mem_map_of_mem (mem_of_mem_dropPrototypes hf))
        mentions := by
          intro hm s hs
          have hs := isReferenced_of_dropPrototypes hs
          refine mem_names_dropPrototypes ?_ hs
          rw [Module.names, globals_foldl_declareNumbered, List.mem_append,
            mem_functionNames_foldl_declareNumbered, hnames]
          rcases isReferenced_of_withNumbers (isReferenced_of_foldl_declareNumbered hs) with hs | hs
          · exact (List.mem_append.mp (hm s hs)).imp_left .inl
          · exact .inl (.inr hs)
        intrinsics := by
          intro type ht hr
          obtain ⟨f, hf, he⟩ := List.mem_map.mp
            (mem_functionNames_foldl_declareNumbered.mpr (.inr ⟨type, ht, rfl⟩))
          refine ⟨f, mem_dropPrototypes_of_isReferenced hf ?_, he⟩
          rw [he]
          exact isReferenced_of_dropPrototypes hr }

/-- After a lowering to numbers of a module that is read, whatever is mentioned is there, and every
symbolic call has become a call of a function of the module.  Names are distinct again exactly if no
global variable has the name of an intrinsic that the lowered calls need. -/
theorem names_of_lowering_iff {text : String} (hr : Module.read text = .ok m)
    (h : m.lowerSpecConstants .runtime = (m', .ok changed)) :
    (∀ s, m'.isReferenced s → s ∈ m'.names) ∧
      (∃ number, m'.instructions = m.instructions.map (numbered number) ∧
        ∀ i ∈ m.instructions, ∀ c, symbolicCall? i = .ok (some c) →
          (numbered number i).directCallee? = some (numberedName c.type) ∧
          ∃ f ∈ m'.functions, f.name = numberedName c.type) ∧
      (m'.names.Nodup ↔
        ∀ type ∈ m.symbolicTypes, ∀ g ∈ m.globals, g.name ≠ numberedName type) := by
  have hw := wellFormed_of_read hr
  have hl := namesLowered_of_lowering h
  obtain ⟨number, _, hi⟩ := instructions_of_lowering (nodup_functions hw.names) h
  have hcallee : ∀ i ∈ m.instructions, ∀ c, symbolicCall? i = .ok (some c) →
      (numbered number i).directCallee? = some (numberedName c.type) := by
    intro i _ c hc
    rw [numbered_of_some hc]
    rfl
  have hcalled : ∀ i ∈ m.instructions, ∀ c, symbolicCall? i = .ok (some c) →
      ∃ f ∈ m'.functions, f.name = numberedName c.type := by
    intro i hmem c hc
    have hmem' : numbered number i ∈ m'.instructions := by
      rw [hi]
      exact List.mem_map_of_mem hmem
    exact hl.intrinsics c.type (mem_symbolicTypes.mpr ⟨i, hmem, c, hc, rfl⟩)
      (isReferenced_of_directCallee? hmem' (hcallee i hmem c hc))
  refine ⟨hl.mentions ?_,
    ⟨number, hi, fun i hmem c hc => ⟨hcallee i hmem c hc, hcalled i hmem c hc⟩⟩, ?_, ?_⟩
  · intro s hs
    rcases isReferenced_iff.mp hs with ⟨f, hf, hs⟩ | ⟨g, hg, hs⟩
    · exact hw.functionSymbols f hf s hs
    · exact hw.globalSymbols g hg s hs
  · intro hn type ht g hg he
    obtain ⟨i, hmem, c, hc, rfl⟩ := mem_symbolicTypes.mp ht
    obtain ⟨f, hf, hname⟩ := hcalled i hmem c hc
    rw [← hl.globals] at hg
    exact function_name_ne hn hf hg (hname.trans he.symm)
  · intro hne
    rw [Module.names, hl.globals, List.nodup_append]
    refine ⟨hl.functions (nodup_functions hw.names), nodup_globals hw.names, ?_⟩
    intro s hs t ht he
    obtain ⟨g, hg, rfl⟩ := List.mem_map.mp ht
    rcases hl.names s hs with hs | ⟨type, htype, hname⟩
    · obtain ⟨f, hf, rfl⟩ := List.mem_map.mp hs
      exact function_name_ne hw.names hf hg he
    · exact hne type htype g hg (he.symm.trans hname.symm)

/-- A symbolic call, and a global variable with the name of the intrinsic for its type. -/
def globalIntrinsic : Module where
  sourceName := none
  globals := [⟨"__spirv_SpecConstant_i32", .external, false, some (.scalar .i32 (.int 0))⟩]
  functions := [
    .declaration "__sycl_getSpecConstantValue" .i32 ["id"],
    { Function.declaration "f" .void [] with
      body := some [⟨"entry", [
        ⟨some "a", .call .i32 (.direct "__sycl_getSpecConstantValue") [.string "A"], []⟩,
        ⟨none, .operation "ret" [.value "a"], []⟩]⟩] }]
  debugRecords := []

/-- The lowered module has a function and a global variable of one name. -/
theorem globalIntrinsic_names :
    Module.read ("@__spirv_SpecConstant_i32 = global i32 0\n\n" ++
        "declare i32 @__sycl_getSpecConstantValue(%id)\n\ndefine void @f() \x7b\nentry:\n" ++
        "  %a = call i32 @__sycl_getSpecConstantValue(\"A\")\n  ret %a\n\x7d\n") =
          .ok globalIntrinsic ∧
      globalIntrinsic.lowerSpecConstants .runtime =
        ((globalIntrinsic.lowerSpecConstants .runtime).1, .ok true) ∧
      ¬ (globalIntrinsic.lowerSpecConstants .runtime).1.names.Nodup := by
  have hr : Module.read ("@__spirv_SpecConstant_i32 = global i32 0\n\n" ++
      "declare i32 @__sycl_getSpecConstantValue(%id)\n\ndefine void @f() \x7b\nentry:\n" ++
      "  %a = call i32 @__sycl_getSpecConstantValue(\"A\")\n  ret %a\n\x7d\n") =
        .ok globalIntrinsic := by decide +kernel
  have hl : globalIntrinsic.lowerSpecConstants .runtime =
      ((globalIntrinsic.lowerSpecConstants .runtime).1, .ok true) := by decide +kernel
  refine ⟨hr, hl, fun hn => ?_⟩
  have hne := (names_of_lowering_iff hr hl).2.2.mp hn .i32 (by decide +kernel)
  exact hne _ (List.mem_singleton_self _) rfl

end Module

end DeviceCode
