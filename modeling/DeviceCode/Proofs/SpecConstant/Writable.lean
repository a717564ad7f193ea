import DeviceCode.Proofs.Assembly.Writable
import DeviceCode.Proofs.SpecConstant.Declarations
import DeviceCode.Proofs.SpecConstant.SecondRun

/-!
# Lowered modules in writing

A lowering changes the functions of a module one by one, and puts in only what can be written:
zeros, numbers, and calls of intrinsics that it declares.  So a module that could be written before
can be written afterwards (`isWritable_lowerSpecConstants`).
-/

namespace DeviceCode

open Assembly SpecConstant

/-! ## Functions -/

/-- A function with its symbolic calls lowered in either mode, or left as it was. -/
inductive Function.Lowers (f : Function) : Function → Prop where
  | same : f.Lowers f
  | zeros : f.Lowers f.withZeros
  | numbers (number : String → UInt32) : f.Lowers (f.withNumbers number)

/-- The declaration of the intrinsic for numbered constants of a type. -/
def numberedDeclaration (type : ValueType) : Function :=
  .declaration (numberedName type) type ["id", "default"]

namespace Function.Lowers

variable {f f' : Function}

theorem name (h : f.Lowers f') : f'.name = f.name := by
  cases h with
  | same => rfl
  | zeros => exact name_withZeros f
  | numbers number => exact name_withNumbers number f

theorem body (h : f.Lowers f') : f'.body = none ↔ f.body = none := by
  cases h with
  | same => exact Iff.rfl
  | zeros => exact body_withZeros f
  | numbers number => rw [withNumbers, mapInstructions, Option.map_eq_none_iff]

end Function.Lowers

namespace Module

variable {m m' : Module} {mode : Mode} {changed : Bool}

/-- A function that is there with the declarations was there, or is one of them. -/
theorem eq_numberedDeclaration_of_mem {f : Function} {types : List ValueType}
    (h : f ∈ (types.foldl declareNumbered m).functions) :
    f ∈ m.functions ∨ ∃ type, f = numberedDeclaration type := by
  induction types generalizing m with
  | nil => exact .inl h
  | cons type types ih =>
      rcases ih h with h | h
      · unfold declareNumbered at h
        split at h
        · exact .inl h
        · refine (List.mem_append.mp h).imp_right fun h => ⟨type, ?_⟩
          exact List.mem_singleton.mp h
      · exact .inr h

/-- What a lowering leaves: the global variables as they were, and functions that are those of the
module with their calls lowered, or declarations of intrinsics. -/
theorem lowerSpecConstants_parts (h : m.lowerSpecConstants mode = (m', .ok changed)) :
    m'.globals = m.globals ∧ ∀ f' ∈ m'.functions,
      (∃ f ∈ m.functions, f.Lowers f') ∨ ∃ type, f' = numberedDeclaration type := by
  cases mode with
  | default =>
      obtain ⟨_, rfl⟩ := lowerSpecConstants_default h
      split
      case isTrue =>
        refine ⟨rfl, fun f' hf' => .inl ?_⟩
        obtain ⟨f, hf, rfl⟩ := List.mem_map.mp (mem_of_mem_dropPrototypes hf')
        exact ⟨f, hf, .zeros⟩
      case isFalse => exact ⟨rfl, fun f hf => .inl ⟨f, hf, .same⟩⟩
  | runtime =>
      obtain ⟨_, n, _, rfl⟩ := lowerSpecConstants_runtime h
      split
      case isTrue =>
        refine ⟨globals_foldl_declareNumbered _ _, fun f' hf' => ?_⟩
        refine (eq_numberedDeclaration_of_mem (mem_of_mem_dropPrototypes hf')).imp_left ?_
        intro hf'
        obtain ⟨f, hf, rfl⟩ := List.mem_map.mp hf'
        exact ⟨f, hf, .numbers n.number⟩
      case isFalse => exact ⟨rfl, fun f hf => .inl ⟨f, hf, .same⟩⟩

end Module

/-! ## What can be written -/

/-- An operand that can be written in the place of any value. -/
def Operand.Fits (o : Operand) : Prop := o.IsWritable ∧ ∀ id, o ≠ .metadata id

/-- An operand that fits can be put for any other. -/
theorem Operand.isWritable_substitute {o new : Operand} {v : String} (ho : o.IsWritable)
    (hnew : new.Fits) : (Operand.substitute v new o).IsWritable := by
  cases o with
  | value name =>
      rw [Operand.substitute]
      split
      · exact hnew.1
      · exact ho
  | symbol | constant | string | block | metadata => exact ho

/-- No use of a debug record comes about. -/
theorem Operand.eq_metadata_of_substitute {o new : Operand} {v : String} {id : UInt32}
    (hnew : new.Fits) (h : substitute v new o = .metadata id) : o = .metadata id := by
  cases o with
  | value name =>
      rw [Operand.substitute] at h
      split at h
      · exact absurd h (hnew.2 id)
      · cases h
  | symbol | constant | string | block | metadata => exact h

/-- A substitution changes no word, and no operation begins with a record because of it. -/
theorem Action.IsWritable.substitute {a : Action} {v : String} {new : Operand}
    (ha : a.IsWritable) (hnew : new.Fits) :
    (a.mapOperands (Operand.substitute v new)).IsWritable := by
  have hmap : ∀ os : List Operand, (∀ o ∈ os, o.IsWritable) →
      ∀ o ∈ os.map (Operand.substitute v new), o.IsWritable := by
    intro os hos o' ho'
    obtain ⟨o, ho, rfl⟩ := List.mem_map.mp ho'
    exact Operand.isWritable_substitute (hos o ho) hnew
  cases a with
  | call type callee arguments => exact ⟨ha.1, hmap arguments ha.2⟩
  | operation opcode operands =>
      obtain ⟨hopcode, hne, hfirst, hoperands⟩ := ha
      refine ⟨hopcode, hne, fun id rest he => ?_, hmap operands hoperands⟩
      obtain ⟨o, os, rfl, ho, -⟩ := List.map_eq_cons_iff.mp he
      exact hfirst id os (congrArg (· :: os) (Operand.eq_metadata_of_substitute hnew ho))

theorem isIdentifier_numberedName (type : ValueType) : IsIdentifier (numberedName type) := by
  cases type with
  | void | i1 | i8 | i16 | i32 | i64 | f32 | f64 | ptr => decide

theorem fits_zeroOperand {i : Instruction} {c : SymbolicCall}
    (h : symbolicCall? i = .ok (some c)) : c.zeroOperand.Fits := by
  have hzero := zeroOf?_of_symbolicCall h
  refine ⟨?_, nofun⟩
  change c.zero.HasType c.type
  generalize c.zero = zero, c.type = type at hzero
  cases type with
  | void | ptr => cases hzero
  | i1 | i8 | i16 | i32 | i64 | f32 | f64 =>
      cases hzero
      exact ⟨nofun, rfl⟩

namespace Instruction.IsWritable

variable {i : Instruction}

theorem substitute {v : String} {new : Operand} (hi : i.IsWritable) (hnew : new.Fits) :
    (i.substitute v new).IsWritable where
  result := hi.result
  action := hi.action.substitute hnew
  attachments := hi.attachments

theorem lower {c : SymbolicCall} {id : UInt32} (hi : i.IsWritable) (hc : c.zeroOperand.Fits) :
    (c.lower id i).IsWritable where
  result := hi.result
  action := by
    refine ⟨isIdentifier_numberedName c.type, List.forall_mem_cons.mpr ⟨⟨by decide, rfl⟩, ?_⟩⟩
    exact List.forall_mem_singleton.mpr hc.1
  attachments := by
    have hkind : IsKeyword attachmentKind := by decide
    exact List.forall_mem_append.mpr
      ⟨hi.attachments, List.forall_mem_singleton.mpr ⟨hkind, trivial⟩⟩

/-- With numbers an instruction can be written if it could be without. -/
theorem numbered {number : String → UInt32} (hi : i.IsWritable) :
    (SpecConstant.numbered number i).IsWritable := by
  unfold SpecConstant.numbered
  split
  case h_1 c hc => exact hi.lower (fits_zeroOperand hc)
  case h_2 => exact hi

end Instruction.IsWritable

namespace Function.IsWritable

variable {f f' : Function}

/-- A change of blocks that keeps them in writing keeps the function in writing. -/
theorem mapBlocks {update : Block → Block} (hf : f.IsWritable)
    (hupdate : ∀ b : Block, b.IsWritable → (update b).IsWritable) :
    Function.IsWritable { f with body := f.body.map (List.map update) } where
  name := hf.name
  parameters := hf.parameters
  blocks := by
    intro b' (hb' : b' ∈ (f.body.map (List.map update)).getD (List.map update []))
    rw [Option.getD_map] at hb'
    obtain ⟨b, hb, rfl⟩ := List.mem_map.mp hb'
    exact hupdate b (hf.blocks b hb)
  declaration h := hf.declaration (Option.map_eq_none_iff.mp h)

theorem mapInstructions {update : Instruction → Instruction} (hf : f.IsWritable)
    (hupdate : ∀ i : Instruction, i.IsWritable → (update i).IsWritable) :
    (f.mapInstructions update).IsWritable := by
  refine hf.mapBlocks fun b hb => ⟨hb.label, fun i' hi' => ?_⟩
  obtain ⟨i, hi, rfl⟩ := List.mem_map.mp hi'
  exact hupdate i (hb.instructions i hi)

theorem withoutSymbolicCalls (hf : f.IsWritable) : f.withoutSymbolicCalls.IsWritable :=
  hf.mapBlocks fun _ hb =>
    ⟨hb.label, fun i hi => hb.instructions i (List.mem_of_mem_filter hi)⟩

theorem substituteZeros {zeros : List (String × Operand)} (hf : f.IsWritable)
    (hz : ∀ z ∈ zeros, z.2.Fits) : (SpecConstant.substituteZeros zeros f).IsWritable := by
  induction zeros generalizing f with
  | nil => exact hf
  | cons z zeros ih =>
      obtain ⟨hz, hzeros⟩ := List.forall_mem_cons.mp hz
      exact ih (hf.mapInstructions fun i hi => hi.substitute hz) hzeros

theorem withZeros (hf : f.IsWritable) : f.withZeros.IsWritable := by
  refine hf.withoutSymbolicCalls.substituteZeros fun z hz => ?_
  obtain ⟨i, -, hz⟩ := List.mem_filterMap.mp hz
  obtain ⟨-, c, hc, he⟩ := zero?_eq_some_iff.mp hz
  exact he ▸ fits_zeroOperand hc

theorem lowers (hf : f.IsWritable) (h : f.Lowers f') : f'.IsWritable := by
  cases h with
  | same => exact hf
  | zeros => exact hf.withZeros
  | numbers number => exact hf.mapInstructions fun i hi => hi.numbered

end Function.IsWritable

theorem isWritable_numberedDeclaration (type : ValueType) :
    (numberedDeclaration type).IsWritable where
  name := isIdentifier_numberedName type
  parameters := by
    change ∀ n ∈ ["id", "default"], IsIdentifier n
    decide
  blocks := List.forall_mem_nil _
  declaration _ := ⟨rfl, rfl⟩

namespace Module

variable {m m' : Module} {mode : Mode} {changed : Bool}

/-- What a lowering leaves of a module that can be written can be written. -/
theorem IsWritable.lowerSpecConstants (hm : m.IsWritable)
    (h : m.lowerSpecConstants mode = (m', .ok changed)) : m'.IsWritable := by
  obtain ⟨hglobals, hfunctions⟩ := lowerSpecConstants_parts h
  refine ⟨fun g hg => hm.globals g (hglobals ▸ hg), fun f' hf' => ?_⟩
  rcases hfunctions f' hf' with ⟨f, hf, hlowers⟩ | ⟨type, rfl⟩
  · exact (hm.functions f hf).lowers hlowers
  · exact isWritable_numberedDeclaration type

end Module

end DeviceCode
