import DeviceCode.Proofs.SpecConstant.Lowering

/-!
# What a lowering to defaults leaves

A lowering to defaults keeps the instructions that are no symbolic calls, with zeros among their
operands for the results of those that were (`lowerSpecConstants_default`).
-/

namespace DeviceCode

namespace SpecConstant

/-- The zero for the result of a symbolic call. -/
def zero? (i : Instruction) : Option (String × Operand) :=
  match symbolicCall? i, i.result with
  | .ok (some c), some name => some (name, c.zeroOperand)
  | _, _ => none

/-- A result gets a zero if its call is symbolic and not malformed. -/
theorem zero?_eq_some_iff {i : Instruction} {v : String} {zero : Operand} :
    zero? i = some (v, zero) ↔
      i.result = some v ∧ ∃ c, symbolicCall? i = .ok (some c) ∧ c.zeroOperand = zero := by
  unfold zero?
  split
  case h_1 c name hc hr => simp [hc, hr]
  case h_2 hnone =>
    refine iff_of_false nofun ?_
    rintro ⟨hr, c, hc, _⟩
    exact hnone c v hc hr

end SpecConstant

/-- A block without its symbolic calls. -/
def Block.withoutSymbolicCalls (b : Block) : Block :=
  { b with instructions := b.instructions.filter (!·.isSymbolicCall) }

namespace Function

open SpecConstant

/-- A function without its symbolic calls. -/
def withoutSymbolicCalls (f : Function) : Function :=
  { f with body := f.body.map (List.map Block.withoutSymbolicCalls) }

/-- The zeros for the results of a function's symbolic calls. -/
def zeros (f : Function) : List (String × Operand) := f.instructions.filterMap zero?

/-- The function with zeros in place of its symbolic calls. -/
def withZeros (f : Function) : Function := substituteZeros f.zeros f.withoutSymbolicCalls

end Function

namespace SpecConstant

variable {name : String} {p p' : Progress}

/-! ## One pass over instructions -/

/-- Instructions lowered to defaults, and what the progress has of them. -/
structure LowersToZeros (p : Progress) (is is' : List Instruction) (p' : Progress) : Prop where
  kept : is' = is.filter (!·.isSymbolicCall)
  zeros : p'.zeros = p.zeros ++ is.filterMap zero?
  types : p'.types = p.types
  calls : ∀ i ∈ is, ∃ c, symbolicCall? i = .ok c

namespace LowersToZeros

theorem nil (p : Progress) : LowersToZeros p [] [] p where
  kept := rfl
  zeros := (List.append_nil _).symm
  types := rfl
  calls := nofun

theorem append {p p₁ p₂ : Progress} {is is' js js' : List Instruction}
    (h : LowersToZeros p is is' p₁) (h' : LowersToZeros p₁ js js' p₂) :
    LowersToZeros p (is ++ js) (is' ++ js') p₂ where
  kept := by rw [h.kept, h'.kept, List.filter_append]
  zeros := by rw [h'.zeros, h.zeros, List.filterMap_append, List.append_assoc]
  types := h'.types.trans h.types
  calls := by
    intro i hi
    rcases List.mem_append.mp hi with hi | hi
    · exact h.calls i hi
    · exact h'.calls i hi

end LowersToZeros

/-- One instruction stays, or it is a symbolic call and its zero is noted. -/
theorem lowerInstruction_default {i : Instruction} {i' : Option Instruction}
    (h : lowerInstruction .default name p i = .ok (i', p')) :
    LowersToZeros p [i] i'.toList p' := by
  unfold lowerInstruction at h
  split at h
  case h_1 => cases h
  case h_2 hc =>
    cases h
    have hz : zero? i = none := by simp [zero?, hc]
    exact {
      kept := by simp [isSymbolicCall_eq hc]
      zeros := by simp [hz]
      types := rfl
      calls := by simp [hc] }
  case h_3 c hc =>
    cases h
    have hkept : [] = [i].filter (!·.isSymbolicCall) := by simp [isSymbolicCall_eq hc]
    refine ⟨hkept, ?_, ?_, by simp [hc]⟩
    · cases hr : i.result with
      | none =>
          have hz : zero? i = none := by simp [zero?, hc, hr]
          simp [Progress.noteZero, hz]
      | some v =>
          have hz : zero? i = some (v, c.zeroOperand) := by simp [zero?, hc, hr]
          simp [Progress.noteZero, hz]
    · cases i.result with
      | none => rfl
      | some => rfl

theorem lowerInstructions_default {is is' : List Instruction}
    (h : lowerInstructions .default name p is = .ok (is', p')) : LowersToZeros p is is' p' := by
  induction is generalizing p is' with
  | nil =>
      cases h
      exact .nil _
  | cons i is ih =>
      obtain ⟨⟨new, p₁⟩, hi, h⟩ := Except.bind_eq_ok.mp h
      obtain ⟨⟨news, p₂⟩, his, h⟩ := Except.bind_eq_ok.mp h
      cases h
      exact (lowerInstruction_default hi).append (ih his)

/-! ## Blocks and functions -/

theorem lowerBlock_default {b b' : Block} (h : lowerBlock .default name p b = (b', .ok p')) :
    b' = b.withoutSymbolicCalls ∧ LowersToZeros p b.instructions b'.instructions p' := by
  unfold lowerBlock at h
  split at h
  case h_1 hi =>
    have hl := lowerInstructions_default hi
    cases h
    exact ⟨by rw [Block.withoutSymbolicCalls, hl.kept], hl⟩
  case h_2 => cases h

/-- The blocks of a function lose theirs, and the zeros of all of them are noted in order. -/
theorem lowerBlocks_default {bs bs' : List Block}
    (h : sweep (lowerBlock .default name) p bs = (bs', .ok p')) :
    bs' = bs.map Block.withoutSymbolicCalls ∧
      LowersToZeros p (bs.flatMap (·.instructions)) (bs'.flatMap (·.instructions)) p' := by
  refine sweep_ok
    (P := fun p bs bs' p' => bs' = bs.map Block.withoutSymbolicCalls ∧
      LowersToZeros p (bs.flatMap (·.instructions)) (bs'.flatMap (·.instructions)) p') ?_ ?_ h
  · exact fun p => ⟨rfl, .nil p⟩
  · intro p b bs p₁ b' bs' p₂ hb ih
    obtain ⟨hb', hl⟩ := lowerBlock_default hb
    exact ⟨by rw [hb', ih.1, List.map_cons], hl.append ih.2⟩

/-- The zeros are put in once all blocks are done. -/
theorem lowerFunction_default {f f' : Function} (h : lowerFunction .default p f = (f', .ok p')) :
    f' = f.withZeros ∧ p'.types = p.types ∧
      ∀ i ∈ f.instructions, ∃ c, symbolicCall? i = .ok c := by
  unfold lowerFunction at h
  split at h
  case h_1 hb =>
    cases h
    have hi : f.instructions = [] := Function.instructions_of_none hb
    refine ⟨?_, rfl, by simp [hi]⟩
    rw [Function.withZeros, Function.zeros, hi]
    change f = { f with body := f.body.map _ }
    rw [hb, Option.map_none, ← hb]
  case h_2 blocks hb =>
    split at h
    case h_1 => cases h
    case h_2 blocks' p₁ hs =>
      cases h
      obtain ⟨hbs, hl⟩ := lowerBlocks_default hs
      have hi : f.instructions = blocks.flatMap (·.instructions) := Function.instructions_of_some hb
      refine ⟨?_, hl.types, by rw [hi]; exact hl.calls⟩
      rw [Function.withZeros, Function.zeros, Function.withoutSymbolicCalls, hb, hi, hl.zeros, hbs]
      rfl

/-- All functions are lowered one by one, and nothing is noted of types. -/
theorem lowerFunctions_default {fs fs' : List Function}
    (h : sweep (lowerFunction .default) p fs = (fs', .ok p')) :
    fs' = fs.map Function.withZeros ∧ p'.types = p.types ∧
      ∀ f ∈ fs, ∀ i ∈ f.instructions, ∃ c, symbolicCall? i = .ok c := by
  refine sweep_ok
    (P := fun p fs fs' p' => fs' = fs.map Function.withZeros ∧ p'.types = p.types ∧
      ∀ f ∈ fs, ∀ i ∈ f.instructions, ∃ c, symbolicCall? i = .ok c) ?_ ?_ h
  · exact fun p => ⟨rfl, rfl, nofun⟩
  · intro p f fs p₁ f' fs' p₂ hf ih
    obtain ⟨hf', ht, hcalls⟩ := lowerFunction_default hf
    exact ⟨by rw [hf', ih.1, List.map_cons], ih.2.1.trans ht,
      List.forall_mem_cons.mpr ⟨hcalls, ih.2.2⟩⟩

end SpecConstant

namespace Module

open SpecConstant

/-- A lowering to defaults either finds no symbolic call, or puts zeros in place of all and deletes
declarations of symbolic intrinsics that nothing mentions any more. -/
theorem lowerSpecConstants_default {m m' : Module} {changed : Bool}
    (h : m.lowerSpecConstants .default = (m', .ok changed)) :
    (∀ f ∈ m.functions, ∀ i ∈ f.instructions, ∃ c, symbolicCall? i = .ok c) ∧
      m' = if m.hasSymbolicCall then
        { m with functions := m.functions.map Function.withZeros }.dropPrototypes isSymbolicName
      else m := by
  obtain ⟨hc, hsame⟩ := lowerSpecConstants_changed h
  unfold lowerSpecConstants at h
  split at h
  case h_1 => cases h
  case h_2 next hn =>
    split at h
    case h_1 => cases h
    case h_2 functions p hs =>
      obtain ⟨rfl, ht, hcalls⟩ := lowerFunctions_default hs
      refine ⟨hcalls, ?_⟩
      split at h
      case isTrue =>
        cases h
        rw [← hc, if_pos rfl, ht]
        rfl
      case isFalse =>
        cases h
        rw [← hc, if_neg Bool.false_ne_true]
        exact hsame rfl

end Module

end DeviceCode
