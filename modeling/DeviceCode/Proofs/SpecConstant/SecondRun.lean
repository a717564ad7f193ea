import DeviceCode.Proofs.SpecConstant.Agreement
import DeviceCode.Proofs.SpecConstant.Uses

/-!
# Lowering a lowered module

No symbolic call is left behind by a lowering, so a second one changes nothing, in whichever mode
(`lowerSpecConstants_lowered`).  It could still run out of numbers before it starts, as it looks for
a free one in any case.  A lowering to numbers only leaves numbers that it had given, below the next
one; a lowering to defaults leaves those it found, but for zeros.  So there is a free number again,
unless a definition was deleted with a declaration of its name and took the last call for a string
ID with it.
-/

namespace DeviceCode

namespace Module

open SpecConstant

variable {m m' : Module} {a b : Mode} {changed : Bool}

theorem exists_freeId?_of_lowering (h : m.lowerSpecConstants a = (m', .ok changed)) :
    ∃ next, freeId? m.specIds = some next := by
  unfold lowerSpecConstants at h
  split at h
  case h_1 => cases h
  case h_2 next hnext => exact ⟨next, hnext⟩

/-- Without symbolic calls a lowering changes nothing, and can only fail for want of a number. -/
theorem lowerSpecConstants_of_not_symbolic (h : m.hasSymbolicCall = false) :
    m.lowerSpecConstants b =
      (m, if (freeId? m.specIds).isSome then .ok false else .error .idsExhausted) := by
  cases hnext : freeId? m.specIds with
  | none => simp only [lowerSpecConstants, hnext, Option.isSome_none, Bool.false_eq_true, if_false]
  | some next =>
      obtain ⟨p, hs⟩ := sweep_of_not_symbolic h b ⟨m.specIds, next, [], false, []⟩
      have hc : p.changed = false := (lowerFunctions_changed hs).trans h
      simp only [lowerSpecConstants, hnext, hs, hc, Bool.false_eq_true, if_false,
        Option.isSome_some, if_true]

end Module

/-! ## No symbolic call is left -/

namespace SpecConstant

theorem isSymbolicCall_numbered {number : String → UInt32} {i : Instruction}
    (h : ∃ c, symbolicCall? i = .ok c) : (numbered number i).isSymbolicCall = false := by
  obtain ⟨c, hc⟩ := h
  cases c with
  | none => rw [numbered_of_none hc, isSymbolicCall_eq hc, Option.isSome_none]
  | some c =>
      have hname : ¬ isSymbolicName (numberedName c.type) := fun hs =>
        not_isNumberedName_of_isSymbolicName hs (isNumberedName_numberedName c.type)
      rw [numbered_of_some hc]
      simpa [Instruction.isSymbolicCall, Instruction.directCallee?, SymbolicCall.lower,
        Action.directCallee?] using hname

end SpecConstant

namespace Instruction

variable {i : Instruction} {zeros : List (String × Operand)}

@[simp] theorem directCallee?_substitute {name : String} {new : Operand} :
    (i.substitute name new).directCallee? = i.directCallee? := by
  rcases i with ⟨result, action, attachments⟩
  cases action with
  | call type callee arguments => cases callee <;> rfl
  | operation => rfl

@[simp] theorem directCallee?_substituteAll :
    (i.substituteAll zeros).directCallee? = i.directCallee? := by
  induction zeros generalizing i with
  | nil => rfl
  | cons z zeros ih => exact ih.trans directCallee?_substitute

/-- Zeros make no call symbolic. -/
@[simp] theorem isSymbolicCall_substituteAll :
    (i.substituteAll zeros).isSymbolicCall = i.isSymbolicCall := by
  rw [isSymbolicCall, isSymbolicCall, directCallee?_substituteAll]

end Instruction

namespace Module

open SpecConstant

variable {m m' : Module} {a b : Mode} {changed : Bool}

/-- Deleting declarations adds no instructions. -/
theorem instructions_dropPrototypes_subset (m : Module) (p : String → Bool) :
    (m.dropPrototypes p).instructions ⊆ m.instructions := by
  intro i hi
  obtain ⟨f, hf, hi⟩ := List.mem_flatMap.mp hi
  exact List.mem_flatMap.mpr ⟨f, mem_of_mem_dropPrototypes hf, hi⟩

/-- No symbolic call is left, in either mode. -/
theorem hasSymbolicCall_of_lowering (h : m.lowerSpecConstants a = (m', .ok changed)) :
    m'.hasSymbolicCall = false := by
  cases hs : m.hasSymbolicCall with
  | false =>
      obtain ⟨hc, hsame⟩ := lowerSpecConstants_changed h
      rw [hsame (hc.trans hs), hs]
  | true =>
      rw [hasSymbolicCall_eq, List.any_eq_false]
      intro i hi
      rw [Bool.not_eq_true]
      cases a with
      | runtime =>
          obtain ⟨hcalls, n, _, hm⟩ := lowerSpecConstants_runtime h
          rw [hm, hs, if_pos rfl] at hi
          have hi := instructions_dropPrototypes_subset _ _ hi
          rw [instructions_foldl_declareNumbered, instructions_withNumbers] at hi
          obtain ⟨j, hj, rfl⟩ := List.mem_map.mp hi
          obtain ⟨f, hf, hj⟩ := List.mem_flatMap.mp hj
          exact isSymbolicCall_numbered (hcalls f hf j hj)
      | default =>
          obtain ⟨_, hm⟩ := lowerSpecConstants_default h
          rw [hm, hs, if_pos rfl] at hi
          obtain ⟨_, hf', hi⟩ := List.mem_flatMap.mp (instructions_dropPrototypes_subset _ _ hi)
          obtain ⟨f, _, rfl⟩ := List.mem_map.mp hf'
          obtain ⟨j, _, hj, rfl⟩ := Function.mem_instructions_withZeros.mp hi
          rw [Instruction.isSymbolicCall_substituteAll, hj]

/-! ## Numbers that a lowering to numbers leaves -/

/-- Each number that is recovered after a lowering is one that the lowering gave or found. -/
theorem exists_get?_of_numbered {n : Numbering} (hn : m.numbering? = some n)
    (hm : m'.instructions = m.instructions.map (numbered n.number)) {s : String} {id : UInt32}
    (h : m'.specIds.get? s = some id) : ∃ t, n.ids.get? t = some id := by
  rw [get?_specIds_of_numbered (extends_of_numbering? hn) hm] at h
  obtain ⟨j, hj, rfl⟩ := Option.map_eq_some_iff.mp h
  have hmem : j ∈ m.instructions := List.mem_reverse.mp (List.mem_of_find?_eq_some hj)
  have hrecorded : recordedAs? j = some s := by simpa using List.find?_some hj
  by_cases hc : ∃ c, symbolicCall? j = .ok (some c)
  · obtain ⟨c, hc⟩ := hc
    rw [constantOf_of_some s hc]
    exact ⟨c.id, get?_of_numbering? hn hmem hc⟩
  · -- the number of a call that was lowered before is not its own, but the one found for its string
    have hc := not_exists.mp hc
    rw [constantOf_of_not_symbolic hc]
    rw [recordedAs?_of_not_symbolic hc] at hrecorded
    obtain ⟨⟨s', id⟩, hcall, rfl⟩ := Option.map_eq_some_iff.mp hrecorded
    obtain ⟨id', hid'⟩ := exists_get?_of_mem_loweredCalls (mem_loweredCalls.mpr ⟨j, hmem, hcall⟩)
    have hids := (continues_of_numbering? hn).keeps _ _ hid'
    rw [Numbering.number_of_get? hids]
    exact ⟨_, hids⟩

/-- A number is free behind those that were given. -/
theorem exists_freeId?_of_numbered {n : Numbering} (hn : m.numbering? = some n)
    (hm : m'.instructions = m.instructions.map (numbered n.number)) :
    ∃ next, freeId? m'.specIds = some next := by
  refine exists_freeId? fun s id hs => ?_
  obtain ⟨t, ht⟩ := exists_get?_of_numbered hn hm hs
  have hlt := UInt32.lt_iff_toNat_lt.mp ((continues_of_numbering? hn).below t id ht)
  have hnext : n.next.toNat < UInt32.size := n.next.toNat_lt
  omega

end Module

/-! ## Numbers that a lowering to defaults leaves -/

namespace SpecConstant

/-- What calls tell is what others told, but for zeros. -/
def ToldOrZero (calls' calls : List (String × UInt32)) : Prop :=
  ∀ s, told? calls' s = told? calls s ∨ told? calls' s = some 0

namespace ToldOrZero

variable {calls calls' calls'' : List (String × UInt32)}

theorem refl (calls : List (String × UInt32)) : ToldOrZero calls calls := fun _ => .inl rfl

theorem trans (h : ToldOrZero calls'' calls') (h' : ToldOrZero calls' calls) :
    ToldOrZero calls'' calls := by
  intro s
  rcases h s with h | h
  · rw [h]
    exact h' s
  · exact .inr h

theorem append {others others' : List (String × UInt32)} (h : ToldOrZero calls' calls)
    (h' : ToldOrZero others' others) : ToldOrZero (calls' ++ others') (calls ++ others) := by
  intro s
  rw [told?_append, told?_append]
  rcases h' s with h' | h'
  · rw [h']
    cases told? others s with
    | none => exact h s
    | some id => exact .inl rfl
  · rw [h']
    exact .inr rfl

theorem flatMap {α : Type} {as : List α} {f g : α → List (String × UInt32)}
    (h : ∀ a ∈ as, ToldOrZero (f a) (g a)) : ToldOrZero (as.flatMap f) (as.flatMap g) := by
  induction as with
  | nil => exact refl _
  | cons a as ih =>
      obtain ⟨ha, has⟩ := List.forall_mem_cons.mp h
      exact ha.append (ih has)

theorem filterMap {α : Type} {as : List α} {f g : α → Option (String × UInt32)}
    (h : ∀ a ∈ as, ToldOrZero (f a).toList (g a).toList) :
    ToldOrZero (as.filterMap f) (as.filterMap g) := by
  rw [List.filterMap_eq_flatMap_toList, List.filterMap_eq_flatMap_toList]
  exact flatMap h

end ToldOrZero

/-- An operand that no number but zero can be read from. -/
def IsZero (operand : Operand) : Prop :=
  ∃ type literal, operand = .constant type literal ∧
    ∀ id, idOfLiteral? literal = some id → id = 0

/-- A symbolic call has a type with a zero. -/
theorem zeroOf?_of_symbolicCall {i : Instruction} {c : SymbolicCall}
    (h : symbolicCall? i = .ok (some c)) : zeroOf? c.type = some c.zero := by
  unfold symbolicCall? at h
  split at h
  case h_2 => cases h
  split at h
  case isFalse => cases h
  split at h
  case h_2 => cases h
  split at h
  case h_2 => cases h
  case h_1 hzero =>
    cases h
    exact hzero

/-- A zero that can be a number is the number zero. -/
theorem eq_zero_of_zeroOf? {type : ValueType} {zero : Literal} (h : zeroOf? type = some zero)
    {id : UInt32} (hid : idOfLiteral? zero = some id) : id = 0 := by
  cases type with
  | void | ptr => cases h
  | f32 | f64 =>
      cases h
      cases hid
  | i1 | i8 | i16 | i32 | i64 =>
      cases h
      cases hid
      rfl

theorem isZero_zeroOperand {i : Instruction} {c : SymbolicCall}
    (h : symbolicCall? i = .ok (some c)) : IsZero c.zeroOperand :=
  ⟨c.type, c.zero, rfl, fun _ => eq_zero_of_zeroOf? (zeroOf?_of_symbolicCall h)⟩

/-- A call whose first operand is a value tells no number. -/
theorem loweredCall?_of_value {i : Instruction} {name : String}
    (h : i.operands.head? = some (.value name)) : loweredCall? i = none := by
  rw [Option.eq_none_iff_forall_ne_some]
  intro call hcall
  obtain ⟨_, _, _, _, _, _, ho, _⟩ := loweredCall?_eq_some_iff.mp hcall
  rw [h] at ho
  cases ho

/-- A substitution elsewhere does not change what a call tells. -/
theorem loweredCall?_substitute_of_ne {i : Instruction} {name : String} {new : Operand}
    (h : i.operands.head? ≠ some (.value name)) :
    loweredCall? (i.substitute name new) = loweredCall? i := by
  have hhead : (i.substitute name new).operands.head? = i.operands.head? := by
    rw [Instruction.operands_substitute, List.head?_map]
    cases ho : i.operands.head? with
    | none => rfl
    | some o =>
        have hne : o ≠ .value name := fun he => h (by rw [ho, he])
        rw [Option.map_some, Operand.substitute_of_ne hne]
  refine Option.ext fun call => ?_
  rw [loweredCall?_eq_some_iff, loweredCall?_eq_some_iff, hhead,
    Instruction.directCallee?_substitute]
  rfl

/-- A zero that comes to stand first among the operands may make a lowered call, but that tells
zero. -/
theorem toldOrZero_substitute {i : Instruction} {name : String} {zero : Operand}
    (h : IsZero zero) :
    ToldOrZero (loweredCall? (i.substitute name zero)).toList (loweredCall? i).toList := by
  by_cases hfirst : i.operands.head? = some (.value name)
  · have hhead : (i.substitute name zero).operands.head? = some zero := by
      rw [Instruction.operands_substitute, List.head?_map, hfirst, Option.map_some,
        Operand.substitute, if_pos rfl]
    -- no call was told here before, so only a zero can be new
    rw [loweredCall?_of_value hfirst]
    intro s
    cases hcall : loweredCall? (i.substitute name zero) with
    | none => exact .inl rfl
    | some call =>
        obtain ⟨_, _, _, _, _, _, ho, hid⟩ := loweredCall?_eq_some_iff.mp hcall
        obtain ⟨_, _, rfl, hzero⟩ := h
        rw [hhead] at ho
        cases ho
        rw [Option.toList_some, told?_singleton, hzero _ hid]
        split
        · exact .inr rfl
        · exact .inl rfl
  · rw [loweredCall?_substitute_of_ne hfirst]
    exact .refl _

theorem toldOrZero_substituteAll {i : Instruction} {zeros : List (String × Operand)}
    (h : ∀ z ∈ zeros, IsZero z.2) :
    ToldOrZero (loweredCall? (i.substituteAll zeros)).toList (loweredCall? i).toList := by
  induction zeros generalizing i with
  | nil => exact .refl _
  | cons z zeros ih =>
      obtain ⟨hz, hzs⟩ := List.forall_mem_cons.mp h
      exact (ih hzs).trans (toldOrZero_substitute hz)

end SpecConstant

namespace Function

open SpecConstant

/-- Of the lowered calls of a function those with zeros tell the same, but for zeros. -/
theorem toldOrZero_withZeros {f : Function}
    (hcalls : ∀ i ∈ f.instructions, ∃ c, symbolicCall? i = .ok c) :
    ToldOrZero (f.withZeros.instructions.filterMap loweredCall?)
      (f.instructions.filterMap loweredCall?) := by
  have hzeros : ∀ z ∈ f.zeros, IsZero z.2 := by
    intro z hz
    obtain ⟨i, _, hi⟩ := List.mem_filterMap.mp hz
    obtain ⟨_, c, hc, hzero⟩ := zero?_eq_some_iff.mp hi
    rw [← hzero]
    exact isZero_zeroOperand hc
  rw [instructions_withZeros, List.filterMap_map, List.filterMap_filter]
  refine .filterMap fun i hi => ?_
  obtain ⟨c, hc⟩ := hcalls i hi
  cases c with
  | none =>
      simp only [isSymbolicCall_eq hc, Option.isSome_none, Bool.not_false, if_true]
      exact toldOrZero_substituteAll hzeros
  | some c =>
      simp only [isSymbolicCall_eq hc, Option.isSome_some, Bool.not_true, Bool.false_eq_true,
        if_false, loweredCall?_of_symbolicCall hc]
      exact .refl _

end Function

namespace Module

open SpecConstant

variable {m m' : Module} {a b : Mode} {changed : Bool}

/-- Each number that is recovered after a lowering to defaults is zero or was recovered before. -/
theorem toldOrZero_of_default (hd : m.PrototypesApart isSymbolicName)
    (h : m.lowerSpecConstants .default = (m', .ok changed)) :
    ToldOrZero m'.loweredCalls m.loweredCalls := by
  obtain ⟨hcalls, hm⟩ := lowerSpecConstants_default h
  cases hs : m.hasSymbolicCall with
  | false =>
      rw [hm, hs, if_neg nofun]
      exact .refl _
  | true =>
      have hapart := hd.map Function.name_withZeros Function.body_withZeros
      rw [hm, hs, if_pos rfl, loweredCalls_eq, instructions_dropPrototypes hapart,
        ← loweredCalls_eq, loweredCalls, loweredCalls, List.flatMap_map]
      exact .flatMap fun f hf => Function.toldOrZero_withZeros (hcalls f hf)

/-- If no number was told but zero, a number is free as before. -/
theorem exists_freeId?_of_toldOrZero (h : ToldOrZero m'.loweredCalls m.loweredCalls)
    (hm : ∃ next, freeId? m.specIds = some next) : ∃ next, freeId? m'.specIds = some next := by
  obtain ⟨next, hnext⟩ := hm
  refine exists_freeId? fun s id hs => ?_
  rw [get?_specIds_eq_told?] at hs
  rcases h s with htold | hzero
  · rw [htold, ← get?_specIds_eq_told?] at hs
    have hlt := UInt32.lt_iff_toNat_lt.mp (lt_of_freeId? hnext hs)
    have hsize : next.toNat < UInt32.size := next.toNat_lt
    omega
  · rw [hs] at hzero
    cases hzero
    decide

/-! ## The second run -/

/-- After a lowering there is a free number again. -/
theorem exists_freeId?_of_lowered (hd : m.PrototypesApart isSymbolicName)
    (h : m.lowerSpecConstants a = (m', .ok changed)) :
    ∃ next, freeId? m'.specIds = some next := by
  cases a with
  | runtime =>
      obtain ⟨n, hn, hm⟩ := instructions_of_numbering hd h
      exact exists_freeId?_of_numbered hn hm
  | default =>
      exact exists_freeId?_of_toldOrZero (toldOrZero_of_default hd h)
        (exists_freeId?_of_lowering h)

/-- After a lowering, another one changes nothing, whichever the modes are.  If it does not report
that, it runs out of numbers at once, and this only after a definition was deleted together with a
declaration of its name. -/
theorem lowerSpecConstants_lowered (h : m.lowerSpecConstants a = (m', .ok changed)) :
    (m'.lowerSpecConstants b = (m', .ok false) ∨
      m'.lowerSpecConstants b = (m', .error .idsExhausted)) ∧
    (m.PrototypesApart isSymbolicName → m'.lowerSpecConstants b = (m', .ok false)) := by
  have hsecond := lowerSpecConstants_of_not_symbolic (b := b) (hasSymbolicCall_of_lowering h)
  constructor
  · rw [hsecond]
    split
    · exact .inl rfl
    · exact .inr rfl
  · intro hd
    obtain ⟨next, hnext⟩ := exists_freeId?_of_lowered hd h
    rw [hsecond, hnext, Option.isSome_some, if_pos rfl]

/-- A symbolic call whose result stands where a lowered call has its number. -/
def symbolicNumber : Module where
  sourceName := none
  globals := []
  functions := [
    .declaration "__sycl_getSpecConstantValue" .i1 [],
    .declaration "__spirv_SpecConstant" .i1 [],
    { Function.declaration "f" .void [] with
      body := some [⟨"a", [
        ⟨none, .call .i1 (.direct "__spirv_SpecConstant") [.constant .i32 (.int 7)],
          [⟨"sycl.spec_const", .string "B"⟩]⟩,
        ⟨some "x", .call .i1 (.direct "__sycl_getSpecConstantValue") [.string "A"], []⟩,
        ⟨none, .call .i1 (.direct "__spirv_SpecConstant") [.value "x"],
          [⟨"sycl.spec_const", .string "B"⟩]⟩]⟩] }]
  debugRecords := []

/-- The zero for the result is taken for a number, and a second run goes on from there. -/
theorem symbolicNumber_lowered :
    ∃ m', symbolicNumber.lowerSpecConstants .default = (m', .ok true) ∧
      symbolicNumber.PrototypesApart isSymbolicName ∧
      symbolicNumber.specIds.get? "B" = some 7 ∧ m'.specIds.get? "B" = some 0 ∧
      m'.lowerSpecConstants .runtime = (m', .ok false) := by
  have hl : symbolicNumber.lowerSpecConstants .default =
      ((symbolicNumber.lowerSpecConstants .default).1, .ok true) := by decide +kernel
  have hd : symbolicNumber.PrototypesApart isSymbolicName := prototypesApart_of_nodup (by decide)
  exact ⟨_, hl, hd, by decide +kernel, by decide +kernel, (lowerSpecConstants_lowered hl).2 hd⟩

/-- A definition that has the name of a symbolic intrinsic, and the last call for a string ID. -/
def sharedName : Module where
  sourceName := none
  globals := []
  functions := [
    { Function.declaration "f" .void [] with
      body := some [⟨"a", [
        ⟨none, .call .i1 (.direct "__spirv_SpecConstant") [.constant .i32 (.int 4294967295)],
          [⟨"sycl.spec_const", .string "A"⟩]⟩,
        ⟨none, .call .i1 (.direct "__sycl_getSpecConstantValue") [.string "B"], []⟩]⟩] },
    .declaration "__sycl_getSpecConstantValue" .i1 [],
    { Function.declaration "__sycl_getSpecConstantValue" .i1 [] with
      body := some [⟨"a", [
        ⟨none, .call .i1 (.direct "__spirv_SpecConstant") [.constant .i32 (.int 0)],
          [⟨"sycl.spec_const", .string "A"⟩]⟩]⟩] }]
  debugRecords := []

/-- It is deleted with the declaration, and the greatest number comes to light. -/
theorem sharedName_runs_out :
    ∃ m', sharedName.lowerSpecConstants .default = (m', .ok true) ∧
      m'.lowerSpecConstants .runtime = (m', .error .idsExhausted) := by
  have hl : sharedName.lowerSpecConstants .default =
      ((sharedName.lowerSpecConstants .default).1, .ok true) := by decide +kernel
  exact ⟨_, hl, by decide +kernel⟩

end Module

end DeviceCode
