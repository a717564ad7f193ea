import DeviceCode.Assembly.Reading
import DeviceCode.Proofs.Module.Equality
import DeviceCode.Proofs.SpecConstant.Numbers

/-!
# Which numbers a lowered module tells

A lowered module tells the number of a constant by the last instruction that is recorded under its
string ID (`get?_specIds_of_lowering`).  A lowered call is recorded under its first attachment of
the kind that holds string IDs, but the ID of a symbolic call is attached behind all others.  So a
symbolic call with such an attachment of its own is recorded under another string, and the number of
a constant is recovered exactly if the last instruction recorded under its ID tells it.
-/

namespace DeviceCode

namespace SortedMap

variable {α : Type} {m : SortedMap α} {k : String}

@[simp] theorem get?_empty : (empty : SortedMap α).get? k = none := rfl

/-- Of several inserts at a key the last one counts. -/
theorem get?_foldl_insert {β : Type} {key : β → String} {value : β → α} {l : List β} :
    (l.foldl (fun m b => m.insert (key b) (value b)) m).get? k =
      ((l.reverse.find? (key · == k)).map value).or (m.get? k) := by
  induction l generalizing m with
  | nil => rfl
  | cons b l ih =>
      have hb : (m.insert (key b) (value b)).get? k =
          (([b].find? (key · == k)).map value).or (m.get? k) := by
        rw [insert, get?_alter]
        by_cases hk : k = key b
        · simp [hk]
        · simp [hk, Ne.symm hk]
      rw [List.foldl_cons, ih, hb, ← Option.or_assoc, ← Option.map_or, ← List.find?_append,
        List.reverse_cons]

end SortedMap

namespace SpecConstant

/-! ## Lowered calls -/

/-- A number in an operand is recovered as it was. -/
@[simp] theorem idOfLiteral?_ofInt (id : UInt32) :
    idOfLiteral? (.int (.ofInt id.toNat)) = some id := by
  have hlt : id.toNat < 2 ^ 32 := id.toNat_lt
  have hv : (Int64.ofInt id.toNat).toInt = id.toNat :=
    Int64.toInt_ofInt_of_le (by omega) (by omega)
  rw [idOfLiteral?, hv, if_pos ⟨Int.natCast_nonneg _, hlt⟩]
  simp

/-- The number that lowered calls tell for a string; of several the last. -/
def told? (calls : List (String × UInt32)) (s : String) : Option UInt32 :=
  (calls.reverse.find? (·.1 == s)).map (·.2)

/-- Of calls in a row the last one tells. -/
@[simp] theorem told?_append (calls calls' : List (String × UInt32)) (s : String) :
    told? (calls ++ calls') s = (told? calls' s).or (told? calls s) := by
  rw [told?, List.reverse_append, List.find?_append, Option.map_or]
  rfl

@[simp] theorem told?_singleton (call : String × UInt32) (s : String) :
    told? [call] s = if call.1 = s then some call.2 else none := by
  by_cases hs : call.1 = s
  · simp [told?, hs]
  · simp [told?, hs]

/-- A lowered call is known by its callee, by its string ID and by the first of its operands. -/
theorem loweredCall?_eq_some_iff {i : Instruction} {call : String × UInt32} :
    loweredCall? i = some call ↔ ∃ callee type literal,
      i.directCallee? = some callee ∧ isNumberedName callee ∧
        i.attachment? attachmentKind = some (.string call.1) ∧
        i.operands.head? = some (.constant type literal) ∧ idOfLiteral? literal = some call.2 := by
  constructor
  · intro h
    unfold loweredCall? at h
    split at h
    case h_2 => cases h
    case h_1 callee s type literal operands hc ha ho =>
      split at h
      case isFalse => cases h
      case isTrue hn =>
        obtain ⟨id, hid, rfl⟩ := Option.map_eq_some_iff.mp h
        exact ⟨callee, type, literal, hc, hn, ha, by rw [ho, List.head?_cons], hid⟩
  · rintro ⟨callee, type, literal, hc, hn, ha, ho, hid⟩
    obtain ⟨operands, ho⟩ := List.head?_eq_some_iff.mp ho
    rw [loweredCall?, hc, ha, ho]
    simp only [hn, if_true, hid, Option.map_some]

/-- A symbolic call is no lowered call. -/
theorem loweredCall?_of_symbolicCall {i : Instruction} {c : SymbolicCall}
    (h : symbolicCall? i = .ok (some c)) : loweredCall? i = none := by
  have hs : i.isSymbolicCall := by rw [isSymbolicCall_eq h, Option.isSome_some]
  obtain ⟨callee, hc, hs⟩ := (Option.any_eq_true _ _).mp hs
  rw [Option.eq_none_iff_forall_ne_some]
  intro call hcall
  obtain ⟨callee', _, _, hc', hn, _⟩ := loweredCall?_eq_some_iff.mp hcall
  obtain rfl : callee = callee' := Option.some.inj (hc.symm.trans hc')
  exact not_isNumberedName_of_isSymbolicName hs hn

/-- The string under which an instruction is recorded after a lowering. -/
def recordedAs? (i : Instruction) : Option String :=
  match symbolicCall? i with
  | .ok (some c) =>
    match i.attachment? attachmentKind with
    | none => some c.id
    | some (.string s) => some s
    | some _ => none
  | _ => (loweredCall? i).map (·.1)

/-- The constant whose number an instruction tells that is recorded under a string. -/
def constantOf (s : String) (i : Instruction) : String :=
  match symbolicCall? i with
  | .ok (some c) => c.id
  | _ => s

section NotSymbolic

variable {i : Instruction} (h : ∀ c, symbolicCall? i ≠ .ok (some c))
include h

theorem numbered_of_not_symbolic (number : String → UInt32) : numbered number i = i := by
  unfold numbered
  split
  case h_1 c hc => exact absurd hc (h c)
  case h_2 => rfl

theorem recordedAs?_of_not_symbolic : recordedAs? i = (loweredCall? i).map (·.1) := by
  unfold recordedAs?
  split
  case h_1 c hc => exact absurd hc (h c)
  case h_2 => rfl

theorem constantOf_of_not_symbolic (s : String) : constantOf s i = s := by
  unfold constantOf
  split
  case h_1 c hc => exact absurd hc (h c)
  case h_2 => rfl

end NotSymbolic

/-- A symbolic call is for the constant of its string ID. -/
theorem constantOf_of_some {i : Instruction} {c : SymbolicCall} (s : String)
    (h : symbolicCall? i = .ok (some c)) : constantOf s i = c.id := by
  rw [constantOf, h]

/-- Without an attachment of its own a symbolic call is recorded under its string ID. -/
theorem recordedAs?_of_attachment?_none {i : Instruction} {c : SymbolicCall}
    (h : symbolicCall? i = .ok (some c)) (ha : i.attachment? attachmentKind = none) :
    recordedAs? i = some c.id := by
  rw [recordedAs?, h]
  simp only [ha]

/-- A lowered call is recorded under the string ID that it tells. -/
theorem recordedAs?_of_loweredCall? {i : Instruction} {call : String × UInt32}
    (h : loweredCall? i = some call) : recordedAs? i = some call.1 := by
  rw [recordedAs?_of_not_symbolic, h, Option.map_some]
  intro c hc
  rw [loweredCall?_of_symbolicCall hc] at h
  cases h

/-- A symbolic call becomes a lowered call with its number, unless its first attachment of the kind
is no string. -/
theorem loweredCall?_lower {i : Instruction} {c : SymbolicCall} (id : UInt32)
    (h : symbolicCall? i = .ok (some c)) :
    loweredCall? (c.lower id i) = (recordedAs? i).map (·, id) := by
  have ha : (c.lower id i).attachment? attachmentKind =
      (i.attachment? attachmentKind).or (some (.string c.id)) := by
    rw [Instruction.attachment?, SymbolicCall.lower, List.find?_append, Option.map_or]
    rfl
  have hc : (c.lower id i).directCallee? = some (numberedName c.type) := rfl
  have ho : (c.lower id i).operands =
      [.constant .i32 (.int (.ofInt id.toNat)), c.zeroOperand] := rfl
  rw [loweredCall?, recordedAs?, hc, ho, ha, h]
  cases i.attachment? attachmentKind with
  | none => simp [isNumberedName_numberedName]
  | some operand =>
      cases operand with
      | string s => simp [isNumberedName_numberedName]
      | value | symbol | constant | block | metadata => rfl

/-- After a lowering, an instruction tells the number of its constant under the string that it is
recorded under. -/
theorem loweredCall?_numbered {number : String → UInt32} {i : Instruction} {s : String}
    (hn : ∀ call, loweredCall? i = some call → call.1 = s → number s = call.2)
    (h : recordedAs? i = some s) :
    loweredCall? (numbered number i) = some (s, number (constantOf s i)) := by
  by_cases hc : ∃ c, symbolicCall? i = .ok (some c)
  · obtain ⟨c, hc⟩ := hc
    rw [numbered_of_some hc, loweredCall?_lower _ hc, h, constantOf_of_some s hc, Option.map_some]
  · have hc := not_exists.mp hc
    rw [recordedAs?_of_not_symbolic hc] at h
    obtain ⟨⟨s', id⟩, hcall, rfl⟩ := Option.map_eq_some_iff.mp h
    rw [numbered_of_not_symbolic hc, constantOf_of_not_symbolic hc, hcall, hn _ hcall rfl]

/-- With whatever numbers, instructions are recorded under the same strings. -/
theorem map_fst_loweredCall?_numbered (number : String → UInt32) (i : Instruction) :
    (loweredCall? (numbered number i)).map (·.1) = recordedAs? i := by
  by_cases hc : ∃ c, symbolicCall? i = .ok (some c)
  · obtain ⟨c, hc⟩ := hc
    rw [numbered_of_some hc, loweredCall?_lower _ hc, Option.map_map]
    exact Option.map_id'
  · have hc := not_exists.mp hc
    rw [numbered_of_not_symbolic hc, recordedAs?_of_not_symbolic hc]

end SpecConstant

namespace Module

open SpecConstant

variable {m m' : Module} {changed : Bool}

/-- The last instruction that a lowering leaves recorded under a string. -/
def lastRecorded? (m : Module) (s : String) : Option Instruction :=
  m.instructions.reverse.find? (recordedAs? · == some s)

theorem loweredCalls_eq (m : Module) : m.loweredCalls = m.instructions.filterMap loweredCall? := by
  rw [loweredCalls, instructions, List.filterMap_flatMap]

/-- What is recovered from a module is what its lowered calls tell. -/
theorem get?_specIds_eq_told? (m : Module) (s : String) :
    m.specIds.get? s = told? m.loweredCalls s := by
  rw [specIds, SortedMap.get?_foldl_insert, SortedMap.get?_empty, Option.or_none, told?]

/-- The number of a string ID is told by the last call that is recorded under it. -/
theorem get?_specIds (m : Module) (s : String) :
    m.specIds.get? s =
      (m.instructions.reverse.find? fun i => (loweredCall? i).map (·.1) == some s).bind
        fun i => (loweredCall? i).map (·.2) := by
  have hs : ∀ i : Instruction,
      (loweredCall? i).any (·.1 == s) = ((loweredCall? i).map (·.1) == some s) := by
    intro i
    cases loweredCall? i with
    | none => rfl
    | some call => rfl
  rw [get?_specIds_eq_told?, told?, loweredCalls_eq, ← List.filterMap_reverse, List.find?_filterMap]
  simp only [hs, Option.map_bind, Function.comp_def]

/-- A numbering that keeps the numbers of a module agrees with the last instruction recorded under a
string, if that is a lowered call already. -/
theorem number_of_lastRecorded? {number : String → UInt32} (hn : Extends number m.specIds)
    {s : String} {j : Instruction} (hj : m.lastRecorded? s = some j) {call : String × UInt32}
    (hcall : loweredCall? j = some call) (hs : call.1 = s) : number s = call.2 := by
  obtain ⟨_, before, behind, hsplit, hbefore⟩ := List.find?_eq_some_iff_append.mp hj
  have hlast : m.instructions.reverse.find? (fun i => (loweredCall? i).map (·.1) == some s) =
      some j := by
    refine List.find?_eq_some_iff_append.mpr ⟨by simp [hcall, hs], before, behind, hsplit, ?_⟩
    intro i hi
    cases hl : loweredCall? i with
    | none => rfl
    | some call' => rw [Option.map_some, ← recordedAs?_of_loweredCall? hl]; exact hbefore i hi
  refine hn s call.2 ?_
  rw [get?_specIds, hlast, Option.bind_some, hcall, Option.map_some]

/-- The number told for a string is that of the constant that the last instruction recorded under it
stands for. -/
theorem get?_specIds_of_numbered {number : String → UInt32} (hn : Extends number m.specIds)
    (hm : m'.instructions = m.instructions.map (numbered number)) (s : String) :
    m'.specIds.get? s = (m.lastRecorded? s).map fun j => number (constantOf s j) := by
  have hlast : m'.instructions.reverse.find? (fun i => (loweredCall? i).map (·.1) == some s) =
      (m.lastRecorded? s).map (numbered number) := by
    rw [hm, ← List.map_reverse, List.find?_map]
    simp only [Function.comp_def, map_fst_loweredCall?_numbered, lastRecorded?]
  rw [get?_specIds, hlast, Option.bind_map]
  cases hj : m.lastRecorded? s with
  | none => rfl
  | some j =>
      have hrecorded : recordedAs? j = some s := by simpa using List.find?_some hj
      rw [Option.bind_some, Function.comp_apply, Option.map_some,
        loweredCall?_numbered (fun _ => number_of_lastRecorded? hn hj) hrecorded, Option.map_some]

/-- The number that a symbolic call gets is recovered from the lowered module exactly if the last
instruction recorded under its string ID tells it.  It does if no symbolic call has an attachment of
the kind that holds string IDs. -/
theorem specIds_of_lowering_iff (hn : (m.functions.map (·.name)).Nodup)
    (h : m.lowerSpecConstants .runtime = (m', .ok changed)) :
    ∃ number : String → UInt32, m'.instructions = m.instructions.map (numbered number) ∧
      ∀ i ∈ m.instructions, ∀ c, symbolicCall? i = .ok (some c) →
        (m'.specIds.get? c.id = some (number c.id) ↔
          ∃ j, m.lastRecorded? c.id = some j ∧ number (constantOf c.id j) = number c.id) ∧
        ((∀ j ∈ m.instructions, j.isSymbolicCall → j.attachment? attachmentKind = none) →
          m'.specIds.get? c.id = some (number c.id)) := by
  obtain ⟨number, hnumber, hm⟩ := instructions_of_lowering hn h
  refine ⟨number, hm, fun i hi c hc => ?_⟩
  have hiff : m'.specIds.get? c.id = some (number c.id) ↔
      ∃ j, m.lastRecorded? c.id = some j ∧ number (constantOf c.id j) = number c.id := by
    rw [get?_specIds_of_numbered hnumber hm, Option.map_eq_some_iff]
  refine ⟨hiff, fun hnone => hiff.mpr ?_⟩
  have hi' := recordedAs?_of_attachment?_none hc
    (hnone i hi (by rw [isSymbolicCall_eq hc, Option.isSome_some]))
  obtain ⟨j, hj⟩ : ∃ j, m.lastRecorded? c.id = some j :=
    Option.isSome_iff_exists.mp
      (List.find?_isSome.mpr ⟨i, List.mem_reverse.mpr hi, beq_iff_eq.mpr hi'⟩)
  refine ⟨j, hj, ?_⟩
  have hjs : recordedAs? j = some c.id := by simpa using List.find?_some hj
  by_cases hd : ∃ d, symbolicCall? j = .ok (some d)
  · obtain ⟨d, hd⟩ := hd
    have hjm : j ∈ m.instructions := List.mem_reverse.mp (List.mem_of_find?_eq_some hj)
    rw [recordedAs?_of_attachment?_none hd
      (hnone j hjm (by rw [isSymbolicCall_eq hd, Option.isSome_some]))] at hjs
    rw [constantOf_of_some _ hd, Option.some.inj hjs]
  · rw [constantOf_of_not_symbolic (not_exists.mp hd)]

/-- A symbolic call for one constant that has the string ID of another one attached. -/
def attachedId : Module where
  sourceName := none
  globals := []
  functions := [
    .declaration "__sycl_getSpecConstantValue" .i32 ["id"],
    { Function.declaration "f" .void [] with
      body := some [⟨"entry", [
        ⟨some "a", .call .i32 (.direct "__sycl_getSpecConstantValue") [.string "A"],
          [⟨"sycl.spec_const", .string "B"⟩]⟩,
        ⟨none, .operation "ret" [], []⟩]⟩] }]
  debugRecords := []

/-- The call is recorded under the other constant, and no instruction under its own. -/
theorem attached_id_not_recovered :
    ∃ (m' : Module) (number : String → UInt32),
      Module.read ("declare i32 @__sycl_getSpecConstantValue(%id)\n\n" ++
        "define void @f() \x7b\nentry:\n" ++
        "  %a = call i32 @__sycl_getSpecConstantValue(\"A\") !sycl.spec_const \"B\"\n" ++
        "  ret\n\x7d\n") = .ok attachedId ∧
      attachedId.lowerSpecConstants .runtime = (m', .ok true) ∧
      m'.instructions = attachedId.instructions.map (numbered number) ∧
      m'.specIds.get? "A" ≠ some (number "A") := by
  have hr : Module.read ("declare i32 @__sycl_getSpecConstantValue(%id)\n\n" ++
        "define void @f() \x7b\nentry:\n" ++
        "  %a = call i32 @__sycl_getSpecConstantValue(\"A\") !sycl.spec_const \"B\"\n" ++
        "  ret\n\x7d\n") = .ok attachedId := by decide +kernel
  have hl : attachedId.lowerSpecConstants .runtime =
      ((attachedId.lowerSpecConstants .runtime).1, .ok true) := by decide +kernel
  obtain ⟨number, hm, hrecovered⟩ := specIds_of_lowering_iff (by decide) hl
  refine ⟨_, number, hr, hl, hm, fun ha => ?_⟩
  have hcall : symbolicCall? attachedId.instructions[0] =
      .ok (some ⟨"A", .i32, .int 0⟩) := by decide +kernel
  obtain ⟨j, hj, _⟩ := (hrecovered _ (List.getElem_mem _) _ hcall).1.mp ha
  have hnone : attachedId.lastRecorded? "A" = none := by decide +kernel
  rw [hnone] at hj
  cases hj

end Module

end DeviceCode
