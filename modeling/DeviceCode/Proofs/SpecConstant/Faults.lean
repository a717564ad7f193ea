import DeviceCode.Proofs.SpecConstant.Exhaustion

/-!
# Malformed calls

A lowering fails at the first call of a symbolic intrinsic that is malformed, and tells the function
that the call is in and what is wrong with it: the arguments, or else the type.  What it does to the
instructions in front makes no difference, so that it fails alike in both modes
(`malformedCall_of_lowering_iff`).
-/

namespace DeviceCode

namespace SpecConstant

/-! ## One call -/

/-- What is wrong with a direct call of a symbolic intrinsic: that its arguments are not one string,
or else that there is no constant of its type. -/
inductive HasFault : Instruction → Reason → Prop where
  | arguments {result : Option String} {type : ValueType} {callee : String}
      {arguments : List Operand} {attachments : List Attachment} :
      isSymbolicName callee → (∀ id, arguments ≠ [.string id]) →
      HasFault ⟨result, .call type (.direct callee) arguments, attachments⟩ (.notOneString callee)
  | type {result : Option String} {type : ValueType} {callee id : String}
      {attachments : List Attachment} :
      isSymbolicName callee → type = .void ∨ type = .ptr →
      HasFault ⟨result, .call type (.direct callee) [.string id], attachments⟩
        (.unsupportedType type id)

/-- Only two types have no zero. -/
theorem zeroOf?_eq_none_iff {type : ValueType} :
    zeroOf? type = none ↔ type = .void ∨ type = .ptr := by
  cases type <;> simp [zeroOf?, ValueType.zero?]

/-- A symbolic call cannot be lowered exactly if something is wrong with it. -/
theorem symbolicCall?_eq_error_iff {i : Instruction} {reason : Reason} :
    symbolicCall? i = .error reason ↔ HasFault i reason := by
  constructor
  · intro h
    rcases i with ⟨result, action, attachments⟩
    unfold symbolicCall? at h
    split at h
    case h_2 => cases h
    case h_1 type callee arguments ha =>
      cases ha
      split at h
      case isFalse => cases h
      case isTrue hs =>
        split at h
        case h_1 id =>
          split at h
          case h_1 => cases h
          case h_2 hzero =>
            cases h
            exact .type hs (zeroOf?_eq_none_iff.mp hzero)
        case h_2 hargs =>
          cases h
          exact .arguments hs hargs
  · intro h
    cases h with
    | arguments hs hargs =>
        rw [symbolicCall?]
        dsimp only
        rw [if_pos hs]
        split
        case h_1 id => exact absurd rfl (hargs id)
        case h_2 => rfl
    | type hs ht =>
        rw [symbolicCall?]
        dsimp only
        rw [if_pos hs, zeroOf?_eq_none_iff.mpr ht]

end SpecConstant

open SpecConstant

/-- A call of a symbolic intrinsic that cannot be lowered. -/
def Instruction.IsMalformed (i : Instruction) : Prop := ∃ reason, HasFault i reason

/-- A malformed call is one that cannot be lowered. -/
theorem Instruction.isMalformed_iff {i : Instruction} :
    i.IsMalformed ↔ (symbolicCall? i).isOk = false := by
  simp only [IsMalformed, ← symbolicCall?_eq_error_iff]
  cases symbolicCall? i with
  | error reason => exact iff_of_true ⟨reason, rfl⟩ rfl
  | ok c => exact iff_of_false nofun nofun

instance (i : Instruction) : Decidable i.IsMalformed :=
  decidable_of_iff _ Instruction.isMalformed_iff.symm

theorem Instruction.not_isMalformed_iff {i : Instruction} :
    ¬ i.IsMalformed ↔ ∃ c, symbolicCall? i = .ok c := by
  rw [isMalformed_iff]
  cases symbolicCall? i with
  | error reason => exact iff_of_false (fun h => h rfl) nofun
  | ok c => exact iff_of_true nofun ⟨c, rfl⟩

/-! ## Visits -/

namespace SpecConstant

variable {mode : Mode} {function : String} {reason : Reason}

/-- A visit fails at malformed calls only, and tells their functions. -/
theorem visit_eq_malformedCall_iff {t : Tally} {entry : String × Instruction} :
    visit mode t entry = .error (.malformedCall function reason) ↔
      entry.1 = function ∧ HasFault entry.2 reason := by
  rw [← symbolicCall?_eq_error_iff]
  unfold visit
  cases hc : symbolicCall? entry.2 with
  | error reason' => simp
  | ok c =>
      refine iff_of_false (fun h => ?_) nofun
      cases c with
      | none => cases h
      | some c =>
          cases mode with
          | default => cases h
          | runtime =>
              dsimp only at h
              split at h
              · cases h
              · cases h

/-- Where no call is malformed, only the numbers can end a series of visits. -/
theorem foldlM_visit_of_wellFormed {entries : List (String × Instruction)}
    (h : ∀ entry ∈ entries, ¬ entry.2.IsMalformed) (t : Tally) :
    (∃ t', entries.foldlM (visit mode) t = .ok t') ∨
      entries.foldlM (visit mode) t = .error .idsExhausted := by
  induction entries generalizing t with
  | nil => exact .inl ⟨t, rfl⟩
  | cons entry entries ih =>
      obtain ⟨hentry, hentries⟩ := List.forall_mem_cons.mp h
      rw [List.foldlM_cons]
      cases hv : visit mode t entry with
      | ok t' => exact ih hentries t'
      | error e =>
          cases e with
          | idsExhausted => exact .inr rfl
          | malformedCall function reason =>
              exact absurd ⟨reason, (visit_eq_malformedCall_iff.mp hv).2⟩ hentry

/-- A series of visits ends at the first malformed call, if the numbers last so long. -/
theorem foldlM_visit_of_hasFault {entries rest : List (String × Instruction)} {i : Instruction}
    (h : ∀ entry ∈ entries, ¬ entry.2.IsMalformed) (hi : HasFault i reason) (t : Tally) :
    (entries ++ (function, i) :: rest).foldlM (visit mode) t =
        .error (.malformedCall function reason) ∨
      (entries ++ (function, i) :: rest).foldlM (visit mode) t = .error .idsExhausted := by
  rw [List.foldlM_append]
  rcases foldlM_visit_of_wellFormed h t with ⟨t', ht'⟩ | hex
  · refine .inl ?_
    have hv : visit mode t' (function, i) = .error (.malformedCall function reason) :=
      visit_eq_malformedCall_iff.mpr ⟨rfl, hi⟩
    rw [ht']
    change (visit mode t' (function, i) >>= _) = _
    rw [hv]
    rfl
  · rw [hex]
    exact .inr rfl

end SpecConstant

/-! ## The first malformed call -/

/-- The place of the first malformed call: functions come first, then blocks, then instructions. -/
structure Module.Fault (m : Module) where
  before : List Function
  function : Function
  after : List Function
  blocksBefore : List Block
  block : Block
  blocksAfter : List Block
  front : List Instruction
  call : Instruction
  back : List Instruction
  reason : Reason
  functions_eq : m.functions = before ++ function :: after
  body_eq : function.body = some (blocksBefore ++ block :: blocksAfter)
  instructions_eq : block.instructions = front ++ call :: back
  hasFault : HasFault call reason
  before_wellFormed : ∀ f ∈ before, ∀ i ∈ f.instructions, ¬ i.IsMalformed
  blocksBefore_wellFormed : ∀ b ∈ blocksBefore, ∀ i ∈ b.instructions, ¬ i.IsMalformed
  front_wellFormed : ∀ i ∈ front, ¬ i.IsMalformed

namespace Module

variable {m : Module}

theorem nonempty_fault_iff :
    Nonempty m.Fault ↔ ∃ f ∈ m.functions, ∃ i ∈ f.instructions, i.IsMalformed := by
  constructor
  · rintro ⟨p⟩
    refine ⟨p.function, ?_, p.call, ?_, p.reason, p.hasFault⟩
    · rw [p.functions_eq]
      exact List.mem_append_right _ List.mem_cons_self
    · rw [Function.instructions_of_some p.body_eq]
      refine List.mem_flatMap.mpr ⟨p.block, List.mem_append_right _ List.mem_cons_self, ?_⟩
      rw [p.instructions_eq]
      exact List.mem_append_right _ List.mem_cons_self
  · intro h
    obtain ⟨before, f, after, hm, ⟨i, hi, hmalformed⟩, hbefore⟩ := exists_first h
    cases hbody : f.body with
    | none =>
        rw [Function.instructions_of_none hbody] at hi
        cases hi
    | some blocks =>
        rw [Function.instructions_of_some hbody] at hi
        obtain ⟨b, hb, hib⟩ := List.mem_flatMap.mp hi
        obtain ⟨blocksBefore, block, blocksAfter, hblocks, hblock, hblocksBefore⟩ :=
          exists_first (p := fun b : Block => ∃ i ∈ b.instructions, i.IsMalformed)
            ⟨b, hb, i, hib, hmalformed⟩
        obtain ⟨front, call, back, hinstructions, ⟨reason, hfault⟩, hfront⟩ := exists_first hblock
        exact ⟨{
          before, function := f, after, blocksBefore, block, blocksAfter, front, call, back, reason
          functions_eq := hm
          body_eq := hblocks ▸ hbody
          instructions_eq := hinstructions
          hasFault := hfault
          before_wellFormed := fun g hg j hj hjm => hbefore g hg ⟨j, hj, hjm⟩
          blocksBefore_wellFormed := fun c hc j hj hjm => hblocksBefore c hc ⟨j, hj, hjm⟩
          front_wellFormed := hfront }⟩

namespace Fault

variable (p : m.Fault)

/-- The instructions in front of the block with the first malformed call. -/
def finished : List Instruction :=
  p.before.flatMap Function.instructions ++ p.blocksBefore.flatMap (·.instructions)

/-- In front of the function of the fault nothing is malformed. -/
theorem finished_wellFormed : ∀ i ∈ p.finished, ¬ i.IsMalformed := by
  intro i hi
  rcases List.mem_append.mp hi with hi | hi
  · obtain ⟨f, hf, hi⟩ := List.mem_flatMap.mp hi
    exact p.before_wellFormed f hf i hi
  · obtain ⟨b, hb, hi⟩ := List.mem_flatMap.mp hi
    exact p.blocksBefore_wellFormed b hb i hi

/-- All instructions in front of the first malformed call, with the names of their functions. -/
def entries : List (String × Instruction) :=
  p.before.flatMap (fun f => f.instructions.map (f.name, ·)) ++
    (p.blocksBefore.flatMap (fun b => b.instructions.map (p.function.name, ·)) ++
      p.front.map (p.function.name, ·))

theorem map_snd_entries : p.entries.map (·.2) = p.finished ++ p.front := by
  simp [entries, finished, List.map_flatMap, Function.comp_def]

/-- Nor is anything in front of the fault in its own function. -/
theorem inFront_wellFormed : ∀ i ∈ p.finished ++ p.front, ¬ i.IsMalformed := by
  intro i hi
  rcases List.mem_append.mp hi with hi | hi
  · exact p.finished_wellFormed i hi
  · exact p.front_wellFormed i hi

theorem entries_wellFormed : ∀ entry ∈ p.entries, ¬ entry.2.IsMalformed := fun entry he =>
  p.inFront_wellFormed entry.2 (p.map_snd_entries ▸ List.mem_map_of_mem he)

theorem exists_namedInstructions_eq :
    ∃ rest, m.namedInstructions = p.entries ++ (p.function.name, p.call) :: rest := by
  refine ⟨p.back.map (p.function.name, ·) ++
    (p.blocksAfter.flatMap (fun b => b.instructions.map (p.function.name, ·)) ++
      p.after.flatMap fun f => f.instructions.map (f.name, ·)), ?_⟩
  rw [namedInstructions, p.functions_eq, List.flatMap_append, List.flatMap_cons,
    Function.instructions_of_some p.body_eq, List.map_flatMap, List.flatMap_append,
    List.flatMap_cons, p.instructions_eq]
  simp [entries]

/-- A lowering reports the first malformed call, if the numbers last so long. -/
theorem lowerSpecConstants_snd_eq (mode : Mode) :
    (m.lowerSpecConstants mode).2 = .error (.malformedCall p.function.name p.reason) ∨
      (m.lowerSpecConstants mode).2 = .error .idsExhausted := by
  obtain ⟨rest, hentries⟩ := p.exists_namedInstructions_eq
  rw [lowerSpecConstants_snd, hentries]
  cases freeId? m.specIds with
  | none => exact .inr rfl
  | some next =>
      dsimp only
      rcases foldlM_visit_of_hasFault p.entries_wellFormed p.hasFault
          ⟨⟨m.specIds, next⟩, [], false⟩ with h | h
      · rw [h]
        exact .inl rfl
      · rw [h]
        exact .inr rfl

end Fault

/-- A malformed call that is reported has been found by a visit. -/
theorem visits_of_malformedCall {mode : Mode} {function : String} {reason : Reason}
    (h : (m.lowerSpecConstants mode).2 = .error (.malformedCall function reason)) :
    ∃ next, freeId? m.specIds = some next ∧
      m.namedInstructions.foldlM (visit mode) ⟨⟨m.specIds, next⟩, [], false⟩ =
        .error (.malformedCall function reason) := by
  rw [lowerSpecConstants_snd] at h
  cases hnext : freeId? m.specIds with
  | none =>
      rw [hnext] at h
      cases h
  | some next =>
      rw [hnext] at h
      dsimp only at h
      refine ⟨next, rfl, ?_⟩
      cases hv : m.namedInstructions.foldlM (visit mode) ⟨⟨m.specIds, next⟩, [], false⟩ with
      | error e =>
          rw [hv] at h
          cases h
          rfl
      | ok t =>
          rw [hv] at h
          cases h

/-- Only a malformed call is reported as one. -/
theorem nonempty_fault_of_lowering {mode : Mode} {function : String} {reason : Reason}
    (h : (m.lowerSpecConstants mode).2 = .error (.malformedCall function reason)) :
    Nonempty m.Fault := by
  rw [nonempty_fault_iff]
  by_contra hnone
  have hentries : ∀ entry ∈ m.namedInstructions, ¬ entry.2.IsMalformed := by
    intro entry he hmalformed
    obtain ⟨f, hf, he⟩ := List.mem_flatMap.mp he
    obtain ⟨i, hi, rfl⟩ := List.mem_map.mp he
    exact hnone ⟨f, hf, i, hi, hmalformed⟩
  obtain ⟨next, -, hv⟩ := visits_of_malformedCall h
  rcases foldlM_visit_of_wellFormed hentries ⟨⟨m.specIds, next⟩, [], false⟩ with ⟨t, ht⟩ | ht
  · rw [ht] at hv
    cases hv
  · rw [ht] at hv
    cases hv

/-- If numbers do not run out, a lowering fails with the first fault of the module. -/
theorem lowerSpecConstants_snd_eq_malformedCall_iff {mode : Mode}
    (h : (m.lowerSpecConstants mode).2 ≠ .error .idsExhausted) {function : String}
    {reason : Reason} :
    (m.lowerSpecConstants mode).2 = .error (.malformedCall function reason) ↔
      ∃ p : m.Fault, p.function.name = function ∧ p.reason = reason := by
  constructor
  · intro he
    obtain ⟨p⟩ := nonempty_fault_of_lowering he
    have hp := (p.lowerSpecConstants_snd_eq mode).resolve_right h
    rw [he] at hp
    cases hp
    exact ⟨p, rfl, rfl⟩
  · rintro ⟨p, rfl, rfl⟩
    exact (p.lowerSpecConstants_snd_eq mode).resolve_right h

/-- If the numbers last, a lowering fails exactly if some body has a malformed call, and it tells
the function of the first one and what is wrong with this call, in both modes. -/
theorem malformedCall_of_lowering_iff {mode : Mode}
    (h : (m.lowerSpecConstants mode).2 ≠ .error .idsExhausted) :
    ((∃ function reason, (m.lowerSpecConstants mode).2 = .error (.malformedCall function reason)) ↔
      ∃ f ∈ m.functions, ∃ i ∈ f.instructions, i.IsMalformed) ∧
    (∀ function reason,
      (m.lowerSpecConstants mode).2 = .error (.malformedCall function reason) ↔
        ∃ p : m.Fault, p.function.name = function ∧ p.reason = reason) ∧
    ∀ other, (m.lowerSpecConstants other).2 ≠ .error .idsExhausted → ∀ function reason,
      ((m.lowerSpecConstants other).2 = .error (.malformedCall function reason) ↔
        (m.lowerSpecConstants mode).2 = .error (.malformedCall function reason)) := by
  refine ⟨?_, fun function reason => lowerSpecConstants_snd_eq_malformedCall_iff h, ?_⟩
  · rw [← nonempty_fault_iff]
    constructor
    · rintro ⟨function, reason, he⟩
      exact nonempty_fault_of_lowering he
    · rintro ⟨p⟩
      exact ⟨_, _, (p.lowerSpecConstants_snd_eq mode).resolve_right h⟩
  · intro other hother function reason
    rw [lowerSpecConstants_snd_eq_malformedCall_iff h,
      lowerSpecConstants_snd_eq_malformedCall_iff hother]

/-- Calls that can be lowered in front of a call with wrong arguments, one of which is the result of
a deleted call, and a wrong type; behind it, calls of which only the type is wrong. -/
def severalFaults : Module where
  sourceName := none
  globals := []
  functions := [
    .declaration "__sycl_getSpecConstantValue" .i32 ["id"],
    { Function.declaration "f" .void [] with
      body := some [⟨"entry", [
        ⟨some "a", .call .i32 (.direct "__sycl_getSpecConstantValue") [.string "A"], []⟩,
        ⟨none, .operation "ret" [.value "a"], []⟩]⟩] },
    { Function.declaration "g" .void [] with
      body := some [
        ⟨"entry", [
          ⟨some "b", .call .i32 (.direct "__sycl_getSpecConstantValue") [.string "B"], []⟩,
          ⟨none, .operation "use" [.value "b"], []⟩]⟩,
        ⟨"next", [⟨some "c", .call .f32 (.direct "__sycl_getSpecConstantValue") [.string "A"], []⟩,
          ⟨none, .call .void (.direct "__sycl_getSpecConstantValue") [.value "b"], []⟩,
          ⟨some "d", .call .ptr (.direct "__sycl_getSpecConstantValue") [.string "D"], []⟩]⟩,
        ⟨"last", [⟨some "e", .call .i32 (.direct "__sycl_getSpecConstantValue") [.string "B"], []⟩,
          ⟨none, .operation "ret" [.value "c"], []⟩]⟩] },
    { Function.declaration "h" .void [] with
      body := some [⟨"entry", [
        ⟨none, .call .void (.direct "__sycl_getSpecConstantValue") [.string "H"], []⟩]⟩] }]
  debugRecords := []

/-- Its first malformed call. -/
def severalFaultsFirst : severalFaults.Fault where
  before := severalFaults.functions.take 2
  function := severalFaults.functions[2]
  after := severalFaults.functions.drop 3
  blocksBefore := severalFaults.functions[2].blocks.take 1
  block := severalFaults.functions[2].blocks[1]
  blocksAfter := severalFaults.functions[2].blocks.drop 2
  front := severalFaults.functions[2].blocks[1].instructions.take 1
  call := severalFaults.functions[2].blocks[1].instructions[1]
  back := severalFaults.functions[2].blocks[1].instructions.drop 2
  reason := .notOneString "__sycl_getSpecConstantValue"
  functions_eq := rfl
  body_eq := rfl
  instructions_eq := rfl
  hasFault := .arguments (by decide +kernel) nofun
  before_wellFormed := by decide +kernel
  blocksBefore_wellFormed := by decide +kernel
  front_wellFormed := by decide +kernel

/-- The arguments are told, not the type, and in either mode. -/
theorem severalFaults_reported :
    (severalFaults.lowerSpecConstants .runtime).2 ≠ .error .idsExhausted ∧
      (severalFaults.lowerSpecConstants .default).2 ≠ .error .idsExhausted ∧
      (severalFaults.lowerSpecConstants .runtime).2 =
        .error (.malformedCall "g" (.notOneString "__sycl_getSpecConstantValue")) ∧
      (severalFaults.lowerSpecConstants .default).2 =
        .error (.malformedCall "g" (.notOneString "__sycl_getSpecConstantValue")) := by
  have hruntime : (severalFaults.lowerSpecConstants .runtime).2 ≠ .error .idsExhausted := by
    decide +kernel
  have hdefault : (severalFaults.lowerSpecConstants .default).2 ≠ .error .idsExhausted := by
    decide +kernel
  obtain ⟨-, hfirst, hmodes⟩ := malformedCall_of_lowering_iff hruntime
  have hreported := (hfirst _ _).mpr ⟨severalFaultsFirst, rfl, rfl⟩
  exact ⟨hruntime, hdefault, hreported, (hmodes .default hdefault _ _).mpr hreported⟩

end Module

end DeviceCode
