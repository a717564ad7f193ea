import DeviceCode.Proofs.Assembly.WellFormed
import DeviceCode.Proofs.SpecConstant.Recovery

/-!
# Whether lowered calls agree

The map that is recovered from a module has one number for each string ID, but the lowered calls of
a module need not agree with it, nor with one another: two modules that were lowered apart may be
linked.  A lowering keeps the lowered calls it finds, and gives new numbers in agreement with them.
So they agree afterwards exactly if they did before (`specIdsAgree_of_lowering_iff`).
-/

namespace DeviceCode

/-- The values of a map are distinct if each belongs to one key. -/
theorem SortedMap.nodup_values_iff {α : Type} {m : SortedMap α} :
    m.values.Nodup ↔ ∀ s t v, m.get? s = some v → m.get? t = some v → s = t := by
  have hentries : m.entries.Nodup := List.Nodup.of_map _ m.keys_nodup
  simp only [SortedMap.get?_eq_some_iff]
  rw [SortedMap.values, List.nodup_map_iff_inj_on hentries]
  constructor
  · intro h s t v hs ht
    exact congrArg Prod.fst (h _ hs _ ht rfl)
  · rintro h ⟨s, v⟩ hs ⟨t, _⟩ ht rfl
    rw [h s t v hs ht]

namespace SpecConstant

/-- The string that an instruction has attached as a string ID; of several the first. -/
def attachedId? (i : Instruction) : Option String :=
  match i.attachment? attachmentKind with
  | some (.string s) => some s
  | _ => none

/-- If an instruction is a symbolic call with a string ID attached already, that is its own. -/
def HasOwnId (i : Instruction) : Prop := ∀ id ∈ symbolicId? i, ∀ s ∈ attachedId? i, s = id

instance (i : Instruction) : Decidable (HasOwnId i) :=
  inferInstanceAs (Decidable (∀ id ∈ symbolicId? i, ∀ s ∈ attachedId? i, s = id))

/-- A symbolic call with a string ID of its own is recorded under it. -/
theorem recordedAs?_of_hasOwnId {i : Instruction} (h : HasOwnId i) {c : SymbolicCall}
    (hc : symbolicCall? i = .ok (some c)) {s : String} (hs : recordedAs? i = some s) :
    s = c.id := by
  rw [recordedAs?, hc] at hs
  dsimp only at hs
  split at hs
  case h_1 =>
    cases hs
    rfl
  case h_2 s' ha =>
    cases hs
    have hs : attachedId? i = some s := by rw [attachedId?, ha]
    exact h c.id (symbolicId?_of_some hc) s hs
  case h_3 => cases hs

end SpecConstant

namespace Module

open SpecConstant

/-- Each lowered call tells the number that is recovered for its string ID, and no number is
recovered for two string IDs. -/
structure SpecIdsAgree (m : Module) : Prop where
  told : ∀ call ∈ m.loweredCalls, m.specIds.get? call.1 = some call.2
  distinct : ∀ s t id, m.specIds.get? s = some id → m.specIds.get? t = some id → s = t

instance (m : Module) : Decidable m.SpecIdsAgree :=
  decidable_of_iff
    ((∀ call ∈ m.loweredCalls, m.specIds.get? call.1 = some call.2) ∧ m.specIds.values.Nodup)
    ⟨fun ⟨told, distinct⟩ => ⟨told, SortedMap.nodup_values_iff.mp distinct⟩,
      fun h => ⟨h.told, SortedMap.nodup_values_iff.mpr h.distinct⟩⟩

variable {m m' : Module} {changed : Bool} {s : String} {id : UInt32}

/-! ## The calls behind a map -/

/-- A lowered call of a module is one of its instructions. -/
theorem mem_loweredCalls {call : String × UInt32} :
    call ∈ m.loweredCalls ↔ ∃ i ∈ m.instructions, loweredCall? i = some call := by
  rw [loweredCalls_eq, List.mem_filterMap]

/-- A number that is recovered is told by a lowered call. -/
theorem mem_loweredCalls_of_get? (h : m.specIds.get? s = some id) : (s, id) ∈ m.loweredCalls := by
  rw [get?_specIds_eq_told?, told?] at h
  obtain ⟨⟨s', id'⟩, hfind, rfl⟩ := Option.map_eq_some_iff.mp h
  obtain rfl : s' = s := by simpa using List.find?_some hfind
  exact List.mem_reverse.mp (List.mem_of_find?_eq_some hfind)

/-- For the string ID of a lowered call some number is recovered. -/
theorem exists_get?_of_mem_loweredCalls (h : (s, id) ∈ m.loweredCalls) :
    ∃ id', m.specIds.get? s = some id' := by
  rw [get?_specIds_eq_told?, told?, ← Option.isSome_iff_exists, Option.isSome_map,
    List.find?_isSome]
  exact ⟨(s, id), List.mem_reverse.mpr h, beq_self_eq_true s⟩

/-- Where lowered calls agree, the numbers recovered from a part of them are those of the whole. -/
theorem SpecIdsAgree.get?_of_subset {p : Module} (h : m.SpecIdsAgree)
    (hp : ∀ call ∈ p.loweredCalls, call ∈ m.loweredCalls) (hs : p.specIds.get? s = some id) :
    m.specIds.get? s = some id :=
  h.told _ (hp _ (mem_loweredCalls_of_get? hs))

theorem SpecIdsAgree.of_subset {p : Module} (h : m.SpecIdsAgree)
    (hp : ∀ call ∈ p.loweredCalls, call ∈ m.loweredCalls) : p.SpecIdsAgree where
  told := by
    rintro ⟨s, id⟩ hcall
    obtain ⟨id', hid'⟩ := exists_get?_of_mem_loweredCalls hcall
    have heq := (h.told _ (hp _ hcall)).symm.trans (h.get?_of_subset hp hid')
    rw [hid', Option.some.inj heq]
  distinct s t id hs ht := h.distinct s t id (h.get?_of_subset hp hs) (h.get?_of_subset hp ht)

/-! ## The calls that a lowering leaves -/

/-- A lowering keeps the lowered calls it finds and adds one for each symbolic call. -/
theorem mem_loweredCalls_of_numbered {number : String → UInt32}
    (hm : m'.instructions = m.instructions.map (numbered number)) {call : String × UInt32} :
    call ∈ m'.loweredCalls ↔ call ∈ m.loweredCalls ∨
      ∃ i ∈ m.instructions, ∃ c, symbolicCall? i = .ok (some c) ∧
        recordedAs? i = some call.1 ∧ number c.id = call.2 := by
  rw [mem_loweredCalls, mem_loweredCalls, hm]
  simp only [List.mem_map, exists_exists_and_eq_and]
  rw [← exists_or]
  refine exists_congr fun i => ?_
  rw [← and_or_left]
  refine and_congr_right fun _ => ?_
  by_cases hc : ∃ c, symbolicCall? i = .ok (some c)
  · obtain ⟨c, hc⟩ := hc
    rw [numbered_of_some hc, loweredCall?_lower _ hc, loweredCall?_of_symbolicCall hc,
      Option.map_eq_some_iff]
    constructor
    · rintro ⟨s, hs, rfl⟩
      exact .inr ⟨c, hc, hs, rfl⟩
    · rintro (h | ⟨c', hc', hs, hnumber⟩)
      · cases h
      · obtain rfl : c = c' := by simpa using hc.symm.trans hc'
        exact ⟨call.1, hs, by rw [hnumber]⟩
  · rw [numbered_of_not_symbolic (not_exists.mp hc)]
    exact ⟨.inl, fun h => h.elim id fun ⟨c, hc', _⟩ => absurd ⟨c, hc'⟩ hc⟩

theorem loweredCalls_subset_of_numbered {number : String → UInt32}
    (hm : m'.instructions = m.instructions.map (numbered number)) :
    m.loweredCalls ⊆ m'.loweredCalls :=
  fun _ hcall => (mem_loweredCalls_of_numbered hm).mpr (.inl hcall)

/-- New numbers agree with those that were told before. -/
theorem SpecIdsAgree.of_numbering (h : m.SpecIdsAgree) {n : Numbering}
    (hn : m.numbering? = some n) (hown : ∀ i ∈ m.instructions, HasOwnId i)
    (hm : m'.instructions = m.instructions.map (numbered n.number)) : m'.SpecIdsAgree := by
  have hcontinues := continues_of_numbering? hn
  have hids : ∀ call ∈ m'.loweredCalls, n.ids.get? call.1 = some call.2 := by
    intro call hcall
    rcases (mem_loweredCalls_of_numbered hm).mp hcall with hold | ⟨i, hi, c, hc, hs, hnumber⟩
    · exact hcontinues.keeps _ _ (h.told call hold)
    · rw [recordedAs?_of_hasOwnId (hown i hi) hc hs, ← hnumber]
      exact get?_of_numbering? hn hi hc
  have hget : ∀ s id, m'.specIds.get? s = some id → n.ids.get? s = some id :=
    fun s id hs => hids _ (mem_loweredCalls_of_get? hs)
  refine ⟨?_, fun s t id hs ht => ?_⟩
  · rintro ⟨s, id⟩ hcall
    obtain ⟨id', hid'⟩ := exists_get?_of_mem_loweredCalls hcall
    have heq := (hget _ _ hid').symm.trans (hids _ hcall)
    rw [hid', Option.some.inj heq]
  · rcases hcontinues.distinct s t id (hget s id hs) (hget t id ht) with he | ⟨hs, ht⟩
    · exact he
    · exact h.distinct s t id hs ht

/-- A text that is read has names of their own for all functions. -/
theorem prototypesApart_of_read {text : String} (hr : Module.read text = .ok m)
    (p : String → Bool) : m.PrototypesApart p :=
  prototypesApart_of_nodup (List.nodup_append.mp (wellFormed_of_read hr).names).1

/-- A lowering keeps the lowered calls of a module, and afterwards all of them agree exactly if
these did, where no symbolic call has another string attached first. -/
theorem specIdsAgree_of_lowering_iff {text : String} (hr : Module.read text = .ok m)
    (h : m.lowerSpecConstants .runtime = (m', .ok changed))
    (hown : ∀ i ∈ m.instructions, HasOwnId i) :
    m.loweredCalls ⊆ m'.loweredCalls ∧ (m'.SpecIdsAgree ↔ m.SpecIdsAgree) := by
  obtain ⟨n, hn, hm⟩ := instructions_of_numbering (prototypesApart_of_read hr _) h
  have hsubset := loweredCalls_subset_of_numbered hm
  exact ⟨hsubset, fun h' => h'.of_subset hsubset, fun hagree => hagree.of_numbering hn hown hm⟩

/-- A module that was lowered before, with a symbolic call for a constant that is new. -/
def partlyLowered : Module where
  sourceName := none
  globals := []
  functions := [
    .declaration "__sycl_getSpecConstantValue" .i1 [],
    .declaration "__spirv_SpecConstant" .i1 [],
    { Function.declaration "f" .void [] with
      body := some [⟨"a", [
        ⟨none, .call .i1 (.direct "__spirv_SpecConstant") [.constant .i32 (.int 7)],
          [⟨"sycl.spec_const", .string "A"⟩]⟩,
        ⟨none, .call .i1 (.direct "__sycl_getSpecConstantValue") [.string "B"], []⟩]⟩] }]
  debugRecords := []

/-- Its lowered calls agree before and after. -/
theorem partlyLowered_agrees :
    ∃ m', Module.read ("declare i1 @__sycl_getSpecConstantValue()\n" ++
        "declare i1 @__spirv_SpecConstant()\ndefine void @f() \x7b\na:\n" ++
        "call i1 @__spirv_SpecConstant(i32 7) !sycl.spec_const \"A\"\n" ++
        "call i1 @__sycl_getSpecConstantValue(\"B\")\n\x7d\n") = .ok partlyLowered ∧
      partlyLowered.lowerSpecConstants .runtime = (m', .ok true) ∧
      (∀ i ∈ partlyLowered.instructions, HasOwnId i) ∧
      partlyLowered.SpecIdsAgree ∧ m'.SpecIdsAgree := by
  have hr : Module.read ("declare i1 @__sycl_getSpecConstantValue()\n" ++
      "declare i1 @__spirv_SpecConstant()\ndefine void @f() \x7b\na:\n" ++
      "call i1 @__spirv_SpecConstant(i32 7) !sycl.spec_const \"A\"\n" ++
      "call i1 @__sycl_getSpecConstantValue(\"B\")\n\x7d\n") = .ok partlyLowered := by
    decide +kernel
  have hl : partlyLowered.lowerSpecConstants .runtime =
      ((partlyLowered.lowerSpecConstants .runtime).1, .ok true) := by decide +kernel
  have hown : ∀ i ∈ partlyLowered.instructions, HasOwnId i := by decide +kernel
  have hagree : partlyLowered.SpecIdsAgree := by decide +kernel
  exact ⟨_, hr, hl, hown, hagree, (specIdsAgree_of_lowering_iff hr hl hown).2.mpr hagree⟩

/-- The functions of two modules that were lowered apart. -/
def linkedLowerings : Module where
  sourceName := none
  globals := []
  functions := [
    .declaration "__spirv_SpecConstant" .i1 [],
    { Function.declaration "f" .void [] with
      body := some [⟨"a", [
        ⟨none, .call .i1 (.direct "__spirv_SpecConstant") [.constant .i32 (.int 0)],
          [⟨"sycl.spec_const", .string "A"⟩]⟩]⟩] },
    { Function.declaration "g" .void [] with
      body := some [⟨"a", [
        ⟨none, .call .i1 (.direct "__spirv_SpecConstant") [.constant .i32 (.int 0)],
          [⟨"sycl.spec_const", .string "B"⟩]⟩]⟩] }]
  debugRecords := []

/-- One number stands for two constants, and a lowering leaves it so. -/
theorem linkedLowerings_disagree :
    ∃ m', Module.read ("declare i1 @__spirv_SpecConstant()\ndefine void @f() \x7b\na:\n" ++
        "call i1 @__spirv_SpecConstant(i32 0) !sycl.spec_const \"A\"\n\x7d\n" ++
        "define void @g() \x7b\na:\n" ++
        "call i1 @__spirv_SpecConstant(i32 0) !sycl.spec_const \"B\"\n\x7d\n") =
          .ok linkedLowerings ∧
      linkedLowerings.lowerSpecConstants .runtime = (m', .ok false) ∧
      m'.specIds.get? "A" = some 0 ∧ m'.specIds.get? "B" = some 0 ∧ ¬ m'.SpecIdsAgree := by
  have hr : Module.read ("declare i1 @__spirv_SpecConstant()\ndefine void @f() \x7b\na:\n" ++
      "call i1 @__spirv_SpecConstant(i32 0) !sycl.spec_const \"A\"\n\x7d\n" ++
      "define void @g() \x7b\na:\n" ++
      "call i1 @__spirv_SpecConstant(i32 0) !sycl.spec_const \"B\"\n\x7d\n") =
        .ok linkedLowerings := by decide +kernel
  have hl : linkedLowerings.lowerSpecConstants .runtime = (linkedLowerings, .ok false) := by
    decide +kernel
  have ha : linkedLowerings.specIds.get? "A" = some 0 := by decide +kernel
  have hb : linkedLowerings.specIds.get? "B" = some 0 := by decide +kernel
  exact ⟨_, hr, hl, ha, hb, fun h => absurd (h.distinct _ _ _ ha hb) (by decide)⟩

end Module

end DeviceCode
