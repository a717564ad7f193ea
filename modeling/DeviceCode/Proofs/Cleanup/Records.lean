import DeviceCode.Assembly.Reading
import DeviceCode.Proofs.Cleanup.Liveness
import DeviceCode.Proofs.Module.Equality

/-!
# Debug records after a cleanup

Records are kept if a function or an instruction mentions them, or if they are the unit of one that
is mentioned.  The search goes no further: a record that is kept as a unit may be a subprogram with
a unit of its own, and this one may be deleted (`uses_removeDeadRecords`).  Where units have no
units, as it is with compile units, no use of a record is left without it
(`recordsResolve_of_flat`).
-/

namespace DeviceCode.Module

/-- A function has the record as its own, or an instruction has it among its operands or
attached. -/
def MentionsRecord (m : Module) (id : UInt32) : Prop :=
  ∃ f ∈ m.functions, f.debug = some id ∨ ∃ i ∈ f.instructions, .metadata id ∈ i.allOperands

/-- Whatever record is mentioned or is the unit of a subprogram is there. -/
structure RecordsResolve (m : Module) : Prop where
  mentions : ∀ id, m.MentionsRecord id → id ∈ m.recordIds
  units : ∀ r ∈ m.debugRecords, ∀ unit, r.entry.unit? = some unit → unit ∈ m.recordIds

/-- A mentioned record has the record as its unit. -/
def IsMentionedUnit (m : Module) (id : UInt32) : Prop :=
  ∃ r ∈ m.debugRecords, m.MentionsRecord r.id ∧ r.entry.unit? = some id

instance (m : Module) (id : UInt32) : Decidable (m.MentionsRecord id) :=
  inferInstanceAs (Decidable (∃ f ∈ m.functions, _ ∨ ∃ i ∈ f.instructions, _))

instance (m : Module) (id : UInt32) : Decidable (m.IsMentionedUnit id) :=
  inferInstanceAs (Decidable (∃ r ∈ m.debugRecords, _))

variable {m : Module} {id : UInt32}

theorem mentionsRecord_iff : m.MentionsRecord id ↔ id ∈ m.mentionedRecords := by
  have hmetadata : ∀ o : Operand, o.metadata? = some id ↔ o = .metadata id := by
    intro o
    cases o <;> simp [Operand.metadata?]
  have hmention : ∀ f : Function,
      id ∈ f.metadata ↔ ∃ i ∈ f.instructions, .metadata id ∈ i.allOperands := by
    intro f
    simp [Function.metadata, Instruction.metadata_eq, hmetadata]
  simp only [MentionsRecord, mem_mentionedRecords, hmention]

/-- The search finds what is mentioned and the units of that. -/
theorem mem_liveRecords_iff :
    id ∈ m.liveRecords ↔ m.MentionsRecord id ∨ m.IsMentionedUnit id := by
  simp only [mem_liveRecords, IsMentionedUnit, mentionsRecord_iff]

/-- A record stays if it is mentioned or the unit of one that is. -/
theorem mem_debugRecords_removeDeadRecords {r : DebugRecord} :
    r ∈ m.removeDeadRecords.1.debugRecords ↔
      r ∈ m.debugRecords ∧ (m.MentionsRecord r.id ∨ m.IsMentionedUnit r.id) := by
  simp only [removeDeadRecords, List.mem_filter, List.contains_iff_mem, mem_liveRecords_iff]

/-- Where all uses of records resolve, those that are left are the mentioned ones and their
units. -/
theorem mem_recordIds_removeDeadRecords (h : m.RecordsResolve) :
    id ∈ m.removeDeadRecords.1.recordIds ↔ m.MentionsRecord id ∨ m.IsMentionedUnit id := by
  have hid : id ∈ m.removeDeadRecords.1.recordIds ↔
      id ∈ m.recordIds ∧ (m.MentionsRecord id ∨ m.IsMentionedUnit id) := by
    simp only [recordIds, List.mem_map, mem_debugRecords_removeDeadRecords]
    constructor
    · rintro ⟨r, ⟨hr, hl⟩, rfl⟩
      exact ⟨⟨r, hr, rfl⟩, hl⟩
    · rintro ⟨⟨r, hr, rfl⟩, hl⟩
      exact ⟨r, ⟨hr, hl⟩, rfl⟩
  rw [hid]
  refine and_iff_right_of_imp ?_
  rintro (hm | ⟨r, hr, _, hu⟩)
  · exact h.mentions id hm
  · exact h.units r hr id hu

/-- All uses of records still resolve exactly if the search would find nothing in one more step. -/
theorem recordsResolve_removeDeadRecords_iff (h : m.RecordsResolve) :
    m.removeDeadRecords.1.RecordsResolve ↔ ∀ r ∈ m.debugRecords, m.IsMentionedUnit r.id →
      ∀ unit, r.entry.unit? = some unit → m.MentionsRecord unit ∨ m.IsMentionedUnit unit := by
  constructor
  · intro hresolve r hr hl unit hu
    have hkept := mem_debugRecords_removeDeadRecords.mpr ⟨hr, .inr hl⟩
    exact (mem_recordIds_removeDeadRecords h).mp (hresolve.units r hkept unit hu)
  · intro hunits
    constructor
    case mentions => exact fun _ hm => (mem_recordIds_removeDeadRecords h).mpr (.inl hm)
    case units =>
      intro r hkept unit hu
      rw [mem_recordIds_removeDeadRecords h]
      obtain ⟨hr, hm | hl⟩ := mem_debugRecords_removeDeadRecords.mp hkept
      · exact .inr ⟨r, hr, hm, hu⟩
      · exact hunits r hr hl unit hu

/-- If units have no units, every use of a record that stays finds its record. -/
theorem recordsResolve_of_flat (h : m.RecordsResolve)
    (hflat : ∀ r ∈ m.debugRecords, ∀ r' ∈ m.debugRecords,
      r'.entry.unit? = some r.id → r.entry.unit? = none) :
    m.removeDeadRecords.1.RecordsResolve := by
  refine (recordsResolve_removeDeadRecords_iff h).mpr ?_
  rintro r hr ⟨r', hr', _, hu'⟩ unit hu
  rw [hflat r hr r' hr' hu'] at hu
  cases hu

/-- After dead records are deleted, every record that a function or an instruction mentions is
there.  All uses of records resolve, those by other records included, exactly if each record that is
the unit of a mentioned one has no unit, or one that is mentioned or is the unit of a mentioned one
as well. -/
theorem uses_removeDeadRecords (h : m.RecordsResolve) :
    (∀ id, m.removeDeadRecords.1.MentionsRecord id → id ∈ m.removeDeadRecords.1.recordIds) ∧
      (m.removeDeadRecords.1.RecordsResolve ↔ ∀ r ∈ m.debugRecords, m.IsMentionedUnit r.id →
        ∀ unit, r.entry.unit? = some unit → m.MentionsRecord unit ∨ m.IsMentionedUnit unit) :=
  ⟨fun _ hm => (mem_recordIds_removeDeadRecords h).mpr (.inl hm),
    recordsResolve_removeDeadRecords_iff h⟩

/-- A function whose record has a subprogram as its unit. -/
def nestedUnits : Module where
  sourceName := none
  globals := []
  functions := [
    { Function.declaration "f" .void [] with
      debug := some 2
      body := some [⟨"entry", [⟨none, .operation "ret" [], []⟩]⟩] }]
  debugRecords := [⟨0, .compileUnit "f.cpp"⟩, ⟨1, .subprogram "outer" 0⟩, ⟨2, .subprogram "f" 1⟩]

/-- The subprogram is kept, and its compile unit is deleted. -/
theorem nestedUnits_uses :
    Module.read ("define void @f() !dbg !2 \x7b\nentry:\n  ret\n\x7d\n\n" ++
        "!0 = compile_unit \"f.cpp\"\n!1 = subprogram \"outer\" !0\n" ++
        "!2 = subprogram \"f\" !1\n") = .ok nestedUnits ∧
      nestedUnits.RecordsResolve ∧
      nestedUnits.removeDeadRecords.1.debugRecords =
        [⟨1, .subprogram "outer" 0⟩, ⟨2, .subprogram "f" 1⟩] ∧
      ¬ nestedUnits.removeDeadRecords.1.RecordsResolve := by
  have h : nestedUnits.RecordsResolve := by
    constructor
    case mentions =>
      have hmentioned : nestedUnits.mentionedRecords ⊆ nestedUnits.recordIds := by decide
      exact fun id hm => hmentioned (mentionsRecord_iff.mp hm)
    case units => simp [nestedUnits, recordIds, DebugEntry.unit?]
  have hunit : nestedUnits.IsMentionedUnit 1 := by decide
  have hdead : ¬ (nestedUnits.MentionsRecord 0 ∨ nestedUnits.IsMentionedUnit 0) := by decide
  have hr : ⟨1, .subprogram "outer" 0⟩ ∈ nestedUnits.debugRecords := by decide
  refine ⟨by decide +kernel, h, by decide, fun hresolve => ?_⟩
  exact hdead ((uses_removeDeadRecords h).2.mp hresolve _ hr hunit 0 rfl)

end DeviceCode.Module
