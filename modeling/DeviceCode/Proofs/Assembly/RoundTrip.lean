import DeviceCode.Proofs.Assembly.Checks
import DeviceCode.Proofs.Assembly.ReadsEntity
import DeviceCode.Proofs.Assembly.Resolution
import DeviceCode.Proofs.Module.Canonical

/-!
# Reading modules that are written

A well-formed module whose names are words has a written form that is read as the module again, but
for the bits of its NaNs (`read_text`).  The scans read its entities in the order in which they are
written (`groups`), and their acts pass the check since they are those of a well-formed module.
-/

namespace DeviceCode

open Assembly

/-! ## Names that are words -/

def Action.opcode? : Action → Option String
  | call _ _ _ => none
  | operation opcode _ => some opcode

/-- What a function calls its values, blocks, operations and attachments can be written. -/
structure Function.WellNamed (f : Function) : Prop where
  locals : ∀ n ∈ f.locals, IsIdentifier n
  labels : ∀ l ∈ f.labels, IsIdentifier l
  opcodes : ∀ i ∈ f.instructions, ∀ opcode ∈ i.action.opcode?, IsKeyword opcode
  kinds : ∀ i ∈ f.instructions, ∀ a ∈ i.attachments, IsKeyword a.kind

/-- The names of the module and of its functions are words. -/
structure Module.WellNamed (m : Module) : Prop where
  names : ∀ n ∈ m.names, IsIdentifier n
  functions : ∀ f ∈ m.functions, f.WellNamed

instance (f : Function) : Decidable f.WellNamed :=
  decidable_of_iff ((∀ n ∈ f.locals, IsIdentifier n) ∧ (∀ l ∈ f.labels, IsIdentifier l) ∧
      (∀ i ∈ f.instructions, ∀ opcode ∈ i.action.opcode?, IsKeyword opcode) ∧
      ∀ i ∈ f.instructions, ∀ a ∈ i.attachments, IsKeyword a.kind)
    ⟨fun ⟨locals, labels, opcodes, kinds⟩ => ⟨locals, labels, opcodes, kinds⟩,
      fun h => ⟨h.locals, h.labels, h.opcodes, h.kinds⟩⟩

instance (m : Module) : Decidable m.WellNamed :=
  decidable_of_iff ((∀ n ∈ m.names, IsIdentifier n) ∧ ∀ f ∈ m.functions, f.WellNamed)
    ⟨fun ⟨names, functions⟩ => ⟨names, functions⟩, fun h => ⟨h.names, h.functions⟩⟩

variable {m : Module} {f : Function}

/-- What resolves has the name of something that can be written. -/
theorem Operand.isWritable_of_resolves (hm : m.WellNamed) (hf : f.WellNamed) {o : Operand}
    (ho : o.Resolves m f) : o.IsWritable := by
  cases o with
  | value name => exact hf.locals name ho
  | symbol name => exact hm.names name ho
  | constant type literal => exact ho
  | string | metadata => exact trivial
  | block label => exact hf.labels label ho

/-- A callee that resolves has a name of the module or of the function, so it can be written. -/
theorem Callee.isWritable_of_resolves (hm : m.WellNamed) (hf : f.WellNamed) {c : Callee}
    (hc : c.Resolves m f) : c.IsWritable := by
  cases c with
  | direct symbol => exact hm.names symbol hc
  | indirect value => exact hf.locals value hc

theorem Instruction.isWritable_of_resolves (hm : m.WellNamed) (hf : f.WellNamed) {i : Instruction}
    (hi : i ∈ f.instructions) (hr : i.Resolves m f) : i.IsWritable := by
  have operand : ∀ o : Operand, o.Resolves m f → o.IsWritable := fun _ =>
    Operand.isWritable_of_resolves hm hf
  constructor
  case result =>
    exact fun n hn => hf.locals n (List.mem_append_right _ (List.mem_filterMap.mpr ⟨i, hi, hn⟩))
  case attachments => exact fun a ha => ⟨hf.kinds i hi a ha, operand _ (hr.attachments a ha)⟩
  case action =>
    have hop := hf.opcodes i hi
    have hra := hr.action
    cases ha : i.action with
    | call type callee arguments =>
        rw [ha] at hra
        exact ⟨Callee.isWritable_of_resolves hm hf hra.1, fun o ho => operand o (hra.2 o ho)⟩
    | operation opcode operands =>
        rw [ha] at hra
        exact ⟨hop opcode (by rw [ha]; rfl), hra.1, hra.2.1, fun o ho => operand o (hra.2.2 o ho)⟩

/-- A function can be written, as its names are words and those that it uses are names of the
module. -/
theorem Function.isWritable_of_resolves (hm : m.WellNamed) (hmem : f ∈ m.functions)
    (hr : f.Resolves m) : f.IsWritable := by
  have hf := hm.functions f hmem
  constructor
  case name => exact hm.names f.name (List.mem_append_left _ (List.mem_map_of_mem hmem))
  case parameters => exact fun n hn => hf.locals n (List.mem_append_left _ hn)
  case declaration => exact hr.declaration
  case blocks =>
    intro b hb
    refine ⟨hf.labels b.label (List.mem_map_of_mem hb), fun i hi => ?_⟩
    have hi : i ∈ f.instructions := List.mem_flatMap.mpr ⟨b, hb, hi⟩
    exact Instruction.isWritable_of_resolves hm hf hi (hr.instructions i hi)

mutual

theorem Initializer.isWritable_of_resolves (hm : m.WellNamed) (init : Initializer)
    (hr : init.Resolves m) : init.IsWritable := by
  cases init with
  | scalar type literal => exact hr
  | symbol name => exact hm.names name hr
  | array elements => exact Initializer.allWritable_of_resolve hm elements hr
  | string | zero => exact trivial

theorem Initializer.allWritable_of_resolve (hm : m.WellNamed) (elements : List Initializer)
    (hr : AllResolve m elements) : AllWritable elements := by
  cases elements with
  | nil => exact trivial
  | cons e es =>
      exact ⟨e.isWritable_of_resolves hm hr.1, Initializer.allWritable_of_resolve hm es hr.2⟩

end

/-! ## Entities in the order of the text -/

namespace Module

/-- The entities of each paragraph. -/
def groups (m : Module) : List (List Entity) :=
  (m.sourceName.toList.map fun name => [.sourceName name]) ++
  (if m.globals.isEmpty then [] else [m.globals.map .global]) ++
  (m.functions.map fun f => [.function f]) ++
  (if m.debugRecords.isEmpty then [] else [m.debugRecords.map .debugRecord])

/-- The paragraphs of the written form are those of the groups. -/
theorem paragraphs_eq (m : Module) :
    m.paragraphs = m.groups.map fun es => lines (es.map Entity.text) := by
  have line : ∀ e : Entity, e.text ++ "\n" = lines [e.text] := fun e => by simp [lines]
  obtain ⟨sourceName, globals, functions, debugRecords⟩ := m
  simp only [paragraphs, groups, List.map_append]
  congr 1; congr 1; congr 1
  · cases sourceName with
    | none => rfl
    | some name => exact congrArg (fun t => [t]) (line (.sourceName name))
  · split
    · rfl
    · simp only [List.map_cons, List.map_nil, List.map_map]
      rfl
  · rw [List.map_map]
    exact List.map_congr_left fun f _ => line (.function f)
  · split
    · rfl
    · simp only [List.map_cons, List.map_nil, List.map_map]
      rfl

/-- The entities of all groups are those of the module, kind by kind. -/
theorem flatten_groups (m : Module) : m.groups.flatten =
    m.sourceName.toList.map .sourceName ++ m.globals.map .global ++ m.functions.map .function ++
      m.debugRecords.map .debugRecord := by
  have paragraph : ∀ {α : Type} (as : List α) (make : α → Entity),
      (if as.isEmpty then [] else [as.map make]).flatten = as.map make := by
    intro α as make
    cases as <;> simp
  have single : ∀ {α : Type} (as : List α) (make : α → Entity),
      (as.map fun a => [make a]).flatten = as.map make := by
    intro α as make
    rw [← List.flatMap_def, ← List.map_eq_flatMap]
  simp only [groups, List.flatten_append, paragraph, single]

/-- Sorting the entities of a module gives the module. -/
theorem ofEntities_groups (m : Module) : ofEntities m.groups.flatten = m := by
  rw [flatten_groups]
  obtain ⟨sourceName, globals, functions, debugRecords⟩ := m
  cases sourceName <;> simp [ofEntities, List.filterMap_cons, List.filterMap_map, Function.comp_def,
    Entity.sourceName?, Entity.global?, Entity.function?, Entity.debugRecord?]

theorem ofEntities_canonical (es : List Entity) :
    ofEntities (es.map Entity.canonical) = (ofEntities es).canonical := by
  have select : ∀ {α : Type} {p : Entity → Option α} {g : α → α},
      (∀ e : Entity, p e.canonical = (p e).map g) →
        (es.map Entity.canonical).filterMap p = (es.filterMap p).map g := by
    intro α p g h
    rw [List.filterMap_map, List.map_filterMap]
    exact List.filterMap_congr fun e _ => h e
  have hnames := select (p := Entity.sourceName?) (g := id) fun e => by cases e <;> rfl
  have hrecords := select (p := Entity.debugRecord?) (g := id) fun e => by cases e <;> rfl
  rw [List.map_id] at hnames hrecords
  simp only [ofEntities, canonical, hnames, hrecords,
    select (p := Entity.global?) (g := GlobalVariable.canonical) fun e => by cases e <;> rfl,
    select (p := Entity.function?) (g := Function.canonical) fun e => by cases e <;> rfl]

/-- What can be written down, and be read again. -/
structure IsWritable (m : Module) : Prop where
  globals : ∀ g ∈ m.globals, g.IsWritable
  functions : ∀ f ∈ m.functions, f.IsWritable

/-- A module that resolves and whose names are words can be written. -/
theorem isWritable_of_resolves (hw : m.Resolves) (hn : m.WellNamed) : m.IsWritable where
  globals g hg :=
    { name := hn.names g.name (List.mem_append_right _ (List.mem_map_of_mem hg))
      initializer := fun init hi =>
        init.isWritable_of_resolves hn ((hw.globals g hg).initializer init hi)
      declaration := (hw.globals g hg).declaration }
  functions f hf := Function.isWritable_of_resolves hn hf (hw.functions f hf)

theorem IsWritable.groups (hm : m.IsWritable) : ∀ es ∈ m.groups, ∀ e ∈ es, e.IsWritable := by
  intro es hes e he
  have he : e ∈ m.groups.flatten := List.mem_flatten.mpr ⟨es, hes, he⟩
  rw [flatten_groups] at he
  simp only [List.mem_append, List.mem_map] at he
  rcases he with ((⟨_, -, rfl⟩ | ⟨g, hg, rfl⟩) | ⟨f, hf, rfl⟩) | ⟨_, -, rfl⟩
  · exact trivial
  · exact hm.globals g hg
  · exact hm.functions f hf
  · exact trivial

theorem isWritable_groups (hw : m.Resolves) (hn : m.WellNamed) :
    ∀ es ∈ m.groups, ∀ e ∈ es, e.IsWritable :=
  (isWritable_of_resolves hw hn).groups

end Module

/-! ## The round trip -/

namespace Module

/-- The entities are read from the text, and their acts pass the check since the module is
well-formed. -/
theorem readChars_text (hw : m.WellFormed) (hn : m.WellNamed) :
    readChars m.text.toList = .ok m.canonical := by
  have hread : Scan.Reads Scan.entities m.text.toList
      (m.groups.flatten.map Entity.canonical) [] := by
    rw [text, paragraphs_eq]
    exact Scan.reads_entities (isWritable_groups hw.resolves hn)
  have hm : ofEntities (m.groups.flatten.map Entity.canonical) = m.canonical := by
    rw [ofEntities_canonical, ofEntities_groups]
  rw [readChars_of_reads hread (hm ▸ m.wellFormed_canonical_iff.mpr hw), hm]

/-- The written form of a well-formed module whose names are words is read, and as this module, with
the NaN that arithmetic produces for every NaN. -/
theorem read_text (hw : m.WellFormed) (hn : m.WellNamed) :
    Module.read m.text = .ok m.canonical := by
  rw [Module.read, readChars_text hw hn]
  rfl

/-- A NaN with a payload, numbers at the ends of their ranges, strings that need escapes, arrays in
arrays, and the shapes of instructions that are easy to confuse. -/
def shapes : Module where
  sourceName := some "a \"b\" \\ ;\n\té"
  globals := [
    ⟨"declared", .external, true, none⟩,
    ⟨"table", .internal, true, some (.array [.scalar .f64 (.float ⟨0xfff0000000000001⟩), .array [],
      .array [.zero, .symbol "table", .array [.string "]\", "]], .scalar .ptr (.int 0)])⟩,
    ⟨"0.$", .weakODR, false, some (.scalar .i64 (.int Int64.minValue))⟩]
  functions := [
    { Function.declaration "call" .f32 ["x", "inf"] with attributes := [⟨"", "=#\""⟩, ⟨"k", "v"⟩] },
    { Function.declaration "define" .void ["x"] with
      linkage := .linkOnceODR
      convention := .kernel
      debug := some 0
      body := some [
        ⟨"ret", [
          ⟨none, .operation "br" [.block "1"], [⟨"note", .metadata 7⟩, ⟨"note", .string "!"⟩]⟩,
          ⟨none, .operation "ret" [], [⟨"dbg", .value "x"⟩]⟩]⟩,
        ⟨"1", [
          ⟨some "call", .call .i1 (.indirect "x") [], []⟩,
          ⟨some "y", .call .f32 (.direct "call") [.constant .i1 (.int 1), .metadata 0,
            .constant .f32 (.float ⟨0x8000000000000000⟩)], []⟩,
          ⟨none, .operation "ret" [.value "y", .metadata 7, .string ""], []⟩]⟩,
        ⟨"empty", []⟩] },
    { Function.declaration "hollow" .i8 [] with body := some [] }]
  debugRecords := [⟨7, .subprogram "f\r" 0⟩, ⟨0, .compileUnit ""⟩]

/-- A module of all shapes is read again; only its NaN has lost its payload. -/
theorem read_text_shapes : shapes.WellFormed ∧ shapes.WellNamed ∧
    Module.read shapes.text = .ok shapes.canonical ∧ shapes.canonical ≠ shapes := by
  have hw : shapes.WellFormed := by decide +kernel
  have hn : shapes.WellNamed := by decide +kernel
  exact ⟨hw, hn, read_text hw hn, by decide +kernel⟩

end Module

end DeviceCode
