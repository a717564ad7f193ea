import DeviceCode.Proofs.Assembly.Scoping

/-!
# Modules that are read are well-formed

The checks of names happen in different places of a text: where a name is defined, at the end of a
body and at the end of the text.  Here they are put together: the names that a function, or a whole
text, defines and uses are computed from its acts, and a checked trace relates the two
(`wellFormed_of_read`).
-/

namespace DeviceCode

open Assembly NameKind

/-! ## Names of instructions -/

namespace Operand

variable (o : Operand)

/-- An operand defines no symbol, and uses the one it is. -/
theorem symbols_acts :
    symbolKind.defined o.acts = [] ∧ symbolKind.used o.acts = o.symbol?.toList := by
  cases o <;> exact ⟨rfl, rfl⟩

theorem metadata_acts :
    metadataKind.defined o.acts = [] ∧ metadataKind.used o.acts = o.metadata?.toList := by
  cases o <;> exact ⟨rfl, rfl⟩

theorem values_acts :
    valueKind.defined o.acts = [] ∧ valueKind.used o.acts = o.value?.toList := by
  cases o <;> exact ⟨rfl, rfl⟩

theorem blocks_acts :
    blockKind.defined o.acts = [] ∧ blockKind.used o.acts = o.block?.toList := by
  cases o <;> exact ⟨rfl, rfl⟩

end Operand

namespace Instruction

variable (i : Instruction)

/-- The acts of what stands in front of the operands. -/
def frontActs : List Act :=
  i.result.toList.map .defineValue ++
    match i.action with
    | .call _ callee _ => callee.acts
    | .operation _ _ => []

/-- The acts of an instruction: its result, its callee, and then all operands. -/
theorem acts_eq : i.acts = i.frontActs ++ i.allOperands.flatMap Operand.acts := by
  obtain ⟨result, action, attachments⟩ := i
  cases action <;> simp [acts, frontActs, allOperands, operands, Action.operands, Action.acts,
    List.flatMap_map]

/-- The names of a kind in an instruction, for a kind that operands only use. -/
theorem names_acts {α : Type} (k : NameKind α) {p : Operand → Option α}
    (h : ∀ o : Operand, k.defined o.acts = [] ∧ k.used o.acts = (p o).toList) :
    k.defined i.acts = k.defined i.frontActs ∧
      k.used i.acts = k.used i.frontActs ++ i.allOperands.filterMap p := by
  rw [acts_eq, defined_append, used_append, defined_flatMap, used_flatMap,
    List.filterMap_eq_flatMap_toList]
  simp [h]

theorem symbols_acts : symbolKind.defined i.acts = [] ∧ symbolKind.used i.acts = i.symbols := by
  obtain ⟨hd, hu⟩ := i.names_acts symbolKind Operand.symbols_acts
  rw [hd, hu, symbols_eq]
  obtain ⟨result, action, attachments⟩ := i
  cases result <;> rcases action with ⟨_, _ | _, _⟩ | _ <;> exact ⟨rfl, rfl⟩

theorem metadata_acts :
    metadataKind.defined i.acts = [] ∧ metadataKind.used i.acts = i.metadata := by
  obtain ⟨hd, hu⟩ := i.names_acts metadataKind Operand.metadata_acts
  rw [hd, hu, metadata_eq]
  obtain ⟨result, action, attachments⟩ := i
  cases result <;> rcases action with ⟨_, _ | _, _⟩ | _ <;> exact ⟨rfl, rfl⟩

theorem values_acts :
    valueKind.defined i.acts = i.result.toList ∧ valueKind.used i.acts = i.values := by
  obtain ⟨hd, hu⟩ := i.names_acts valueKind Operand.values_acts
  rw [hd, hu, values]
  obtain ⟨result, action, attachments⟩ := i
  cases result <;> rcases action with ⟨_, _ | _, _⟩ | _ <;> exact ⟨rfl, rfl⟩

/-- Blocks are used as operands only. -/
theorem blocks_acts : blockKind.defined i.acts = [] ∧ blockKind.used i.acts = i.targets := by
  obtain ⟨hd, hu⟩ := i.names_acts blockKind Operand.blocks_acts
  rw [hd, hu, targets]
  obtain ⟨result, action, attachments⟩ := i
  cases result <;> rcases action with ⟨_, _ | _, _⟩ | _ <;> exact ⟨rfl, rfl⟩

end Instruction

/-! ## Names of functions -/

namespace Function

variable (f : Function)

/-- The acts of a function between its name and its end. -/
def innerActs : List Act :=
  f.parameters.map .defineParameter ++ f.debug.toList.map .useMetadata ++
    f.blocks.flatMap Block.acts

/-- The acts at the end of a function. -/
def endActs : List Act := if f.body.isSome then [.endBody] else []

/-- The acts of a function: its name is defined outside, and all else is inside of it. -/
theorem acts_eq :
    f.acts = .defineSymbol f.name :: .beginFunction :: (f.innerActs ++ f.endActs) := by
  obtain ⟨name, linkage, convention, type, parameters, attributes, debug, body⟩ := f
  cases body <;> simp [acts, headerActs, innerActs, endActs, bodyActs, blocks]

/-- The names of a kind in the blocks of a function, where a label has the effect `l` tells. -/
theorem names_blocks {α : Type} (k : NameKind α) {d u : Instruction → List α}
    (hi : ∀ i : Instruction, k.defined i.acts = d i ∧ k.used i.acts = u i)
    (hl : ∀ l, (k.effect (.defineBlock l)).used? = none) :
    k.defined (f.blocks.flatMap Block.acts) =
        f.blocks.flatMap (fun b =>
          (k.effect (.defineBlock b.label)).defined?.toList ++ b.instructions.flatMap d) ∧
      k.used (f.blocks.flatMap Block.acts) = f.instructions.flatMap u := by
  rw [defined_flatMap, used_flatMap, instructions, List.flatMap_assoc]
  simp [Block.acts, defined_cons, used_cons, defined_flatMap, used_flatMap, hi, hl]

/-- Symbols are used inside of a function but not defined. -/
theorem symbols_innerActs :
    symbolKind.defined f.innerActs = [] ∧ symbolKind.used f.innerActs = f.symbols := by
  obtain ⟨hd, hu⟩ := f.names_blocks symbolKind Instruction.symbols_acts fun _ => rfl
  rw [innerActs, defined_append, defined_append, used_append, used_append, hd, hu]
  simp [symbols, defined, used, symbolKind, symbolEffect, Effect.defined?, Effect.used?,
    List.filterMap_map]

/-- The debug record of a function is used in front of those of its instructions. -/
theorem metadata_innerActs :
    metadataKind.defined f.innerActs = [] ∧
      metadataKind.used f.innerActs = f.debug.toList ++ f.metadata := by
  obtain ⟨hd, hu⟩ := f.names_blocks metadataKind Instruction.metadata_acts fun _ => rfl
  rw [innerActs, defined_append, defined_append, used_append, used_append, hd, hu]
  cases f.debug <;> simp [metadata, defined, used, metadataKind, metadataEffect, Effect.defined?,
    Effect.used?, List.filterMap_map]

/-- The values of a function are its parameters and its results. -/
theorem values_innerActs :
    valueKind.defined f.innerActs = f.locals ∧
      valueKind.used f.innerActs = f.instructions.flatMap Instruction.values := by
  obtain ⟨hd, hu⟩ := f.names_blocks valueKind Instruction.values_acts fun _ => rfl
  have hr : f.blocks.flatMap (fun b => b.instructions.flatMap fun i => i.result.toList) =
      f.results := by
    rw [results, List.filterMap_eq_flatMap_toList, instructions, List.flatMap_assoc]
  rw [innerActs, defined_append, defined_append, used_append, used_append, hd, hu]
  cases f.debug <;> simp [hr, locals, defined, used, valueKind, valueEffect, Effect.defined?,
    Effect.used?, List.filterMap_map]

/-- The labels of a function are those of its blocks. -/
theorem blocks_innerActs :
    blockKind.defined f.innerActs = f.labels ∧
      blockKind.used f.innerActs = f.instructions.flatMap Instruction.targets := by
  obtain ⟨hd, hu⟩ := f.names_blocks blockKind Instruction.blocks_acts fun _ => rfl
  have hl : f.blocks.flatMap
      (fun b => b.label :: b.instructions.flatMap fun _ => ([] : List String)) = f.labels := by
    have hn : ∀ is : List Instruction, is.flatMap (fun _ => ([] : List String)) = [] := by simp
    simp [hn, labels, List.map_eq_flatMap]
  rw [innerActs, defined_append, defined_append, used_append, used_append, hd, hu]
  cases f.debug <;> simp [hl, defined, used, blockKind, blockEffect, Effect.defined?,
    Effect.used?, List.filterMap_map]

theorem names_endActs {α : Type} (k : NameKind α) (h : k.effect .endBody = .keep) :
    k.defined f.endActs = [] ∧ k.used f.endActs = [] := by
  rw [endActs]
  split
  · simp [defined, used, h, Effect.defined?, Effect.used?]
  · exact ⟨rfl, rfl⟩

/-- Inside of a function no other one begins, and none ends. -/
theorem scopeActs_notMem_innerActs :
    Act.beginFunction ∉ f.innerActs ∧ Act.endBody ∉ f.innerActs := by
  have hi : ∀ i : Instruction, Act.beginFunction ∉ i.acts ∧ Act.endBody ∉ i.acts := by
    intro i
    have ho : ∀ o : Operand, Act.beginFunction ∉ o.acts ∧ Act.endBody ∉ o.acts := by
      intro o
      cases o <;> simp [Operand.acts]
    have hfront : Act.beginFunction ∉ i.frontActs ∧ Act.endBody ∉ i.frontActs := by
      obtain ⟨result, action, attachments⟩ := i
      cases result <;> rcases action with ⟨_, _ | _, _⟩ | _ <;>
        simp [Instruction.frontActs, Callee.acts]
    simp [Instruction.acts_eq, ho, hfront]
  simp [innerActs, Block.acts, hi]

/-- The names of a function whose acts pass the check are those of its own scope. -/
theorem scoped_of_foldlM {trace : List Occurrence} {s s' : Scope}
    (h : trace.foldlM Scope.step s = .ok s') (ht : trace.map (·.act) = f.acts) :
    f.locals.Nodup ∧ f.labels.Nodup ∧ (∀ i ∈ f.instructions, ∀ v ∈ i.values, v ∈ f.locals) ∧
      ∀ i ∈ f.instructions, ∀ l ∈ i.targets, l ∈ f.labels := by
  rw [acts_eq] at ht
  obtain ⟨o₁, trace, rfl, -, ht⟩ := List.map_eq_cons_iff.mp ht
  obtain ⟨o₂, trace, rfl, ho₂, ht⟩ := List.map_eq_cons_iff.mp ht
  obtain ⟨inner, last, rfl, hinner, hlast⟩ := List.map_eq_append_iff.mp ht
  obtain ⟨s₁, -, h⟩ := Except.bind_eq_ok.mp h
  obtain ⟨s₂, h₂, h⟩ := Except.bind_eq_ok.mp h
  rw [List.foldlM_append] at h
  obtain ⟨s₃, h₃, h⟩ := Except.bind_eq_ok.mp h
  -- the function begins with no values and no blocks, and forgets none inside
  have after := step_after h₂
  rw [ho₂] at after
  have noReset : ∀ o ∈ inner, o.act ≠ .beginFunction := fun o ho e =>
    f.scopeActs_notMem_innerActs.1 (hinner ▸ e ▸ List.mem_map_of_mem ho)
  obtain ⟨hv, hvd, hvu⟩ := valueKind.foldlM_step_of_empty h₃
    (fun o ho e => noReset o ho (eq_beginFunction_of_valueEffect e)) after.2.2.1
  obtain ⟨hb, hbd, hbu⟩ := blockKind.foldlM_step_of_empty h₃
    (fun o ho e => noReset o ho (eq_beginFunction_of_blockEffect e)) after.2.2.2
  rw [hinner, f.values_innerActs.1] at hv hvd
  rw [hinner, f.values_innerActs.2] at hvu
  rw [hinner, f.blocks_innerActs.1] at hb hbd
  rw [hinner, f.blocks_innerActs.2] at hbu
  refine ⟨hv, hb, ?_⟩
  cases hbody : f.body with
  | none =>
      simp [instructions_of_none hbody]
  | some blocks =>
      simp only [endActs, hbody, Option.isSome_some, if_true] at hlast
      obtain ⟨⟨act, place⟩, _, rfl, rfl, hnil⟩ := List.map_eq_cons_iff.mp hlast
      obtain ⟨s₄, h₄, -⟩ := Except.bind_eq_ok.mp h
      obtain ⟨resolved, resolvedBlocks⟩ := step_endBody h₄
      refine ⟨fun i hi v hv => ?_, fun i hi l hl => ?_⟩
      · exact (hvd v).mp (resolved v ((hvu v).mpr (List.mem_flatMap.mpr ⟨i, hi, hv⟩)))
      · exact (hbd l).mp (resolvedBlocks l ((hbu l).mpr (List.mem_flatMap.mpr ⟨i, hi, hl⟩)))

end Function

/-! ## Names of texts -/

namespace Entity

/-- The symbol that an entity defines. -/
def name? : Entity → Option String
  | function f => some f.name
  | global g => some g.name
  | _ => none

def recordId? : Entity → Option UInt32
  | debugRecord r => some r.id
  | _ => none

/-- The symbols that an entity uses. -/
def symbols : Entity → List String
  | function f => f.symbols
  | global g => g.symbols
  | _ => []

/-- The debug records that an entity uses. -/
def metadata : Entity → List UInt32
  | function f => f.debug.toList ++ f.metadata
  | debugRecord r => r.entry.unit?.toList
  | _ => []

/-- Each entity defines at most one symbol, and it uses those in it. -/
theorem symbols_acts (e : Entity) :
    symbolKind.defined e.acts = e.name?.toList ∧ symbolKind.used e.acts = e.symbols := by
  cases e with
  | sourceName _ => exact ⟨rfl, rfl⟩
  | global g =>
      simp [acts, GlobalVariable.acts, name?, symbols, defined, used, symbolKind, symbolEffect,
        Effect.defined?, Effect.used?, List.filterMap_map]
  | function f =>
      obtain ⟨hd, hu⟩ := f.names_endActs symbolKind rfl
      rw [acts, f.acts_eq]
      simp only [defined_cons, used_cons, defined_append, used_append, f.symbols_innerActs.1,
        f.symbols_innerActs.2, hd, hu]
      exact ⟨rfl, List.append_nil _⟩
  | debugRecord r =>
      rw [acts, DebugRecord.acts]
      cases r.entry.unit? <;> exact ⟨rfl, rfl⟩

theorem metadata_acts (e : Entity) :
    metadataKind.defined e.acts = e.recordId?.toList ∧ metadataKind.used e.acts = e.metadata := by
  cases e with
  | sourceName _ => exact ⟨rfl, rfl⟩
  | global g =>
      simp [acts, GlobalVariable.acts, recordId?, metadata, defined, used, metadataKind,
        metadataEffect, Effect.defined?, Effect.used?, List.filterMap_map]
  | function f =>
      obtain ⟨hd, hu⟩ := f.names_endActs metadataKind rfl
      rw [acts, f.acts_eq]
      simp only [defined_cons, used_cons, defined_append, used_append, f.metadata_innerActs.1,
        f.metadata_innerActs.2, hd, hu]
      exact ⟨rfl, List.append_nil _⟩
  | debugRecord r =>
      rw [acts, DebugRecord.acts, metadata]
      cases r.entry.unit? <;> exact ⟨rfl, rfl⟩

theorem mem_functions {es : List Entity} {f : Function} :
    f ∈ (Module.ofEntities es).functions ↔ function f ∈ es := by
  simp only [Module.ofEntities, List.mem_filterMap]
  constructor
  · rintro ⟨e, he, h⟩
    cases e <;> cases h
    exact he
  · exact fun h => ⟨_, h, rfl⟩

theorem mem_globals {es : List Entity} {g : GlobalVariable} :
    g ∈ (Module.ofEntities es).globals ↔ global g ∈ es := by
  simp only [Module.ofEntities, List.mem_filterMap]
  constructor
  · rintro ⟨e, he, h⟩
    cases e <;> cases h
    exact he
  · exact fun h => ⟨_, h, rfl⟩

theorem mem_debugRecords {es : List Entity} {r : DebugRecord} :
    r ∈ (Module.ofEntities es).debugRecords ↔ debugRecord r ∈ es := by
  simp only [Module.ofEntities, List.mem_filterMap]
  constructor
  · rintro ⟨e, he, h⟩
    cases e <;> cases h
    exact he
  · exact fun h => ⟨_, h, rfl⟩

/-- A module lists its names by kind, a text in any order. -/
theorem names_perm (es : List Entity) : (es.filterMap name?).Perm (Module.ofEntities es).names := by
  induction es with
  | nil => exact .nil
  | cons e es ih =>
      cases e with
      | sourceName _ => exact ih
      | debugRecord _ => exact ih
      | function f => exact ih.cons f.name
      | global g => exact (ih.cons g.name).trans List.perm_middle.symm

theorem recordIds_eq (es : List Entity) :
    es.filterMap recordId? = (Module.ofEntities es).recordIds := by
  induction es with
  | nil => rfl
  | cons e es ih =>
      cases e with
      | sourceName _ => exact ih
      | debugRecord r => exact congrArg (r.id :: ·) ih
      | function f => exact ih
      | global g => exact ih

end Entity

/-- At the end of a text all symbols and records have to be there. -/
theorem Scope.close_eq_ok {s : Scope} (h : s.close = .ok ()) :
    (∀ n ∈ s.symbols.used.map (·.1), n ∈ s.symbols.defined) ∧
      ∀ id ∈ s.metadata.used.map (·.1), id ∈ s.metadata.defined := by
  obtain ⟨_, hs, hm⟩ := Except.bind_eq_ok.mp h
  exact ⟨Names.resolve_eq_ok hs, Names.resolve_eq_ok hm⟩

/-- Entities whose acts pass the check make a well-formed module. -/
theorem wellFormed_ofEntities {es : List Entity} {trace : List Occurrence} {scope : Scope}
    (sound : ∀ e ∈ es, e.IsSound) (ht : trace.map (·.act) = es.flatMap Entity.acts)
    (checked : checkTrace trace = .ok scope) (closed : scope.close = .ok ()) :
    (Module.ofEntities es).WellFormed := by
  obtain ⟨sn, sd, su⟩ := symbolKind.foldlM_step_of_empty checked
    (fun o _ e => symbolEffect_ne_reset o.act e) rfl
  obtain ⟨mn, md, mu⟩ := metadataKind.foldlM_step_of_empty checked
    (fun o _ e => metadataEffect_ne_reset o.act e) rfl
  rw [ht, defined_flatMap] at sn sd mn md
  rw [ht, used_flatMap] at su mu
  simp only [Entity.symbols_acts, ← List.filterMap_eq_flatMap_toList] at sn sd su
  simp only [Entity.metadata_acts, ← List.filterMap_eq_flatMap_toList, Entity.recordIds_eq]
    at mn md mu
  have symbolsResolve : ∀ e ∈ es, ∀ n ∈ e.symbols, n ∈ (Module.ofEntities es).names :=
    fun e he n hn => (Entity.names_perm es).mem_iff.mp <| (sd n).mp <|
      (Scope.close_eq_ok closed).1 n <| (su n).mpr <| List.mem_flatMap.mpr ⟨e, he, hn⟩
  have metadataResolves : ∀ e ∈ es, ∀ id ∈ e.metadata, id ∈ (Module.ofEntities es).recordIds :=
    fun e he id hid => (md id).mp <| (Scope.close_eq_ok closed).2 id <| (mu id).mpr <|
      List.mem_flatMap.mpr ⟨e, he, hid⟩
  constructor
  case names => exact (Entity.names_perm es).nodup_iff.mp sn
  case records => exact mn
  case functions =>
    intro f hf
    have hf := Entity.mem_functions.mp hf
    obtain ⟨before, behind, rfl⟩ := List.append_of_mem hf
    rw [List.flatMap_append, List.flatMap_cons] at ht
    obtain ⟨t₁, t, rfl, -, ht⟩ := List.map_eq_append_iff.mp ht
    obtain ⟨t₂, t₃, rfl, hact, -⟩ := List.map_eq_append_iff.mp ht
    rw [checkTrace, List.foldlM_append] at checked
    obtain ⟨s₁, -, checked⟩ := Except.bind_eq_ok.mp checked
    rw [List.foldlM_append] at checked
    obtain ⟨s₂, h₂, -⟩ := Except.bind_eq_ok.mp checked
    obtain ⟨locals, labels, values, targets⟩ := f.scoped_of_foldlM h₂ hact
    obtain ⟨instructions, declaration⟩ := sound _ hf
    exact ⟨instructions, locals, labels, values, targets, declaration⟩
  case globals => exact fun g hg => sound _ (Entity.mem_globals.mp hg)
  case functionSymbols => exact fun f hf => symbolsResolve _ (Entity.mem_functions.mp hf)
  case globalSymbols => exact fun g hg => symbolsResolve _ (Entity.mem_globals.mp hg)
  case debug =>
    exact fun f hf id hid => metadataResolves _ (Entity.mem_functions.mp hf) id
      (List.mem_append_left _ (Option.mem_toList.mpr hid))
  case metadata =>
    exact fun f hf id hid => metadataResolves _ (Entity.mem_functions.mp hf) id
      (List.mem_append_right _ hid)
  case units =>
    exact fun r hr id hid => metadataResolves _ (Entity.mem_debugRecords.mp hr) id
      (Option.mem_toList.mpr hid)

/-- What is read from a text is well-formed. -/
theorem wellFormed_of_read {text : String} {m : Module} (h : Module.read text = .ok m) :
    m.WellFormed := by
  have hc : readChars text.toList = .ok m := by
    unfold Module.read at h
    cases hc : readChars text.toList with
    | error f => rw [hc] at h; cases h
    | ok m' => rw [hc] at h; cases h; rfl
  obtain ⟨es, trace, scope, rfl, sound, ht, checked, closed⟩ := readChars_eq_ok hc
  exact wellFormed_ofEntities sound ht checked closed

end DeviceCode
