import DeviceCode.Proofs.Assembly.Acts
import DeviceCode.Proofs.Basic

/-!
# The trace of a text

The scans of global variables, functions and debug records tell their acts, so the trace of a text
that is read is the acts of its entities (`read_eq_ok`).  What the grammar demands of each entity by
itself is `Entity.IsSound`.
-/

namespace DeviceCode

open Assembly

/-- What the grammar demands of a function, apart from its names. -/
structure Function.IsSound (f : Function) : Prop where
  instructions : ∀ i ∈ f.instructions, i.WellFormed
  declaration : f.body = none → f.linkage = .external ∧ f.debug = none

/-- What the grammar demands of an entity by itself. -/
def Entity.IsSound : Entity → Prop
  | sourceName _ | debugRecord _ => True
  | global g => g.WellFormed
  | function f => f.IsSound

namespace Assembly.Scan

/-! ## Global variables -/

theorem silent_word : Silent word :=
  silent_place.then fun _ => silent_keyword.then fun _ => Yields.pure rfl

theorem silent_variableLinkage? : Silent variableLinkage? := by
  refine silent_word.then fun w => ?_
  split
  · exact silent_word.then fun _ => Yields.pure rfl
  · exact Yields.pure rfl

theorem silent_variableKind (w : String) : Silent (variableKind w) := by
  unfold variableKind
  split
  · exact Yields.pure rfl
  · exact Yields.ite (fun _ => Yields.pure rfl) fun _ => yields_fail _

/-- A variable without an initializer is external, or the scan has failed. -/
theorem tells_initializer? (name : String) (start : Place) (linkage : Linkage) :
    Tells (fun o => o.elim [] fun i => i.symbols.map .useSymbol)
      (fun o => (∀ i ∈ o, ∀ leaf ∈ i.leaves, leaf.IsTypedLeaf) ∧ (o = none → linkage = .external))
      (initializer? name start linkage) := by
  refine silent_isAtLineEnd.then fun b => ?_
  cases b with
  | true =>
      refine Yields.ite (fun _ => Yields.ite (fun h => ?_) fun _ => yields_failAt _ _) nofun
      exact Yields.pure ⟨rfl, nofun, fun _ => h⟩
  | false =>
      refine Yields.ite nofun fun _ => tells_initializer.map ?_
      rintro i t ⟨rfl, typed⟩
      refine ⟨rfl, ?_, nofun⟩
      rintro j ⟨⟩
      exact typed

/-- A variable tells its own name and then the symbols of its initializer. -/
theorem tells_global : Tells GlobalVariable.acts GlobalVariable.WellFormed global := by
  refine (silent_expect _).then fun _ => silent_place.then fun start => (yields_noted _).bind ?_
  rintro name t rfl
  refine (silent_expect _).then fun _ => silent_variableLinkage?.then fun l =>
    (silent_variableKind _).then fun isConstant => Yields.bind (tells_initializer? _ _ _) ?_
  rintro init u ⟨rfl, typed, external⟩
  refine Yields.pure ⟨?_, typed, external⟩
  cases init <;> simp [GlobalVariable.acts, GlobalVariable.symbols]

/-! ## Debug records -/

/-- A subprogram uses the record of its compile unit. -/
theorem tells_debugEntry :
    Tells (fun e => e.unit?.toList.map .useMetadata) (fun _ => True) debugEntry := by
  refine silent_word.then fun w => Yields.ite (fun _ => ?_) fun _ => Yields.ite (fun _ => ?_)
    fun _ => yields_failAt _ _
  · exact silent_string.map fun s t ht => ⟨ht, trivial⟩
  · exact silent_string.then fun name => yields_metadataUse.map fun id t ht => ⟨ht, trivial⟩

theorem tells_debugRecord : Tells DebugRecord.acts (fun _ => True) debugRecord := by
  refine (silent_expect _).then fun _ => silent_place.then fun start => silent_number.then
    fun id => (yields_note _ _).bind ?_
  rintro - t rfl
  refine (silent_expect _).then fun _ => Yields.bind tells_debugEntry ?_
  rintro entry u ⟨rfl, -⟩
  exact Yields.pure ⟨by simp [DebugRecord.acts], trivial⟩

/-! ## Functions -/

/-- The linkage of a declaration is external; its words tell nothing. -/
theorem yields_functionLinkage (isDefinition : Bool) :
    Yields (fun l t => t = [] ∧ (isDefinition = false → l.1 = .external))
      (functionLinkage isDefinition) := by
  refine silent_word.then fun w => ?_
  split
  · rename_i l _
    refine Yields.ite (fun _ => yields_failAt _ _) fun h => silent_word.then fun next => ?_
    refine Yields.pure ⟨rfl, ?_⟩
    rintro rfl
    simpa using h
  · exact Yields.pure ⟨rfl, fun _ => rfl⟩

theorem silent_convention (w : String × Place) : Silent (convention w) := by
  unfold convention
  split
  · exact silent_word.then fun _ => Yields.pure rfl
  · exact Yields.pure rfl

theorem tells_parameter :
    Tells (fun n => [Act.defineParameter n]) (fun _ => True) parameter :=
  (silent_expect _).then fun _ => (yields_noted _).mono fun _ _ ht => ⟨ht, trivial⟩

theorem tells_functionAttribute : Tells (fun _ => []) (fun _ => True) functionAttribute :=
  silent_string.then fun _ => (silent_expect _).then fun _ => silent_string.then fun _ =>
    Yields.pure ⟨rfl, trivial⟩

/-- A header tells the function, its parameters and that its own names begin here. -/
theorem tells_header (linkage : Linkage) (cc : CallingConvention) (type : ValueType) :
    Tells Function.headerActs (fun f => f.linkage = linkage ∧ f.debug = none ∧ f.body = none)
      (header linkage cc type) := by
  refine (silent_expect _).then fun _ => (yields_noted _).bind ?_
  rintro name t rfl
  refine silent_place.then fun start => (yields_note _ _).bind ?_
  rintro - u rfl
  refine (silent_expect _).then fun _ => Yields.bind (tells_listUntil ')' _ tells_parameter) ?_
  rintro parameters v ⟨rfl, -⟩
  refine Yields.bind (tells_many (tells_behind '#' tells_functionAttribute)) ?_
  rintro attributes w ⟨rfl, -⟩
  refine Yields.pure ⟨?_, rfl, rfl, rfl⟩
  have attributeActs : attributes.flatMap (fun _ => ([] : List Act)) = [] := by simp
  rw [attributeActs, ← List.map_eq_flatMap]
  simp [Function.headerActs]

theorem tells_signature (isDefinition : Bool) :
    Tells Function.headerActs
      (fun f => (isDefinition = false → f.linkage = .external) ∧ f.debug = none ∧ f.body = none)
      (signature isDefinition) := by
  refine Yields.bind (yields_functionLinkage isDefinition) ?_
  rintro ⟨linkage, next⟩ t ⟨rfl, external⟩
  refine (silent_convention next).then ?_
  rintro ⟨cc, typeName, start⟩
  dsimp only
  split
  · exact yields_failAt _ _
  · refine (tells_header _ _ _).mono ?_
    rintro f t ⟨rfl, rfl, hd, hb⟩
    exact ⟨rfl, external, hd, hb⟩

theorem tells_debugUse? :
    Tells (fun d => d.toList.map .useMetadata) (fun _ => True) debugUse? := by
  refine (silent_tryChar _).then fun b => ?_
  cases b with
  | false => exact Yields.pure ⟨rfl, trivial⟩
  | true =>
      refine silent_word.then fun w => Yields.ite (fun _ => ?_) fun _ => yields_failAt _ _
      exact yields_metadataUse.map fun id t ht => ⟨ht, trivial⟩

/-- A block of a body tells its acts; the brace that ends the body tells nothing. -/
theorem tells_bodyItem (function : String) :
    TellsIf Block.acts (fun b => ∀ i ∈ b.instructions, i.WellFormed) (bodyItem function) := by
  refine (silent_tryChar _).then fun b => ?_
  cases b with
  | true => exact tellsIf_none
  | false =>
      refine silent_place.then fun rest => Yields.ite (fun _ => yields_fail _) fun _ =>
        Yields.bind tells_block ?_
      rintro b t ⟨rfl, hb⟩
      refine (silent_blanks _).then fun _ => Yields.pure ⟨by simp, ?_⟩
      rintro b' ⟨⟩
      exact hb

/-- The end of a body is told behind all its blocks. -/
theorem tells_body (function : String) :
    Tells Function.bodyActs (fun bs => ∀ b ∈ bs, ∀ i ∈ b.instructions, i.WellFormed)
      (body function) := by
  refine (silent_expect _).then fun _ => (silent_blanks _).then fun _ =>
    Yields.bind (tells_many (tells_bodyItem function)) ?_
  rintro blocks t ⟨rfl, hbs⟩
  refine silent_place.then fun p => (yields_note _ _).bind ?_
  rintro - u rfl
  exact Yields.pure ⟨by simp [Function.bodyActs], hbs⟩

/-- A function is sound: it is a definition with well-formed instructions or an external
declaration. -/
theorem tells_function (isDefinition : Bool) :
    Tells Function.acts Function.IsSound (function isDefinition) := by
  refine Yields.bind (tells_signature isDefinition) ?_
  rintro f t ⟨rfl, external, hd, hb⟩
  cases isDefinition with
  | false =>
      refine Yields.pure ⟨by simp [Function.acts, hd, hb], ⟨?_, fun _ => ⟨external rfl, hd⟩⟩⟩
      simp [Function.instructions_of_none hb]
  | true =>
      refine Yields.bind tells_debugUse? ?_
      rintro debug u ⟨rfl, -⟩
      refine Yields.bind (tells_body f.name) ?_
      rintro blocks v ⟨rfl, hbs⟩
      refine Yields.pure ⟨by simp [Function.acts, Function.headerActs], ⟨?_, nofun⟩⟩
      intro i hi
      obtain ⟨b, hb, hi⟩ := List.mem_flatMap.mp hi
      exact hbs b hb i hi

/-! ## Texts -/

theorem tells_worded : Tells Entity.acts Entity.IsSound worded := by
  refine silent_word.then fun w => Yields.ite (fun _ => ?_) fun _ => Yields.ite (fun _ => ?_)
    fun _ => Yields.ite (fun _ => ?_) fun _ => yields_failAt _ _
  · exact (tells_function true).map fun f t h => h
  · exact (tells_function false).map fun f t h => h
  · exact (silent_expect _).then fun _ => silent_string.map fun s t ht => ⟨ht, trivial⟩

/-- The first character decides which entity is read. -/
theorem tells_entity : Tells Entity.acts Entity.IsSound entity := by
  refine silent_next?.then fun c => Yields.ite (fun _ => ?_) fun _ => Yields.ite (fun _ => ?_)
    fun _ => tells_worded
  · exact tells_global.map fun g t h => h
  · exact tells_debugRecord.map fun r t h => h

theorem tells_entityItem : TellsIf Entity.acts Entity.IsSound entityItem := by
  refine silent_place.then fun rest => Yields.ite (fun _ => tellsIf_none) fun _ =>
    Yields.bind tells_entity ?_
  rintro e t ⟨rfl, he⟩
  refine silent_expectLineEnd.then fun _ => (silent_blanks _).then fun _ =>
    Yields.pure ⟨by simp, ?_⟩
  rintro e' ⟨⟩
  exact he

/-- The trace of a text is the acts of its entities, one behind the other. -/
theorem tells_entities :
    Tells (List.flatMap Entity.acts) (fun es => ∀ e ∈ es, e.IsSound) entities :=
  (silent_blanks _).then fun _ => tells_many tells_entityItem

end Scan

/-- A text is read as the module of the entities in it, if their names pass the check. -/
theorem readChars_eq_ok_iff {text : List Char} {m : Module} :
    readChars text = .ok m ↔ ∃ es c scope, Scan.entities ⟨text, []⟩ = .ok es c ∧
      checkTrace c.trace.reverse = .ok scope ∧ scope.close = .ok () ∧ m = Module.ofEntities es := by
  rw [readChars]
  constructor
  · intro h
    split at h
    case h_1 es c e =>
      obtain ⟨scope, checked, h⟩ := Except.bind_eq_ok.mp h
      obtain ⟨⟨⟩, closed, h⟩ := Except.bind_eq_ok.mp h
      exact ⟨es, c, scope, e, checked, closed, (Except.ok.inj h).symm⟩
    case h_2 =>
      obtain ⟨_, _, h⟩ := Except.bind_eq_ok.mp h
      cases h
  · rintro ⟨es, c, scope, e, checked, closed, rfl⟩
    rw [e]
    exact Except.bind_eq_ok.mpr ⟨scope, checked, Except.bind_eq_ok.mpr ⟨(), closed, rfl⟩⟩

/-- A text that is read is a sequence of sound entities whose acts pass the check. -/
theorem readChars_eq_ok {text : List Char} {m : Module} (h : readChars text = .ok m) :
    ∃ es trace scope, m = Module.ofEntities es ∧ (∀ e ∈ es, e.IsSound) ∧
      trace.map Occurrence.act = es.flatMap Entity.acts ∧ checkTrace trace = .ok scope ∧
      scope.close = .ok () := by
  obtain ⟨es, c, scope, e, checked, closed, rfl⟩ := readChars_eq_ok_iff.mp h
  obtain ⟨t, ht, rfl, sound⟩ := Scan.tells_entities _ _ _ e
  exact ⟨es, c.trace.reverse, scope, rfl, sound, ht, checked, closed⟩

end Assembly

end DeviceCode
