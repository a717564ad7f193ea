import DeviceCode.Proofs.Assembly.FaithfulBody

/-!
# Names where they are written: entities

Every scan of an entity is faithful, and so is that of a whole text.
-/

namespace DeviceCode.Assembly.Scan

variable {text : List Char}

/-! ## Global variables and debug records -/

theorem faithful_word : Faithful text word :=
  faithful_place.bind fun _ => faithful_keyword.bind fun _ => Faithful.pure

/-- Words tell the linkage and are no names. -/
theorem faithful_variableLinkage? : Faithful text variableLinkage? := by
  refine faithful_word.bind fun w => ?_
  cases Linkage.ofKeyword? w.1 with
  | none => exact Faithful.pure
  | some l => exact faithful_word.bind fun _ => Faithful.pure

/-- A variable is announced as `global` or `constant`, and any other word is a fault of no name. -/
theorem faithful_variableKind (w : String) : Faithful text (variableKind w) :=
  Ensures.ite (fun _ => Faithful.pure) fun _ =>
    Ensures.ite (fun _ => Faithful.pure) fun _ => ensures_fail rfl

/-- Without an initializer the variable is a declaration, and its linkage may be at fault, but not
its name. -/
theorem faithful_initializer? (name : String) (start : Place) (linkage : Linkage) :
    Faithful text (initializer? name start linkage) :=
  faithful_isAtLineEnd.bind fun _ => Ensures.ite
    (fun _ => Ensures.ite (fun _ => Faithful.pure) fun _ => ensures_failAt rfl)
    fun _ => Faithful.map faithful_initializer _

theorem faithful_global : Faithful text global :=
  ensures_expect.bind fun _ => ensures_place.bind fun _ =>
    (Ensures.mono (ensures_noted fun _ => rfl) (fun _ h => h.2) fun _ _ h => h).bind fun _ =>
      faithful_expect.bind fun _ => faithful_variableLinkage?.bind fun _ =>
        (faithful_variableKind _).bind fun _ => (faithful_initializer? _ _ _).bind fun _ =>
          Faithful.pure

/-- A record of debug information notes numbers, and strings are no names. -/
theorem faithful_debugEntry : Faithful text debugEntry :=
  faithful_word.bind fun _ => Ensures.ite (fun _ => Faithful.map faithful_string _) fun _ =>
    Ensures.ite
      (fun _ => faithful_string.bind fun _ => Faithful.map faithful_metadataUse _)
      fun _ => ensures_failAt rfl

theorem faithful_debugRecord : Faithful text debugRecord :=
  faithful_expect.bind fun _ => faithful_place.bind fun _ => faithful_number.bind fun _ =>
    (ensures_note rfl _).bind fun _ => faithful_expect.bind fun _ =>
      faithful_debugEntry.bind fun _ => Faithful.pure

/-! ## Functions -/

theorem faithful_functionLinkage (isDefinition : Bool) :
    Faithful text (functionLinkage isDefinition) := by
  refine faithful_word.bind fun w => ?_
  cases Linkage.ofKeyword? w.1 with
  | none => exact Faithful.pure
  | some l =>
      exact Ensures.ite (fun _ => ensures_failAt rfl) fun _ =>
        faithful_word.bind fun _ => Faithful.pure

/-- The convention is a word, and the one that was read is a fault of no name. -/
theorem faithful_convention (w : String × Place) : Faithful text (convention w) := by
  rw [convention]
  cases CallingConvention.ofKeyword? w.1 with
  | none => exact Faithful.pure
  | some cc => exact faithful_word.bind fun _ => Faithful.pure

theorem faithful_parameter : Faithful text parameter :=
  ensures_expect.bind fun _ => ensures_noted fun _ => rfl

/-- The key and the value of an attribute are strings, which are no names. -/
theorem faithful_functionAttribute : Faithful text functionAttribute :=
  faithful_string.bind fun _ => faithful_expect.bind fun _ => faithful_string.bind fun _ =>
    Faithful.pure

theorem faithful_debugUse? : Faithful text debugUse? :=
  Faithful.tryChar
    (faithful_word.anywhere.bind fun _ =>
      Ensures.ite (fun _ => Faithful.map faithful_metadataUse _) fun _ => ensures_failAt rfl)
    Faithful.pure

/-- A header notes the function and then its parameters, each behind its sigil. -/
theorem faithful_header (linkage : Linkage) (cc : CallingConvention) (type : ValueType) :
    Faithful text (header linkage cc type) :=
  ensures_expect.bind fun _ => (ensures_noted fun _ => rfl).bind fun _ =>
    faithful_place.bind fun _ => (ensures_note rfl _).bind fun _ => faithful_expect.bind fun _ =>
      (faithful_listUntil faithful_parameter ')' _).bind fun _ =>
        (ensures_many (faithful_behind faithful_functionAttribute '#')).bind fun _ =>
          Faithful.pure

theorem faithful_signature (isDefinition : Bool) : Faithful text (signature isDefinition) := by
  refine (faithful_functionLinkage isDefinition).bind fun _ =>
    (faithful_convention _).bind fun c => ?_
  obtain ⟨cc, typeName, start⟩ := c
  dsimp only
  cases ValueType.ofName? typeName with
  | none => exact ensures_failAt rfl
  | some type => exact faithful_header _ cc type

/-- A definition goes on with a body, and a declaration ends with its header. -/
theorem faithful_function (isDefinition : Bool) : Faithful text (function isDefinition) :=
  (faithful_signature isDefinition).bind fun f => Ensures.ite
    (fun _ => faithful_debugUse?.bind fun _ => (faithful_body f.name).bind fun _ => Faithful.pure)
    fun _ => Faithful.pure

/-! ## Texts -/

/-- What stands at the beginning of a line is a word, or the sigil of a variable or of debug
information. -/
theorem faithful_worded : Faithful text worded :=
  faithful_word.bind fun _ => Ensures.ite (fun _ => Faithful.map (faithful_function true) _)
    fun _ => Ensures.ite (fun _ => Faithful.map (faithful_function false) _) fun _ => Ensures.ite
      (fun _ => faithful_expect.bind fun _ => Faithful.map faithful_string _)
      fun _ => ensures_failAt rfl

theorem faithful_entity : Faithful text entity :=
  faithful_next?.bind fun _ => Ensures.ite (fun _ => Faithful.map faithful_global _) fun _ =>
    Ensures.ite (fun _ => Faithful.map faithful_debugRecord _) fun _ => faithful_worded

theorem faithful_entityItem : Faithful text entityItem :=
  faithful_place.bind fun _ => Ensures.ite (fun _ => Faithful.pure) fun _ =>
    faithful_entity.bind fun _ => faithful_expectLineEnd.bind fun _ =>
      (faithful_blanks true).bind fun _ => Faithful.pure

/-- Since each entity is faithful, the scan of a text is, by induction on the entities. -/
theorem faithful_entities : Faithful text entities :=
  (faithful_blanks true).bind fun _ => ensures_many faithful_entityItem

/-- Every name that is noted while a text is scanned stands at its place in the text. -/
theorem outcome_entities (text : List Char) :
    Outcome text (fun _ _ => True) (entities ⟨text, []⟩) :=
  faithful_entities ⟨text, []⟩ ⟨List.suffix_rfl, nofun⟩ trivial

end DeviceCode.Assembly.Scan
