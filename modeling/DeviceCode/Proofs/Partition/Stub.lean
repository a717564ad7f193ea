import DeviceCode.Partition.Split
import DeviceCode.Proofs.Module.Equality
import DeviceCode.Proofs.Module.WellFormed

/-!
# Keeping some definitions

What a module keeps of its definitions is told by their names, so keeping what `p` selects and then
what `q` selects is keeping what both select (`stub_stub`).  All headers stay, and with them every
name that can be used; what uses names goes with the bodies and initializers.  So each law of a
well-formed module stays, whatever is kept.
-/

namespace DeviceCode

/-! ## Definitions and what stands for them -/

/-- How the definitions of a kind are told from declarations, and which declaration stands for
one. -/
structure DefinitionKind (α : Type) where
  name : α → String
  isDeclaration : α → Bool
  stub : α → α
  isDeclaration_stub : ∀ a, isDeclaration (stub a) = true

namespace DefinitionKind

variable {α β : Type} {kind : DefinitionKind α} {keep : String → Bool} {a : α} {l : List α}

/-- A definition, or what stands for it if its name is not kept. -/
def kept (kind : DefinitionKind α) (keep : String → Bool) (a : α) : α :=
  if kind.isDeclaration a || keep (kind.name a) then a else kind.stub a

theorem kept_of_isDeclaration (h : kind.isDeclaration a = true) : kind.kept keep a = a := by
  rw [kept, h, Bool.true_or, if_pos rfl]

theorem kept_of_true (h : keep (kind.name a) = true) : kind.kept keep a = a := by
  rw [kept, h, Bool.or_true, if_pos rfl]

theorem kept_of_false (hd : kind.isDeclaration a = false) (h : keep (kind.name a) = false) :
    kind.kept keep a = kind.stub a := by
  rw [kept, hd, h, Bool.or_false, if_neg Bool.false_ne_true]

theorem kept_cases (kind : DefinitionKind α) (keep : String → Bool) (a : α) :
    kind.kept keep a = a ∧ (kind.isDeclaration a = true ∨ keep (kind.name a) = true) ∨
      kind.kept keep a = kind.stub a := by
  cases hd : kind.isDeclaration a with
  | true => exact .inl ⟨kept_of_isDeclaration hd, .inl rfl⟩
  | false =>
      cases h : keep (kind.name a) with
      | true => exact .inl ⟨kept_of_true h, .inr rfl⟩
      | false => exact .inr (kept_of_false hd h)

/-- What is stubbed once is stubbed for good. -/
theorem kept_kept (p q : String → Bool) (a : α) :
    kind.kept q (kind.kept p a) = kind.kept (fun name => p name && q name) a := by
  cases hd : kind.isDeclaration a with
  | true => rw [kept_of_isDeclaration hd, kept_of_isDeclaration hd, kept_of_isDeclaration hd]
  | false =>
      cases hp : p (kind.name a) with
      | true => rw [kept_of_true hp, kept, kept, hp, Bool.true_and]
      | false =>
          have hboth : (p (kind.name a) && q (kind.name a)) = false := by rw [hp, Bool.false_and]
          rw [kept_of_false hd hp, kept_of_isDeclaration (kind.isDeclaration_stub a),
            kept_of_false hd hboth]

theorem map_kept_kept (p q : String → Bool) (l : List α) :
    (l.map (kind.kept p)).map (kind.kept q) = l.map (kind.kept fun name => p name && q name) := by
  rw [List.map_map]
  exact List.map_congr_left fun a _ => kept_kept p q a

@[simp] theorem map_kept_true (l : List α) : l.map (kind.kept fun _ => true) = l :=
  List.map_id'' (fun _ => kept_of_true rfl) l

/-- What a definition shares with its stub stays. -/
theorem map_map_kept {header : α → β} (hs : ∀ a, header (kind.stub a) = header a) :
    (l.map (kind.kept keep)).map header = l.map header := by
  rw [List.map_map]
  refine List.map_congr_left fun a _ => ?_
  rw [Function.comp_apply]
  rcases kind.kept_cases keep a with ⟨h, -⟩ | h
  · rw [h]
  · rw [h, hs]

variable (kind) in
/-- What holds of all definitions and of their stubs holds of all that are left. -/
theorem forall_mem_map_kept {P : α → Prop} (hl : ∀ a ∈ l, P a) (hs : ∀ a, P a → P (kind.stub a)) :
    ∀ a ∈ l.map (kind.kept keep), P a := by
  rw [List.forall_mem_map]
  intro a ha
  rcases kind.kept_cases keep a with ⟨h, -⟩ | h
  · rw [h]
    exact hl a ha
  · rw [h]
    exact hs a (hl a ha)

variable (kind) in
/-- The definitions that are left are those that are kept. -/
theorem mem_map_kept (hd : kind.isDeclaration a = false) :
    a ∈ l.map (kind.kept keep) ↔ a ∈ l ∧ keep (kind.name a) = true := by
  rw [List.mem_map]
  constructor
  · rintro ⟨b, hb, he⟩
    rcases kind.kept_cases keep b with ⟨h, hk⟩ | h
    · obtain rfl : b = a := h.symm.trans he
      rw [hd] at hk
      exact ⟨hb, hk.resolve_left Bool.false_ne_true⟩
    · rw [← he, h, kind.isDeclaration_stub] at hd
      cases hd
  · exact fun ⟨ha, hk⟩ => ⟨a, ha, kept_of_true hk⟩

end DefinitionKind

/-! ## Functions and global variables -/

def Function.definitionKind : DefinitionKind Function :=
  ⟨(·.name), (·.isDeclaration), (·.stub), fun _ => rfl⟩

def GlobalVariable.definitionKind : DefinitionKind GlobalVariable :=
  ⟨(·.name), (·.isDeclaration), (·.stub), fun _ => rfl⟩

/-- What a function shares with a declaration that stands for it. -/
def Function.header (f : Function) :
    String × CallingConvention × ValueType × List String × List Attribute :=
  (f.name, f.convention, f.returnType, f.parameters, f.attributes)

/-- What a global variable shares with a declaration that stands for it. -/
def GlobalVariable.header (g : GlobalVariable) : String × Bool := (g.name, g.isConstant)

/-- A stub is well-formed, as it has no body to be otherwise. -/
theorem Function.WellFormed.stub {f : Function} (h : f.WellFormed) : f.stub.WellFormed where
  instructions := nofun
  locals := by
    have hlocals : f.stub.locals = f.parameters := List.append_nil _
    rw [hlocals]
    exact (List.nodup_append.mp h.locals).1
  labels := List.nodup_nil
  values := nofun
  targets := nofun
  declaration _ := ⟨rfl, rfl⟩

/-- A stub of a variable is external and has no initializer. -/
theorem GlobalVariable.wellFormed_stub (g : GlobalVariable) : g.stub.WellFormed where
  typed := nofun
  declaration _ := rfl

/-! ## Modules -/

namespace Module

variable {m : Module} {keep : String → Bool}

/-- A declaration is external, and that of a function has no debug record. -/
structure DeclaresPlainly (m : Module) : Prop where
  functions : ∀ f ∈ m.functions, f.body = none → f.linkage = .external ∧ f.debug = none
  globals : ∀ g ∈ m.globals, g.initializer = none → g.linkage = .external

/-- The module `m'` has the headers of `m` in their order, all its debug records, and those of its
definitions whose names are kept. -/
structure Keeps (m : Module) (keep : String → Bool) (m' : Module) : Prop where
  sourceName : m'.sourceName = m.sourceName
  functionHeaders : m'.functions.map (·.header) = m.functions.map (·.header)
  globalHeaders : m'.globals.map (·.header) = m.globals.map (·.header)
  debugRecords : m'.debugRecords = m.debugRecords
  functions : ∀ f, f.body ≠ none → (f ∈ m'.functions ↔ f ∈ m.functions ∧ keep f.name = true)
  globals : ∀ g, g.initializer ≠ none → (g ∈ m'.globals ↔ g ∈ m.globals ∧ keep g.name = true)

/-- The functions of a module of which some definitions are kept. -/
theorem functions_stub (m : Module) (keep : String → Bool) :
    (m.stub keep).functions = m.functions.map (Function.definitionKind.kept keep) := rfl

theorem globals_stub (m : Module) (keep : String → Bool) :
    (m.stub keep).globals = m.globals.map (GlobalVariable.definitionKind.kept keep) := rfl

theorem stub_eq (m : Module) (keep : String → Bool) :
    m.stub keep =
      { m with globals := (m.stub keep).globals, functions := (m.stub keep).functions } := rfl

/-- Keeping twice is keeping what both keep. -/
theorem stub_stub (m : Module) (p q : String → Bool) :
    (m.stub p).stub q = m.stub fun name => p name && q name := by
  have hf : ((m.stub p).stub q).functions = (m.stub fun name => p name && q name).functions := by
    rw [functions_stub, functions_stub, functions_stub, DefinitionKind.map_kept_kept]
  have hg : ((m.stub p).stub q).globals = (m.stub fun name => p name && q name).globals := by
    rw [globals_stub, globals_stub, globals_stub, DefinitionKind.map_kept_kept]
  rw [stub_eq (m.stub p), hf, hg]
  rfl

/-- All definitions are kept. -/
@[simp] theorem stub_true (m : Module) : m.stub (fun _ => true) = m := by
  rw [stub_eq, functions_stub, globals_stub, DefinitionKind.map_kept_true,
    DefinitionKind.map_kept_true]

/-- What holds of functions and of their stubs, holds of what is kept. -/
theorem forall_functions_stub {P : Function → Prop} (hm : ∀ f ∈ m.functions, P f)
    (hs : ∀ f, P f → P f.stub) : ∀ f ∈ (m.stub keep).functions, P f :=
  Function.definitionKind.forall_mem_map_kept hm hs

theorem forall_globals_stub {P : GlobalVariable → Prop} (hm : ∀ g ∈ m.globals, P g)
    (hs : ∀ g, P g → P g.stub) : ∀ g ∈ (m.stub keep).globals, P g :=
  GlobalVariable.definitionKind.forall_mem_map_kept hm hs

/-- What is kept has the headers it had, and the definitions whose names are selected. -/
theorem keeps_stub (m : Module) (keep : String → Bool) : m.Keeps keep (m.stub keep) where
  sourceName := rfl
  functionHeaders := by
    rw [functions_stub]
    exact DefinitionKind.map_map_kept fun _ => rfl
  globalHeaders := by
    rw [globals_stub]
    exact DefinitionKind.map_map_kept fun _ => rfl
  debugRecords := rfl
  functions _ hb := Function.definitionKind.mem_map_kept
    (Option.isNone_eq_false_iff.mpr (Option.isSome_iff_ne_none.mpr hb))
  globals _ hi := GlobalVariable.definitionKind.mem_map_kept
    (Option.isNone_eq_false_iff.mpr (Option.isSome_iff_ne_none.mpr hi))

theorem names_stub (m : Module) (keep : String → Bool) : (m.stub keep).names = m.names := by
  have hf : (m.stub keep).functions.map (·.name) = m.functions.map (·.name) := by
    rw [functions_stub]
    exact DefinitionKind.map_map_kept fun _ => rfl
  have hg : (m.stub keep).globals.map (·.name) = m.globals.map (·.name) := by
    rw [globals_stub]
    exact DefinitionKind.map_map_kept fun _ => rfl
  rw [names, hf, hg, names]

/-! ## Laws that stay -/

/-- Linking still works, as fewer names are used and all are still there. -/
theorem IsLinked.stub (hm : m.IsLinked) : (m.stub keep).IsLinked where
  names := by
    rw [names_stub]
    exact hm.names
  functionSymbols := by
    rw [names_stub]
    exact forall_functions_stub hm.functionSymbols fun _ _ => nofun
  globalSymbols := by
    rw [names_stub]
    exact forall_globals_stub hm.globalSymbols fun _ _ => nofun
  values := forall_functions_stub hm.values fun _ _ => nofun
  targets := forall_functions_stub hm.targets fun _ _ => nofun
  debug := forall_functions_stub hm.debug fun _ _ => nofun
  metadata := forall_functions_stub hm.metadata fun _ _ => nofun
  units := hm.units

theorem DeclaresPlainly.stub (hm : m.DeclaresPlainly) : (m.stub keep).DeclaresPlainly where
  functions := forall_functions_stub hm.functions fun _ _ _ => ⟨rfl, rfl⟩
  globals := forall_globals_stub hm.globals fun _ _ _ => rfl

/-- A well-formed module stays well-formed, whatever is kept. -/
theorem WellFormed.stub (hm : m.WellFormed) : (m.stub keep).WellFormed where
  names := hm.isLinked.stub.names
  records := hm.records
  functions := forall_functions_stub hm.functions fun _ => Function.WellFormed.stub
  globals := forall_globals_stub hm.globals fun g _ => g.wellFormed_stub
  functionSymbols := hm.isLinked.stub.functionSymbols
  globalSymbols := hm.isLinked.stub.globalSymbols
  debug := hm.isLinked.stub.debug
  metadata := hm.isLinked.stub.metadata
  units := hm.units

/-- Keeping definitions twice keeps what is selected both times, so the order does not matter and
the same again changes nothing.  All headers stay, whatever is kept, and a module that was linked,
or well-formed, is so still. -/
theorem stub_composes (m : Module) (p q : String → Bool) :
    (m.stub p).stub q = m.stub (fun name => p name && q name) ∧
      (m.stub p).stub p = m.stub p ∧ (m.stub p).stub q = (m.stub q).stub p ∧
      m.stub (fun _ => true) = m ∧ m.Keeps p (m.stub p) ∧
      (m.IsLinked → (m.stub p).IsLinked) ∧ (m.DeclaresPlainly → (m.stub p).DeclaresPlainly) ∧
      (m.WellFormed → (m.stub p).WellFormed) := by
  refine ⟨m.stub_stub p q, ?_, ?_, m.stub_true, m.keeps_stub p, IsLinked.stub,
    DeclaresPlainly.stub, WellFormed.stub⟩
  · simp only [stub_stub, Bool.and_self]
  · simp only [stub_stub, Bool.and_comm]

/-- A kernel, a function and a table that all mention one another, and a function declared. -/
def entwined : Module where
  sourceName := some "e.cpp"
  globals := [⟨"t", .internal, true, some (.array [.symbol "f", .symbol "k", .symbol "t"])⟩]
  functions := [
    { Function.declaration "k" .void ["x"] with
      convention := .kernel
      attributes := [⟨"sycl-module-id", "e.cpp"⟩]
      debug := some 1
      body := some [⟨"a", [
        ⟨some "r", .call .i32 (.direct "f") [.value "x", .symbol "t"], [⟨"note", .metadata 0⟩]⟩,
        ⟨none, .operation "br" [.block "a", .value "r"], []⟩]⟩] },
    { Function.declaration "f" .i32 ["p", "q"] with
      linkage := .weakODR
      debug := some 1
      body := some [⟨"a", [
        ⟨none, .call .void (.indirect "p") [.symbol "k", .symbol "d"], []⟩]⟩] },
    .declaration "d" .void []]
  debugRecords := [⟨0, .compileUnit "e.cpp"⟩, ⟨1, .subprogram "k" 0⟩]

/-- Whichever of the three lose their definitions, first the table and then the function, what is
left is linked. -/
theorem entwined_stub :
    entwined.WellFormed ∧ entwined.IsLinked ∧ entwined.DeclaresPlainly ∧
      (entwined.stub (· != "t")).stub (· != "f") = entwined.stub (· == "k") ∧
      (entwined.stub (· != "t")).IsLinked ∧ (entwined.stub (· != "t")).DeclaresPlainly ∧
      (entwined.stub (· != "t")).WellFormed := by
  have hw : entwined.WellFormed := by decide
  have hd : entwined.DeclaresPlainly :=
    ⟨fun f hf => (hw.functions f hf).declaration, fun g hg => (hw.globals g hg).declaration⟩
  obtain ⟨htwice, -, -, -, -, hlinked, hplain, hwell⟩ :=
    stub_composes entwined (· != "t") (· != "f")
  exact ⟨hw, hw.isLinked, hd, htwice.trans (by decide), hlinked hw.isLinked, hplain hd, hwell hw⟩

end Module

end DeviceCode
