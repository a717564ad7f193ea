import DeviceCode.Proofs.Assembly.Reads
import DeviceCode.Proofs.Assembly.WellFormed

/-!
# Well-formed modules pass the check

A checked trace says that names are defined once and that uses are resolved.  Here is the
converse.  A scope takes a step if the act defines no name that is there already (`Scope.Permits`),
and what it permits of a run of acts is what is new among the names these define
(`NameKind.IsFresh`).  So the acts of the entities of a well-formed module pass the check
(`exists_scope`), and a text with these entities is read (`readChars_of_reads`).
-/

namespace DeviceCode

namespace Assembly

variable {α : Type}

/-! ## Steps -/

/-- A name that is not there yet can be defined. -/
theorem Names.define_of_notMem [DecidableEq α] {n : Names α} {a : α} (h : a ∉ n.defined)
    (fault : Fault) : n.define a fault = .ok { n with defined := a :: n.defined } := if_neg h

/-- Uses are resolved when all names that are used have been defined. -/
theorem Names.resolve_of_defined [DecidableEq α] {n : Names α}
    (h : ∀ a ∈ n.used.map (·.1), a ∈ n.defined) (cause : α → Cause) : n.resolve cause = .ok () := by
  have hnone : n.used.reverse.find? (fun u => !decide (u.1 ∈ n.defined)) = none := by
    rw [List.find?_eq_none]
    intro u hu
    simpa using h u.1 (List.mem_map_of_mem (List.mem_reverse.mp hu))
  rw [resolve, hnone]

/-- The acts define new names of a kind only, each of them once. -/
structure NameKind.IsFresh (k : NameKind α) (acts : List Act) (s : Scope) : Prop where
  nodup : (k.defined acts).Nodup
  new : ∀ a ∈ k.defined acts, a ∉ (k.view s).defined

namespace NameKind

variable {k : NameKind α} {acts : List Act} {s s' : Scope}

/-- Where nothing is defined yet, names are new if they are distinct. -/
theorem isFresh_of_empty (h : (k.defined acts).Nodup) (hs : k.view s = .empty) :
    k.IsFresh acts s where
  nodup := h
  new a _ := by simp [hs, Names.empty]

/-- Acts that define nothing are fresh. -/
theorem isFresh_of_nil (h : k.defined acts = []) : k.IsFresh acts s where
  nodup := by simp [h]
  new a ha := by simp [h] at ha

/-- What is fresh of some acts is fresh of those in front. -/
theorem IsFresh.left {bs : List Act} (h : k.IsFresh (acts ++ bs) s) : k.IsFresh acts s where
  nodup := (List.nodup_append.mp (k.defined_append acts bs ▸ h.nodup)).1
  new a ha := h.new a (by rw [defined_append]; exact List.mem_append_left _ ha)

/-- What is new stays new while other new names are defined. -/
theorem IsFresh.right {trace : List Occurrence} (h : k.IsFresh (trace.map (·.act) ++ acts) s)
    (ht : trace.foldlM Scope.step s = .ok s') (hr : ∀ o ∈ trace, k.effect o.act ≠ .reset) :
    k.IsFresh acts s' := by
  obtain ⟨nodup, new⟩ := h
  rw [defined_append] at nodup new
  obtain ⟨-, nodupRight, disjoint⟩ := List.nodup_append.mp nodup
  refine ⟨nodupRight, fun a ha hd => ?_⟩
  rw [(k.foldlM_step ht hr).1, List.mem_append, List.mem_reverse] at hd
  rcases hd with hd | hd
  · exact disjoint a hd a ha rfl
  · exact new a (List.mem_append_right _ ha) hd

/-- A step defines at most the name of its act, so the acts behind it stay fresh. -/
theorem IsFresh.step {o : Occurrence} (h : k.IsFresh (o.act :: acts) s) (hs : s.step o = .ok s')
    (hr : k.effect o.act ≠ .reset) : k.IsFresh acts s' := by
  have hrun : [o].foldlM Scope.step s = .ok s' := by
    rw [List.foldlM_cons, hs]
    rfl
  have hfresh : k.IsFresh ([o].map (·.act) ++ acts) s := h
  exact hfresh.right hrun (by simpa using hr)

end NameKind

/-- The acts define new names only, of any kind. -/
structure Scope.Permits (s : Scope) (acts : List Act) : Prop where
  symbols : symbolKind.IsFresh acts s
  metadata : metadataKind.IsFresh acts s
  values : valueKind.IsFresh acts s
  blocks : blockKind.IsFresh acts s

namespace Scope

variable {s s' : Scope} {o : Occurrence} {acts : List Act}

/-- A scope takes every step that it permits, unless this closes a body. -/
theorem exists_step (h : s.Permits (o.act :: acts)) (he : o.act ≠ .endBody) :
    ∃ s', s.step o = .ok s' := by
  obtain ⟨act, place⟩ := o
  cases act with
  | defineSymbol name =>
      have hn : name ∉ s.symbols.defined := h.symbols.new name List.mem_cons_self
      exact ⟨_, by rw [step, Names.define_of_notMem hn]; rfl⟩
  | defineMetadata id =>
      have hn : id ∉ s.metadata.defined := h.metadata.new id List.mem_cons_self
      exact ⟨_, by rw [step, Names.define_of_notMem hn]; rfl⟩
  | defineParameter name | defineValue name =>
      have hn : name ∉ s.values.defined := h.values.new name List.mem_cons_self
      exact ⟨_, by rw [step, Names.define_of_notMem hn]; rfl⟩
  | defineBlock label =>
      have hn : label ∉ s.blocks.defined := h.blocks.new label List.mem_cons_self
      exact ⟨_, by rw [step, Names.define_of_notMem hn]; rfl⟩
  | useSymbol | useMetadata | useValue | useBlock | beginFunction => exact ⟨_, rfl⟩
  | endBody => exact absurd rfl he

/-- Behind a step all other acts are permitted, unless a function begins there with names of its
own. -/
theorem Permits.step (h : s.Permits (o.act :: acts)) (hs : s.step o = .ok s')
    (hb : o.act ≠ .beginFunction) : s'.Permits acts where
  symbols := h.symbols.step hs (symbolEffect_ne_reset _)
  metadata := h.metadata.step hs (metadataEffect_ne_reset _)
  values := h.values.step hs fun e => hb (eq_beginFunction_of_valueEffect e)
  blocks := h.blocks.step hs fun e => hb (eq_beginFunction_of_blockEffect e)

end Scope

/-! ## Runs -/

/-- Acts inside of a function, or outside of any, pass the check if what they define is new. -/
theorem exists_run {trace : List Occurrence} {s : Scope} (h : s.Permits (trace.map (·.act)))
    (hb : ∀ o ∈ trace, o.act ≠ .beginFunction) (he : ∀ o ∈ trace, o.act ≠ .endBody) :
    ∃ s', trace.foldlM Scope.step s = .ok s' := by
  induction trace generalizing s with
  | nil => exact ⟨s, rfl⟩
  | cons o trace ih =>
      obtain ⟨hbo, hb⟩ := List.forall_mem_cons.mp hb
      obtain ⟨heo, he⟩ := List.forall_mem_cons.mp he
      obtain ⟨s₁, h₁⟩ := Scope.exists_step h heo
      obtain ⟨s', h'⟩ := ih (h.step h₁ hbo) hb he
      exact ⟨s', by rw [List.foldlM_cons, h₁]; exact h'⟩

end Assembly

open Assembly NameKind

section Functions

variable {f : Function} {trace : List Occurrence} {s : Scope}

/-- The acts inside of a function pass the check in a scope of its own, and resolve all it uses. -/
theorem Function.exists_run_inner (hf : f.WellFormed) (ht : trace.map (·.act) = f.innerActs)
    (hv : s.values = .empty) (hb : s.blocks = .empty) :
    ∃ s', trace.foldlM Scope.step s = .ok s' ∧
      (∀ v ∈ s'.values.used.map (·.1), v ∈ s'.values.defined) ∧
      ∀ l ∈ s'.blocks.used.map (·.1), l ∈ s'.blocks.defined := by
  have permits : s.Permits (trace.map (·.act)) := by
    rw [ht]
    exact
      { symbols := isFresh_of_nil f.symbols_innerActs.1
        metadata := isFresh_of_nil f.metadata_innerActs.1
        values := isFresh_of_empty (f.values_innerActs.1 ▸ hf.locals) hv
        blocks := isFresh_of_empty (f.blocks_innerActs.1 ▸ hf.labels) hb }
  have noBegin : ∀ o ∈ trace, o.act ≠ .beginFunction := fun o ho e =>
    f.scopeActs_notMem_innerActs.1 (ht ▸ e ▸ List.mem_map_of_mem ho)
  have noEnd : ∀ o ∈ trace, o.act ≠ .endBody := fun o ho e =>
    f.scopeActs_notMem_innerActs.2 (ht ▸ e ▸ List.mem_map_of_mem ho)
  obtain ⟨s', h'⟩ := Assembly.exists_run permits noBegin noEnd
  obtain ⟨-, hvd, hvu⟩ := valueKind.foldlM_step_of_empty h'
    (fun o ho e => noBegin o ho (eq_beginFunction_of_valueEffect e)) hv
  obtain ⟨-, hbd, hbu⟩ := blockKind.foldlM_step_of_empty h'
    (fun o ho e => noBegin o ho (eq_beginFunction_of_blockEffect e)) hb
  rw [ht, f.values_innerActs.1] at hvd
  rw [ht, f.values_innerActs.2] at hvu
  rw [ht, f.blocks_innerActs.1] at hbd
  rw [ht, f.blocks_innerActs.2] at hbu
  refine ⟨s', h', fun v hv => ?_, fun l hl => ?_⟩
  · obtain ⟨i, hi, hv⟩ := List.mem_flatMap.mp ((hvu v).mp hv)
    exact (hvd v).mpr (hf.values i hi v hv)
  · obtain ⟨i, hi, hl⟩ := List.mem_flatMap.mp ((hbu l).mp hl)
    exact (hbd l).mpr (hf.targets i hi l hl)

/-- The acts of a well-formed function take a scope that does not have its name through its body and
out of it again. -/
theorem Function.exists_run (hf : f.WellFormed) (ht : trace.map (·.act) = f.acts)
    (hn : f.name ∉ s.symbols.defined) : ∃ s', trace.foldlM Scope.step s = .ok s' := by
  rw [f.acts_eq] at ht
  obtain ⟨⟨_, p₁⟩, tail, rfl, rfl, htail⟩ := List.map_eq_cons_iff.mp ht
  obtain ⟨⟨_, p₂⟩, behind, rfl, rfl, hbehind⟩ := List.map_eq_cons_iff.mp htail
  obtain ⟨inner, last, rfl, hinner, hlast⟩ := List.map_eq_append_iff.mp hbehind
  let s₁ : Scope :=
    { s with
      symbols := { s.symbols with defined := f.name :: s.symbols.defined }
      values := .empty
      blocks := .empty }
  have hbegin : (⟨.defineSymbol f.name, p₁⟩ :: ⟨.beginFunction, p₂⟩ :: (inner ++ last)).foldlM
      Scope.step s = (inner ++ last).foldlM Scope.step s₁ := by
    rw [List.foldlM_cons, Scope.step, Names.define_of_notMem hn]
    rfl
  obtain ⟨s₂, h₂, hvalues, hblocks⟩ := Function.exists_run_inner (s := s₁) hf hinner rfl rfl
  refine ⟨s₂, ?_⟩
  rw [hbegin, List.foldlM_append, h₂]
  rw [Function.endActs] at hlast
  split at hlast
  case isTrue =>
      obtain ⟨⟨_, p₃⟩, _, rfl, rfl, hnil⟩ := List.map_eq_cons_iff.mp hlast
      obtain rfl := List.map_eq_nil_iff.mp hnil
      change [(⟨.endBody, p₃⟩ : Occurrence)].foldlM Scope.step s₂ = _
      rw [List.foldlM_cons, Scope.step, Names.resolve_of_defined hvalues,
        Names.resolve_of_defined hblocks]
      rfl
  case isFalse =>
      obtain rfl := List.map_eq_nil_iff.mp hlast
      rfl

end Functions

/-! ## Texts -/

section Texts

variable {e : Entity} {es : List Entity} {trace : List Occurrence} {s : Scope}

/-- The same of the acts of an entity, if its names are new. -/
theorem Entity.exists_run (hf : ∀ f, e = .function f → f.WellFormed)
    (ht : trace.map (·.act) = e.acts) (hsymbols : symbolKind.IsFresh e.acts s)
    (hmetadata : metadataKind.IsFresh e.acts s) : ∃ s', trace.foldlM Scope.step s = .ok s' := by
  have outside (hacts : ∀ a ∈ e.acts, a ≠ .beginFunction ∧ a ≠ .endBody)
      (hvalues : valueKind.defined e.acts = []) (hblocks : blockKind.defined e.acts = []) :
      ∃ s', trace.foldlM Scope.step s = .ok s' := by
    have hmem : ∀ o ∈ trace, o.act ∈ e.acts := fun o ho => ht ▸ List.mem_map_of_mem ho
    refine Assembly.exists_run ?_ (fun o ho => (hacts _ (hmem o ho)).1)
      (fun o ho => (hacts _ (hmem o ho)).2)
    rw [ht]
    exact ⟨hsymbols, hmetadata, isFresh_of_nil hvalues, isFresh_of_nil hblocks⟩
  cases e with
  | sourceName name => exact outside (by simp [acts]) rfl rfl
  | global g =>
      refine outside ?_ ?_ ?_
      · simp [acts, GlobalVariable.acts]
      · simp [acts, GlobalVariable.acts, defined, valueKind, valueEffect, Effect.defined?,
          List.filterMap_map]
      · simp [acts, GlobalVariable.acts, defined, blockKind, blockEffect, Effect.defined?,
          List.filterMap_map]
  | debugRecord r =>
      refine outside ?_ ?_ ?_
      · simp [acts, DebugRecord.acts]
      · simp [acts, DebugRecord.acts, defined, valueKind, valueEffect, Effect.defined?,
          List.filterMap_map]
      · simp [acts, DebugRecord.acts, defined, blockKind, blockEffect, Effect.defined?,
          List.filterMap_map]
  | function f =>
      refine Function.exists_run (hf f rfl) ht (hsymbols.new f.name ?_)
      rw [(Entity.symbols_acts _).1]
      exact List.mem_singleton_self _

/-- By induction on the entities: the names of those behind are still new. -/
theorem exists_run_of_entities (hf : ∀ f, .function f ∈ es → f.WellFormed)
    (ht : trace.map (·.act) = es.flatMap Entity.acts)
    (hsymbols : symbolKind.IsFresh (es.flatMap Entity.acts) s)
    (hmetadata : metadataKind.IsFresh (es.flatMap Entity.acts) s) :
    ∃ s', trace.foldlM Scope.step s = .ok s' := by
  induction es generalizing s trace with
  | nil =>
      obtain rfl := List.map_eq_nil_iff.mp ht
      exact ⟨s, rfl⟩
  | cons e es ih =>
      rw [List.flatMap_cons] at ht hsymbols hmetadata
      obtain ⟨first, rest, rfl, hfirst, hrest⟩ := List.map_eq_append_iff.mp ht
      obtain ⟨s₁, h₁⟩ := Entity.exists_run (fun f he => hf f (he ▸ List.mem_cons_self)) hfirst
        hsymbols.left hmetadata.left
      rw [← hfirst] at hsymbols hmetadata
      obtain ⟨s', h'⟩ := ih (fun f he => hf f (List.mem_cons_of_mem _ he)) hrest
        (hsymbols.right h₁ fun o _ => symbolEffect_ne_reset o.act)
        (hmetadata.right h₁ fun o _ => metadataEffect_ne_reset o.act)
      exact ⟨s', by rw [List.foldlM_append, h₁]; exact h'⟩

/-- The names of a well-formed module pass the check, in whatever order a text has its entities. -/
theorem exists_scope (hm : (Module.ofEntities es).WellFormed)
    (ht : trace.map (·.act) = es.flatMap Entity.acts) :
    ∃ scope, checkTrace trace = .ok scope ∧ scope.close = .ok () := by
  have hnames : symbolKind.defined (es.flatMap Entity.acts) = es.filterMap Entity.name? := by
    rw [defined_flatMap]
    simp only [Entity.symbols_acts, ← List.filterMap_eq_flatMap_toList]
  have hrecords : metadataKind.defined (es.flatMap Entity.acts) =
      (Module.ofEntities es).recordIds := by
    rw [defined_flatMap]
    simp only [Entity.metadata_acts, ← List.filterMap_eq_flatMap_toList, Entity.recordIds_eq]
  have hnodup : (es.filterMap Entity.name?).Nodup := (Entity.names_perm es).nodup_iff.mpr hm.names
  obtain ⟨scope, checked⟩ : ∃ scope, checkTrace trace = .ok scope :=
    exists_run_of_entities (fun f hf => hm.functions f (Entity.mem_functions.mpr hf)) ht
      (isFresh_of_empty (hnames ▸ hnodup) rfl) (isFresh_of_empty (hrecords ▸ hm.records) rfl)
  obtain ⟨-, sd, su⟩ := symbolKind.foldlM_step_of_empty checked
    (fun o _ => symbolEffect_ne_reset o.act) rfl
  obtain ⟨-, md, mu⟩ := metadataKind.foldlM_step_of_empty checked
    (fun o _ => metadataEffect_ne_reset o.act) rfl
  rw [ht, hnames] at sd
  rw [ht, hrecords] at md
  rw [ht, used_flatMap] at su mu
  simp only [Entity.symbols_acts] at su
  simp only [Entity.metadata_acts] at mu
  have hsymbols : ∀ n ∈ scope.symbols.used.map (·.1), n ∈ scope.symbols.defined := by
    intro n hn
    obtain ⟨e, he, hn⟩ := List.mem_flatMap.mp ((su n).mp hn)
    refine (sd n).mpr ((Entity.names_perm es).mem_iff.mpr ?_)
    cases e with
    | sourceName | debugRecord => cases hn
    | global g => exact hm.globalSymbols g (Entity.mem_globals.mpr he) n hn
    | function f => exact hm.functionSymbols f (Entity.mem_functions.mpr he) n hn
  have hmetadata : ∀ id ∈ scope.metadata.used.map (·.1), id ∈ scope.metadata.defined := by
    intro id hid
    obtain ⟨e, he, hid⟩ := List.mem_flatMap.mp ((mu id).mp hid)
    refine (md id).mpr ?_
    cases e with
    | sourceName | global => cases hid
    | debugRecord r =>
        exact hm.units r (Entity.mem_debugRecords.mpr he) id (Option.mem_toList.mp hid)
    | function f =>
        rcases List.mem_append.mp hid with hid | hid
        · exact hm.debug f (Entity.mem_functions.mpr he) id (Option.mem_toList.mp hid)
        · exact hm.metadata f (Entity.mem_functions.mpr he) id hid
  refine ⟨scope, checked, ?_⟩
  rw [Scope.close, Names.resolve_of_defined hsymbols, Names.resolve_of_defined hmetadata]
  rfl

/-- A text whose entities make up a well-formed module is read as this module. -/
theorem readChars_of_reads {text r : List Char} (h : Scan.Reads Scan.entities text es r)
    (hm : (Module.ofEntities es).WellFormed) : readChars text = .ok (Module.ofEntities es) := by
  obtain ⟨t, ht⟩ := h []
  obtain ⟨new, hnew, hacts, -⟩ := Scan.tells_entities _ _ _ ht
  have htrace : t.reverse.map (·.act) = es.flatMap Entity.acts := by
    rw [← hacts]
    exact hnew
  obtain ⟨scope, checked, closed⟩ := exists_scope hm htrace
  exact readChars_eq_ok_iff.mpr ⟨es, _, scope, ht, checked, closed, rfl⟩

end Texts

end DeviceCode
