import DeviceCode.Proofs.Basic
import DeviceCode.Proofs.Assembly.Entities

/-!
# What a checked trace says

A scope looks at names of four kinds, and treats them alike: an act defines a name of a kind, uses
one, forgets all of them or does nothing to that kind (`Effect`).  `NameKind` says what the acts are
for a kind, with a proof that a step of the scope does just that.  From it, one induction over a
trace (`NameKind.foldlM_step`) tells which names a checked trace has defined and used.
-/

namespace DeviceCode.Assembly

variable {α : Type}

/-! ## Steps -/

/-- A name is defined only if it was not there, and then it is. -/
theorem Names.define_eq_ok [DecidableEq α] {n n' : Names α} {a : α} {f : Fault}
    (h : n.define a f = .ok n') :
    a ∉ n.defined ∧ n'.defined = a :: n.defined ∧ n'.used = n.used := by
  unfold Names.define at h
  split at h
  · cases h
  · cases h
    exact ⟨‹_›, rfl, rfl⟩

/-- Names are resolved if all that were used have been defined. -/
theorem Names.resolve_eq_ok [DecidableEq α] {n : Names α} {cause : α → Cause}
    (h : n.resolve cause = .ok ()) : ∀ a ∈ n.used.map (·.1), a ∈ n.defined := by
  unfold Names.resolve at h
  split at h
  · cases h
  · rename_i e
    intro a ha
    obtain ⟨u, hu, rfl⟩ := List.mem_map.mp ha
    simpa using List.find?_eq_none.mp e u (List.mem_reverse.mpr hu)

/-- What an act means for the names of a kind. -/
inductive Effect (α : Type) where
  | keep
  | define (name : α)
  | use (name : α)
  | reset

namespace Effect

/-- The name that an effect adds to the names that are there. -/
def defined? : Effect α → Option α
  | define a => some a
  | _ => none

/-- The name that an effect adds to those that have to be there. -/
def used? : Effect α → Option α
  | use a => some a
  | _ => none

end Effect

/-- The names `n'` are the names `n` after an effect. -/
def Names.After (n : Names α) (e : Effect α) (n' : Names α) : Prop :=
  match e with
  | .keep => n' = n
  | .define a => a ∉ n.defined ∧ n'.defined = a :: n.defined ∧ n'.used = n.used
  | .use a => n'.defined = n.defined ∧ n'.used.map (·.1) = a :: n.used.map (·.1)
  | .reset => n' = .empty

def symbolEffect : Act → Effect String
  | .defineSymbol name => .define name
  | .useSymbol name => .use name
  | _ => .keep

def metadataEffect : Act → Effect UInt32
  | .defineMetadata id => .define id
  | .useMetadata id => .use id
  | _ => .keep

/-- Values belong to a function, so they begin anew with each. -/
def valueEffect : Act → Effect String
  | .beginFunction => .reset
  | .defineParameter name | .defineValue name => .define name
  | .useValue name => .use name
  | _ => .keep

def blockEffect : Act → Effect String
  | .beginFunction => .reset
  | .defineBlock label => .define label
  | .useBlock label => .use label
  | _ => .keep

theorem symbolEffect_ne_reset (a : Act) : symbolEffect a ≠ .reset := by
  cases a <;> nofun

theorem metadataEffect_ne_reset (a : Act) : metadataEffect a ≠ .reset := by
  cases a <;> nofun

/-- Only where a function begins are values forgotten. -/
theorem eq_beginFunction_of_valueEffect {a : Act} (h : valueEffect a = .reset) :
    a = .beginFunction := by
  cases a <;> first | rfl | cases h

theorem eq_beginFunction_of_blockEffect {a : Act} (h : blockEffect a = .reset) :
    a = .beginFunction := by
  cases a <;> first | rfl | cases h

/-- A step has the effect of its act on each kind of names. -/
theorem step_after {s s' : Scope} {o : Occurrence} (h : s.step o = .ok s') :
    s.symbols.After (symbolEffect o.act) s'.symbols ∧
      s.metadata.After (metadataEffect o.act) s'.metadata ∧
      s.values.After (valueEffect o.act) s'.values ∧
      s.blocks.After (blockEffect o.act) s'.blocks := by
  obtain ⟨act, place⟩ := o
  cases act with
  | defineSymbol | defineMetadata | defineParameter | defineValue | defineBlock =>
      obtain ⟨n, hn, h⟩ := Except.bind_eq_ok.mp h
      cases h
      simpa [Names.After, symbolEffect, metadataEffect, valueEffect, blockEffect] using
        Names.define_eq_ok hn
  | useSymbol | useMetadata | useValue | useBlock =>
      cases h
      simp [Names.After, Names.use, symbolEffect, metadataEffect, valueEffect, blockEffect]
  | beginFunction =>
      cases h
      exact ⟨rfl, rfl, rfl, rfl⟩
  | endBody =>
      obtain ⟨_, _, h⟩ := Except.bind_eq_ok.mp h
      obtain ⟨_, _, h⟩ := Except.bind_eq_ok.mp h
      cases h
      exact ⟨rfl, rfl, rfl, rfl⟩

/-- The end of a body is passed if the values and blocks used in it are defined. -/
theorem step_endBody {s s' : Scope} {p : Place} (h : s.step ⟨.endBody, p⟩ = .ok s') :
    (∀ v ∈ s.values.used.map (·.1), v ∈ s.values.defined) ∧
      ∀ l ∈ s.blocks.used.map (·.1), l ∈ s.blocks.defined := by
  obtain ⟨_, hv, h⟩ := Except.bind_eq_ok.mp h
  obtain ⟨_, hb, h⟩ := Except.bind_eq_ok.mp h
  exact ⟨Names.resolve_eq_ok hv, Names.resolve_eq_ok hb⟩

/-! ## Runs -/

/-- A kind of names: where a scope keeps them, and what acts mean for them. -/
structure NameKind (α : Type) where
  view : Scope → Names α
  effect : Act → Effect α
  after : ∀ {s s' o}, Scope.step s o = .ok s' → (view s).After (effect o.act) (view s')

/-- Symbols as a kind of names. -/
def symbolKind : NameKind String := ⟨Scope.symbols, symbolEffect, fun h => (step_after h).1⟩

def metadataKind : NameKind UInt32 :=
  ⟨Scope.metadata, metadataEffect, fun h => (step_after h).2.1⟩

def valueKind : NameKind String := ⟨Scope.values, valueEffect, fun h => (step_after h).2.2.1⟩

def blockKind : NameKind String := ⟨Scope.blocks, blockEffect, fun h => (step_after h).2.2.2⟩

namespace NameKind

/-- The names of a kind that some acts define, in order. -/
def defined (k : NameKind α) (acts : List Act) : List α :=
  acts.filterMap fun a => (k.effect a).defined?

/-- The names of a kind that some acts use, in order. -/
def used (k : NameKind α) (acts : List Act) : List α :=
  acts.filterMap fun a => (k.effect a).used?

@[simp] theorem defined_nil (k : NameKind α) : k.defined [] = [] := rfl

@[simp] theorem used_nil (k : NameKind α) : k.used [] = [] := rfl

/-- The first act adds its name in front. -/
@[simp] theorem defined_cons (k : NameKind α) (a : Act) (as : List Act) :
    k.defined (a :: as) = (k.effect a).defined?.toList ++ k.defined as := by
  rw [defined, List.filterMap_cons]
  cases (k.effect a).defined? <;> rfl

@[simp] theorem used_cons (k : NameKind α) (a : Act) (as : List Act) :
    k.used (a :: as) = (k.effect a).used?.toList ++ k.used as := by
  rw [used, List.filterMap_cons]
  cases (k.effect a).used? <;> rfl

@[simp] theorem defined_append (k : NameKind α) (as bs : List Act) :
    k.defined (as ++ bs) = k.defined as ++ k.defined bs := List.filterMap_append

@[simp] theorem used_append (k : NameKind α) (as bs : List Act) :
    k.used (as ++ bs) = k.used as ++ k.used bs := List.filterMap_append

/-- The names that the acts of some things define are those that the acts of each define. -/
theorem defined_flatMap {β : Type} (k : NameKind α) (acts : β → List Act) (bs : List β) :
    k.defined (bs.flatMap acts) = bs.flatMap fun b => k.defined (acts b) := by
  simp [defined, List.filterMap_flatMap]

theorem used_flatMap {β : Type} (k : NameKind α) (acts : β → List Act) (bs : List β) :
    k.used (bs.flatMap acts) = bs.flatMap fun b => k.used (acts b) := by
  simp [used, List.filterMap_flatMap]

/-- Names after a trace that forgets none of them. -/
theorem foldlM_step (k : NameKind α) {trace : List Occurrence} {s s' : Scope}
    (h : trace.foldlM Scope.step s = .ok s') (hr : ∀ o ∈ trace, k.effect o.act ≠ .reset) :
    (k.view s').defined = (k.defined (trace.map (·.act))).reverse ++ (k.view s).defined ∧
      (k.view s').used.map (·.1) =
        (k.used (trace.map (·.act))).reverse ++ (k.view s).used.map (·.1) ∧
      ((k.view s).defined.Nodup → (k.view s').defined.Nodup) := by
  induction trace generalizing s with
  | nil =>
      cases h
      exact ⟨rfl, rfl, id⟩
  | cons o trace ih =>
      rw [List.foldlM_cons] at h
      obtain ⟨s₁, h₁, h₂⟩ := Except.bind_eq_ok.mp h
      obtain ⟨hd, hu, hn⟩ := ih h₂ fun o' ho => hr o' (List.mem_cons_of_mem _ ho)
      have ha := k.after h₁
      have hne := hr o List.mem_cons_self
      cases he : k.effect o.act with
      | keep =>
          rw [he] at ha
          rw [show k.view s₁ = k.view s from ha] at hd hu hn
          exact ⟨by simp [hd, he, Effect.defined?],
            by simp [hu, he, Effect.used?], hn⟩
      | define a =>
          rw [he] at ha
          obtain ⟨hnew, hdef, huse⟩ := ha
          refine ⟨by simp [hd, hdef, he, Effect.defined?],
            by simp [hu, huse, he, Effect.used?], fun hs => hn ?_⟩
          rw [hdef]
          exact List.nodup_cons.mpr ⟨hnew, hs⟩
      | use a =>
          rw [he] at ha
          obtain ⟨hdef, huse⟩ := ha
          refine ⟨by simp [hd, hdef, he, Effect.defined?],
            by simp [hu, huse, he, Effect.used?], fun hs => hn ?_⟩
          rw [hdef]
          exact hs
      | reset => exact absurd he hne

/-- The names of a kind after a trace that begins without any and forgets none. -/
theorem foldlM_step_of_empty (k : NameKind α) {trace : List Occurrence} {s s' : Scope}
    (h : trace.foldlM Scope.step s = .ok s') (hr : ∀ o ∈ trace, k.effect o.act ≠ .reset)
    (hs : k.view s = .empty) :
    (k.defined (trace.map (·.act))).Nodup ∧
      (∀ a, a ∈ (k.view s').defined ↔ a ∈ k.defined (trace.map (·.act))) ∧
      ∀ a, a ∈ (k.view s').used.map (·.1) ↔ a ∈ k.used (trace.map (·.act)) := by
  obtain ⟨hd, hu, hn⟩ := k.foldlM_step h hr
  rw [hs] at hd hu hn
  refine ⟨?_, fun a => by rw [hd]; simp [Names.empty], fun a => by rw [hu]; simp [Names.empty]⟩
  have := hn List.nodup_nil
  rw [hd] at this
  exact List.nodup_reverse.mp (by simpa [Names.empty] using this)

end NameKind

end DeviceCode.Assembly
