import Mathlib.Order.Bounds.Defs
import DeviceCode.Proofs.Module.Lookup
import DeviceCode.Proofs.Reachability

/-!
# Call closures

The call closure of some roots is the least set of functions that holds the roots and, with each of
its functions, every function with a body that this one calls (`callClosure_isLeast`).  So it only
matters which roots there are, and the closures of several lists of roots can be put together.
-/

namespace DeviceCode

namespace Module

variable {m : Module} {name s : String} {roots : List String} {f : Function}

/-! ## Which function counts -/

/-- The last function of its name. -/
def IsLast (m : Module) (f : Function) : Prop :=
  ∃ before after, m.functions = before ++ f :: after ∧ ∀ g ∈ after, g.name ≠ f.name

theorem IsLast.mem (h : m.IsLast f) : f ∈ m.functions := by
  obtain ⟨before, after, hm, -⟩ := h
  rw [hm]
  exact List.mem_append_right _ List.mem_cons_self

/-- The last function of a name is the one that is looked up. -/
theorem isLast_iff : m.IsLast f ↔ m.lastFunction? f.name = some f := by
  rw [lastFunction?, List.find?_eq_some_iff_append]
  constructor
  · rintro ⟨before, after, hm, hafter⟩
    refine ⟨BEq.rfl, after.reverse, before.reverse, ?_, ?_⟩
    · rw [hm, List.reverse_append, List.reverse_cons, List.append_assoc, List.singleton_append]
    · intro g hg
      simpa using hafter g (List.mem_reverse.mp hg)
  · rintro ⟨-, after, before, hm, hafter⟩
    refine ⟨before.reverse, after.reverse, ?_, ?_⟩
    · rw [← List.reverse_reverse m.functions, hm, List.reverse_append, List.reverse_cons,
        List.append_assoc, List.singleton_append]
    · intro g hg
      simpa using hafter g (List.mem_reverse.mp hg)

theorem lastFunction?_eq_some_iff_isLast :
    m.lastFunction? name = some f ↔ m.IsLast f ∧ f.name = name := by
  constructor
  · intro h
    have hname : f.name = name := by simpa using List.find?_some h
    subst hname
    exact ⟨isLast_iff.mpr h, rfl⟩
  · rintro ⟨h, rfl⟩
    exact isLast_iff.mp h

/-- Where names are distinct, all functions count. -/
theorem isLast_iff_mem (h : m.names.Nodup) : m.IsLast f ↔ f ∈ m.functions := by
  rw [isLast_iff, lastFunction?_eq_some_iff h, and_iff_left rfl]

/-- A function calls another one with a body; of functions with one name the last counts, on both
sides. -/
theorem mem_definedCallees_iff_isLast :
    s ∈ m.definedCallees name ↔ ∃ f g, m.IsLast f ∧ f.name = name ∧ m.IsLast g ∧ g.name = s ∧
      g.body ≠ none ∧ s ∈ f.callees := by
  have hdefined : m.isDefined s ↔ ∃ g, m.IsLast g ∧ g.name = s ∧ g.body ≠ none := by
    rw [isDefined, Option.any_eq_true]
    simp only [lastFunction?_eq_some_iff_isLast, Function.isDeclaration, Option.not_isNone,
      Option.isSome_iff_ne_none, and_assoc]
  constructor
  · intro h
    unfold definedCallees at h
    split at h
    case h_1 f hf =>
      obtain ⟨hs, hd⟩ := List.mem_filter.mp h
      obtain ⟨hlast, he⟩ := lastFunction?_eq_some_iff_isLast.mp hf
      obtain ⟨g, hg, hgs, hb⟩ := hdefined.mp hd
      exact ⟨f, g, hlast, he, hg, hgs, hb, hs⟩
    case h_2 => cases h
  · rintro ⟨f, g, hlast, he, hg, hgs, hb, hs⟩
    rw [definedCallees, lastFunction?_eq_some_iff_isLast.mpr ⟨hlast, he⟩]
    exact List.mem_filter.mpr ⟨hs, hdefined.mpr ⟨g, hg, hgs, hb⟩⟩

/-- Where names are apart, any function of the name will do. -/
theorem mem_definedCallees (h : m.names.Nodup) :
    s ∈ m.definedCallees name ↔ ∃ f ∈ m.functions, f.name = name ∧ s ∈ f.callees ∧
      ∃ g ∈ m.functions, g.name = s ∧ g.body.isSome := by
  simp only [mem_definedCallees_iff_isLast, isLast_iff_mem h, Option.isSome_iff_ne_none]
  constructor
  · rintro ⟨f, g, hf, he, hg, hgs, hb, hs⟩
    exact ⟨f, hf, he, hs, g, hg, hgs, hb⟩
  · rintro ⟨f, hf, he, hs, g, hg, hgs, hb⟩
    exact ⟨f, g, hf, he, hg, hgs, hb, hs⟩

theorem definedCallees_eq_nil (h : name ∉ m.functions.map (·.name)) :
    m.definedCallees name = [] := by
  refine List.eq_nil_iff_forall_not_mem.mpr fun s hs => ?_
  obtain ⟨f, -, hf, rfl, -⟩ := mem_definedCallees_iff_isLast.mp hs
  exact h (List.mem_map_of_mem hf.mem)

/-! ## The closure -/

/-- A set of functions that holds the roots and, with each function, those with a body that it
calls.  Functions go by their names, and of several of one name the last counts. -/
structure IsCallClosed (m : Module) (roots : List String) (S : Set String) : Prop where
  roots : ∀ f ∈ m.functions, f.name ∈ roots → f.name ∈ S
  callees : ∀ f g, m.IsLast f → m.IsLast g → f.name ∈ S → g.body ≠ none → g.name ∈ f.callees →
    g.name ∈ S

/-- The closure is what the search for callees reaches among the functions. -/
theorem mem_callClosure_iff_reached :
    name ∈ m.callClosure roots ↔
      Reached m.definedCallees roots name ∧ name ∈ m.functions.map (·.name) :=
  mem_reach fun _ => definedCallees_eq_nil

theorem isCallClosed_callClosure (m : Module) (roots : List String) :
    m.IsCallClosed roots {name | name ∈ m.callClosure roots} where
  roots _ hf hr := mem_callClosure_iff_reached.mpr ⟨.start hr, List.mem_map_of_mem hf⟩
  callees f g hf hg hmem hb hc := by
    have hcallee : g.name ∈ m.definedCallees f.name :=
      mem_definedCallees_iff_isLast.mpr ⟨f, g, hf, rfl, hg, rfl, hb, hc⟩
    have hreached := (mem_callClosure_iff_reached.mp hmem).1
    exact mem_callClosure_iff_reached.mpr ⟨hreached.step hcallee, List.mem_map_of_mem hg.mem⟩

/-- A closed set holds all that is reached and is a function of the module: roots that are none lead
nowhere. -/
theorem IsCallClosed.mem_of_reached {S : Set String} (hS : m.IsCallClosed roots S)
    (h : Reached m.definedCallees roots name) (hname : name ∈ m.functions.map (·.name)) :
    name ∈ S := by
  induction h with
  | start hr =>
      obtain ⟨f, hf, rfl⟩ := List.mem_map.mp hname
      exact hS.roots f hf hr
  | step _ hc ih =>
      obtain ⟨f, g, hf, rfl, hg, rfl, hb, hc⟩ := mem_definedCallees_iff_isLast.mp hc
      exact hS.callees f g hf hg (ih (List.mem_map_of_mem hf.mem)) hb hc

/-- The closure of some roots is the least set of functions that holds the roots and what its
functions call.  Each function is met once, however the calls run in circles; it does not matter in
which order the roots are given and how often; the closure of roots together is that of either; and
a closure is closed. -/
theorem callClosure_isLeast (m : Module) (roots : List String) :
    IsLeast {S : Set String | m.IsCallClosed roots S} {name | name ∈ m.callClosure roots} ∧
      (m.callClosure roots).Nodup ∧ m.callClosure roots ⊆ m.functions.map (·.name) ∧
      (∀ others, (∀ name, name ∈ others ↔ name ∈ roots) →
        ∀ name, name ∈ m.callClosure others ↔ name ∈ m.callClosure roots) ∧
      (∀ others name, name ∈ m.callClosure (roots ++ others) ↔
        name ∈ m.callClosure roots ∨ name ∈ m.callClosure others) ∧
      ∀ name, name ∈ m.callClosure (m.callClosure roots) ↔ name ∈ m.callClosure roots := by
  refine ⟨⟨isCallClosed_callClosure m roots, ?_⟩, nodup_reach _ _, ?_, ?_, ?_, ?_⟩
  · intro S hS name hname
    obtain ⟨hr, hf⟩ := mem_callClosure_iff_reached.mp hname
    exact hS.mem_of_reached hr hf
  · exact fun name hname => (mem_callClosure_iff_reached.mp hname).2
  · intro others h name
    rw [mem_callClosure_iff_reached, mem_callClosure_iff_reached]
    refine and_congr_left fun _ => ⟨fun hr => ?_, fun hr => ?_⟩
    · exact hr.trans fun y hy => .start ((h y).mp hy)
    · exact hr.trans fun y hy => .start ((h y).mpr hy)
  · intro others name
    simp only [mem_callClosure_iff_reached, reached_append_iff, or_and_right]
  · intro name
    constructor
    · intro h
      obtain ⟨hr, hf⟩ := mem_callClosure_iff_reached.mp h
      refine mem_callClosure_iff_reached.mpr ⟨hr.trans fun y hy => ?_, hf⟩
      exact (mem_callClosure_iff_reached.mp hy).1
    · intro h
      refine mem_callClosure_iff_reached.mpr ⟨.start h, ?_⟩
      exact (mem_callClosure_iff_reached.mp h).2

/-- Functions that call each other and themselves, a declaration, and a definition behind which
comes another one of the same name. -/
def ringOfCalls : Module where
  sourceName := none
  globals := []
  functions := [
    .declaration "outside" .void [],
    { Function.declaration "f" .void [] with
      body := some [⟨"entry", [⟨none, .call .void (.direct "hidden") [], []⟩]⟩] },
    { Function.declaration "hidden" .void [] with body := some [] },
    { Function.declaration "f" .void [] with
      body := some [⟨"entry", [⟨none, .call .void (.direct "g") [], []⟩,
        ⟨none, .call .void (.direct "outside") [], []⟩]⟩] },
    { Function.declaration "g" .void [] with
      body := some [⟨"entry", [⟨none, .call .void (.direct "f") [], []⟩,
        ⟨none, .call .void (.direct "g") [], []⟩]⟩] }]
  debugRecords := []

/-- A declaration is in a closure as a root only, and the first of two definitions leads nowhere. -/
theorem ringOfCalls_closure :
    IsLeast {S : Set String | ringOfCalls.IsCallClosed ["f"] S} {name | name ∈ ["f", "g"]} ∧
      (∀ name, name ∈ ringOfCalls.callClosure ["f", "f"] ↔ name ∈ ["f", "g"]) ∧
      ∀ name, name ∈ ringOfCalls.callClosure (["f"] ++ ["outside", "none"]) ↔
        name ∈ ["f", "g"] ∨ name ∈ ["outside"] := by
  have hnames : ringOfCalls.functions.map (·.name) = ["outside", "f", "hidden", "f", "g"] := rfl
  have hf : ringOfCalls.definedCallees "f" = ["g"] := by decide +kernel
  have hg : ringOfCalls.definedCallees "g" = ["f", "g"] := by decide +kernel
  have houtside : ringOfCalls.definedCallees "outside" = [] := by decide +kernel
  have hclosure : ringOfCalls.callClosure ["f"] = ["f", "g"] := by
    simp [callClosure, hnames, reach, without, hf, hg]
  have hothers : ringOfCalls.callClosure ["outside", "none"] = ["outside"] := by
    simp [callClosure, hnames, reach, without, houtside]
  obtain ⟨hleast, -, -, hsame, happend, -⟩ := callClosure_isLeast ringOfCalls ["f"]
  rw [hclosure] at hleast hsame happend
  refine ⟨hleast, hsame ["f", "f"] (by simp), fun name => ?_⟩
  rw [happend, hothers]

end Module

end DeviceCode
