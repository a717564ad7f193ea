import Mathlib.Logic.Relation
import DeviceCode.Proofs.Cleanup.Fixpoint

/-!
# Chains of mentions

What other modules see is kept, and so is whatever it mentions, whatever that mentions, and so on;
all else is deleted (`removeDead_exact`).  This is told here by the chains alone that lead from one
name to the next, without the search along them.
-/

namespace DeviceCode

/-- What is reached is at the end of a chain from a start. -/
theorem reached_iff_reflTransGen {α : Type} {next : α → List α} {starts : List α} {x : α} :
    Reached next starts x ↔
      ∃ start ∈ starts, Relation.ReflTransGen (fun y z => z ∈ next y) start x := by
  constructor
  · intro h
    induction h with
    | start hs => exact ⟨_, hs, .refl⟩
    | step _ hn ih =>
        obtain ⟨start, hs, hchain⟩ := ih
        exact ⟨start, hs, hchain.tail hn⟩
  · rintro ⟨start, hs, hchain⟩
    induction hchain with
    | refl => exact .start hs
    | tail _ hn ih => exact .step ih hn

/-! ## Mentions -/

theorem Operand.symbol?_eq_some_iff {o : Operand} {name : String} :
    o.symbol? = some name ↔ o = .symbol name := by
  cases o <;> simp [symbol?]

theorem Initializer.symbol?_eq_some_iff {init : Initializer} {name : String} :
    init.symbol? = some name ↔ init = .symbol name := by
  cases init <;> simp [symbol?]

/-- A function mentions the callees of its calls, and the symbols among operands and attachments. -/
theorem Function.mem_symbols_iff {f : Function} {name : String} :
    name ∈ f.symbols ↔ ∃ i ∈ f.instructions, i.directCallee? = some name ∨
      .symbol name ∈ i.operands ∨ ∃ a ∈ i.attachments, a.value = .symbol name := by
  simp [symbols, Instruction.symbols, Operand.symbol?_eq_some_iff]

/-- A variable mentions the symbols among the leaves of its initializer. -/
theorem GlobalVariable.mem_symbols_iff {g : GlobalVariable} {name : String} :
    name ∈ g.symbols ↔ ∃ init, g.initializer = some init ∧ .symbol name ∈ init.leaves := by
  cases hi : g.initializer with
  | none => simp [symbols, hi]
  | some init =>
      simp [symbols, hi, Initializer.symbols_eq_leaves, Initializer.symbol?_eq_some_iff]

namespace Module

/-- The body or the initializer of what has the first name mentions the second name. -/
inductive Mentions (m : Module) : String → String → Prop
  | callee {f : Function} {i : Instruction} {name : String} : f ∈ m.functions →
      i ∈ f.instructions → i.directCallee? = some name → Mentions m f.name name
  | operand {f : Function} {i : Instruction} {name : String} : f ∈ m.functions →
      i ∈ f.instructions → .symbol name ∈ i.operands → Mentions m f.name name
  | attachment {f : Function} {i : Instruction} {a : Attachment} {name : String} :
      f ∈ m.functions → i ∈ f.instructions → a ∈ i.attachments → a.value = .symbol name →
        Mentions m f.name name
  | initializer {g : GlobalVariable} {init : Initializer} {name : String} : g ∈ m.globals →
      g.initializer = some init → .symbol name ∈ init.leaves → Mentions m g.name name

/-- A function with a body, or a global variable with an initializer, that other modules see. -/
inductive IsRoot (m : Module) : String → Prop
  | function {f : Function} : f ∈ m.functions → f.body.isSome →
      f.linkage = .external ∨ f.linkage = .weakODR → IsRoot m f.name
  | global {g : GlobalVariable} : g ∈ m.globals → g.initializer.isSome →
      g.linkage = .external ∨ g.linkage = .weakODR → IsRoot m g.name

/-- A chain of mentions leads to the name from a root. -/
def IsReachable (m : Module) (name : String) : Prop :=
  ∃ root, m.IsRoot root ∧ Relation.ReflTransGen m.Mentions root name

variable {m : Module} {name s : String}

/-- The roots are the names that other modules see. -/
theorem isRoot_iff : m.IsRoot name ↔ name ∈ m.visibleNames := by
  rw [mem_visibleNames]
  constructor
  · intro h
    cases h with
    | function hf hb hl => exact .inl ⟨_, hf, hb, hl, rfl⟩
    | global hg hi hl => exact .inr ⟨_, hg, hi, hl, rfl⟩
  · rintro (⟨f, hf, hb, hl, rfl⟩ | ⟨g, hg, hi, hl, rfl⟩)
    · exact .function hf hb hl
    · exact .global hg hi hl

/-- What a name mentions is what the function or the variable of this name mentions. -/
theorem mentions_iff_mem_symbols :
    m.Mentions name s ↔ (∃ f ∈ m.functions, f.name = name ∧ s ∈ f.symbols) ∨
      ∃ g ∈ m.globals, g.name = name ∧ s ∈ g.symbols := by
  simp only [Function.mem_symbols_iff, GlobalVariable.mem_symbols_iff]
  constructor
  · intro h
    cases h with
    | callee hf hi hs => exact .inl ⟨_, hf, rfl, _, hi, .inl hs⟩
    | operand hf hi hs => exact .inl ⟨_, hf, rfl, _, hi, .inr (.inl hs)⟩
    | attachment hf hi ha hs => exact .inl ⟨_, hf, rfl, _, hi, .inr (.inr ⟨_, ha, hs⟩)⟩
    | initializer hg hi hs => exact .inr ⟨_, hg, rfl, _, hi, hs⟩
  · rintro (⟨f, hf, rfl, i, hi, hs | hs | ⟨a, ha, hs⟩⟩ | ⟨g, hg, rfl, init, hi, hs⟩)
    · exact .callee hf hi hs
    · exact .operand hf hi hs
    · exact .attachment hf hi ha hs
    · exact .initializer hg hi hs

/-- Where names are distinct, the search follows the chains. -/
theorem isReachable_iff (h : m.names.Nodup) :
    m.IsReachable name ↔ Reached m.symbolsOf m.visibleNames name := by
  have hmentions : m.Mentions = fun y z => z ∈ m.symbolsOf y := by
    funext y z
    exact propext (mentions_iff_mem_symbols.trans (mem_symbolsOf h).symm)
  rw [reached_iff_reflTransGen, IsReachable, hmentions]
  simp only [isRoot_iff]

/-! ## What is kept -/

/-- A name is live if it is there and reachable. -/
theorem mem_liveNames_iff (h : m.names.Nodup) :
    name ∈ m.liveNames ↔ name ∈ m.names ∧ m.IsReachable name := by
  rw [mem_liveNames, isReachable_iff h, and_comm]

open scoped Classical in
/-- Where names are distinct, a name is kept if a chain of mentions leads to it from what other
modules see.  The functions and global variables that are kept stay as they are and in order, and so
does all else; and it is told whether anything was deleted. -/
theorem removeDead_exact (h : m.names.Nodup) :
    (∀ name, name ∈ m.removeDead.1.names ↔ name ∈ m.names ∧ m.IsReachable name) ∧
      m.removeDead.1 = { m with
        functions := m.functions.filter fun f => m.IsReachable f.name
        globals := m.globals.filter fun g => m.IsReachable g.name } ∧
      (m.removeDead.2 = true ↔ m.removeDead.1 ≠ m) := by
  have hkeep : ∀ s ∈ m.names, m.liveNames.contains s = decide (m.IsReachable s) := by
    intro s hs
    rw [Bool.eq_iff_iff, List.contains_iff_mem, decide_eq_true_iff, mem_liveNames_iff h]
    exact and_iff_right hs
  have hkept : m.removeDead.1 = m.keepNames fun s => decide (m.IsReachable s) :=
    keepNames_congr hkeep
  refine ⟨fun name => ?_, hkept, ?_⟩
  · rw [hkept, names_keepNames, List.mem_filter, decide_eq_true_iff]
  · rw [← not_iff_not, Bool.not_eq_true, not_ne_iff]
    exact removeDead_snd_eq_false_iff

end Module

/-- A declaration at the end of a chain through an attachment, a table in a table and two functions
is kept, and a variable that only mentions itself is deleted. -/
theorem CleanupPass.rings_reachable :
    rings.names.Nodup ∧ rings.IsReachable "used" ∧ ¬ rings.IsReachable "loop" ∧
      rings.removeDead.1.names = ["k", "f", "g", "used", "table"] ∧ rings.removeDead.1 ≠ rings := by
  have h : rings.names.Nodup := by decide
  have hnames : rings.removeDead.1.names = ["k", "f", "g", "used", "table"] := by cbv
  obtain ⟨hkept, -, htold⟩ := Module.removeDead_exact h
  refine ⟨h, ?_, fun hloop => ?_, hnames, htold.mp (by cbv)⟩
  · have hused : "used" ∈ rings.removeDead.1.names := by
      rw [hnames]
      decide
    exact ((hkept "used").mp hused).2
  · have hmem := (hkept "loop").mpr ⟨by decide, hloop⟩
    rw [hnames] at hmem
    exact absurd hmem (by decide)

end DeviceCode
