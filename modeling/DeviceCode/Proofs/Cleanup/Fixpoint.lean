import Mathlib
import DeviceCode.Proofs.Cleanup.Trimming

/-!
# A cleanup leaves nothing to clean up

Each of the three passes tells whether it changed the module (`CleanupPass.run_snd_eq_false_iff`).
After one round of them, none has anything left to do, whichever comes next and however often
(`runAll_settled`): definitions that are live keep each other live, the records that are live do not
hang on those that are not, and a declaration that is left is mentioned by what is left.
-/

namespace DeviceCode

/-- The three passes of a cleanup. -/
inductive CleanupPass where
  | definitions
  | records
  | prototypes
deriving DecidableEq, Repr

namespace CleanupPass

/-- The module that a pass leaves, and whether the pass changed it. -/
def run : CleanupPass → Module → Module × Bool
  | definitions => Module.removeDead
  | records => Module.removeDeadRecords
  | prototypes => Module.removeUnusedPrototypes

/-- The module that some passes leave one after another, and which of them changed it. -/
def runAll : List CleanupPass → Module → Module × List Bool
  | [], m => (m, [])
  | pass :: passes, m =>
    let first := pass.run m
    let others := runAll passes first.1
    (others.1, first.2 :: others.2)

/-- The passes in the order of a cleanup. -/
def round : List CleanupPass := [definitions, records, prototypes]

end CleanupPass

namespace Module

variable {m : Module}

/-! ## What passes tell -/

theorem keepNames_eq_self_iff {keep : String → Bool} :
    m.keepNames keep = m ↔ ∀ s ∈ m.names, keep s := by
  constructor
  · intro h s hs
    rw [← h, names_keepNames] at hs
    exact (List.mem_filter.mp hs).2
  · intro h
    calc m.keepNames keep
      _ = m.keepNames fun _ => true := keepNames_congr h
      _ = m := by simp [keepNames]

/-- The pass for definitions reports no change exactly if it leaves the module as it is. -/
theorem removeDead_snd_eq_false_iff : m.removeDead.2 = false ↔ m.removeDead.1 = m := by
  change (m.names.any fun s => !m.liveNames.contains s) = false ↔ m.keepNames _ = m
  rw [keepNames_eq_self_iff]
  simp

/-- So does the pass for records. -/
theorem removeDeadRecords_snd_eq_false_iff :
    m.removeDeadRecords.2 = false ↔ m.removeDeadRecords.1 = m := by
  have hlength := List.length_filter_le (m.liveRecords.contains ·.id) m.debugRecords
  have hself : m.removeDeadRecords.1 = m ↔
      m.debugRecords.filter (m.liveRecords.contains ·.id) = m.debugRecords :=
    ⟨congrArg debugRecords, fun h => by rw [removeDeadRecords, h]⟩
  rw [hself, List.filter_eq_self, ← List.length_filter_eq_length_iff, removeDeadRecords,
    decide_eq_false_iff_not]
  omega

/-- And so does the pass for prototypes, which reports whether there were any to delete. -/
theorem removeUnusedPrototypes_snd_eq_false_iff :
    m.removeUnusedPrototypes.2 = false ↔ m.removeUnusedPrototypes.1 = m := by
  change (!(m.unusedPrototypes fun _ => true).isEmpty) = false ↔ m.dropPrototypes _ = m
  rw [Bool.not_eq_false', List.isEmpty_iff]
  constructor
  · exact dropPrototypes_eq_self
  · intro h
    -- a function of an unused name would not be left
    refine List.eq_nil_iff_forall_not_mem.mpr fun name hname => ?_
    obtain ⟨f, hf, -, -, -, rfl⟩ := mem_unusedPrototypes.mp hname
    rw [← h] at hf
    simpa [hname] using (List.mem_filter.mp hf).2

end Module

namespace CleanupPass

variable {m : Module}

/-- A pass tells that it changed nothing exactly if it leaves the module as it is. -/
theorem run_snd_eq_false_iff (pass : CleanupPass) (m : Module) :
    (pass.run m).2 = false ↔ (pass.run m).1 = m := by
  cases pass with
  | definitions => exact Module.removeDead_snd_eq_false_iff
  | records => exact Module.removeDeadRecords_snd_eq_false_iff
  | prototypes => exact Module.removeUnusedPrototypes_snd_eq_false_iff

/-- A pass that leaves a module as it is says so. -/
theorem run_eq_of_fst_eq {pass : CleanupPass} (h : (pass.run m).1 = m) :
    pass.run m = (m, false) :=
  Prod.ext h ((run_snd_eq_false_iff pass m).mpr h)

/-! ## Fixpoints -/

/-- No pass changes the module. -/
def Settled (m : Module) : Prop := ∀ pass : CleanupPass, (pass.run m).1 = m

/-- What no pass changes, no sequence of passes changes. -/
theorem runAll_eq_of_settled (h : Settled m) (passes : List CleanupPass) :
    runAll passes m = (m, passes.map fun _ => false) := by
  induction passes with
  | nil => rfl
  | cons pass passes ih =>
      rw [runAll, run_eq_of_fst_eq (h pass)]
      dsimp only
      rw [ih, List.map_cons]

theorem runAll_round (m : Module) : (runAll round m).1 = m.clean := rfl

/-- After a cleanup each pass finds the module as it leaves it. -/
theorem settled_clean (h : m.names.Nodup) : Settled m.clean := by
  have hclean := Module.clean_eq h
  have hlive : ∀ s ∈ m.liveNames, m.liveNames.contains s :=
    fun s hs => List.contains_iff_mem.mpr hs
  have hrecords : ∀ id ∈ m.removeDead.1.liveRecords, m.removeDead.1.liveRecords.contains id :=
    fun id hid => List.contains_iff_mem.mpr hid
  intro pass
  cases pass with
  | definitions =>
      -- deleting records changes neither what is live nor what is mentioned
      have hdead : m.removeDead.1.removeDeadRecords.1.removeDead.1 =
          { m.removeDead.1.removeDead.1 with
            debugRecords := m.removeDead.1.removeDeadRecords.1.debugRecords } := rfl
      have hself : m.removeDead.1.removeDead.1 = m.removeDead.1 :=
        Module.removeDead_keepNames h hlive
      rw [hclean]
      exact hdead.trans (by rw [hself]; rfl)
  | records =>
      rw [hclean]
      exact Module.removeDeadRecords_filter hrecords
  | prototypes =>
      have hu : m.removeDead.1.removeDeadRecords.1.unusedPrototypes (fun _ => true) = [] :=
        Module.unusedPrototypes_removeDead h fun _ => true
      rw [hclean]
      exact Module.dropPrototypes_eq_self hu

/-- After one round no pass changes the module any more, in whatever order and however often they
run, and each tells so.  Declarations without a use are gone with the dead definitions already. -/
theorem runAll_settled (h : m.names.Nodup) (passes : List CleanupPass) :
    runAll passes (runAll round m).1 = ((runAll round m).1, passes.map fun _ => false) ∧
      (run prototypes (run definitions m).1).2 = false := by
  constructor
  · rw [runAll_round]
    exact runAll_eq_of_settled (settled_clean h) passes
  · rw [run_snd_eq_false_iff]
    exact Module.dropPrototypes_eq_self (Module.unusedPrototypes_removeDead h fun _ => true)

/-- A live ring of functions behind a table that holds itself and is only attached to something, and
a dead ring that alone mentions a declaration, a variable that holds itself, and records. -/
def rings : Module where
  sourceName := none
  globals := [
    ⟨"table", .internal, true, some (.array [.symbol "f", .array [.symbol "table"]])⟩,
    ⟨"loop", .internal, false, some (.array [.symbol "loop"])⟩]
  functions := [
    { Function.declaration "k" .void [] with
      convention := .kernel
      debug := some 1
      body := some [⟨"e", [⟨none, .operation "ret" [], [⟨"note", .symbol "table"⟩]⟩]⟩] },
    { Function.declaration "f" .void [] with
      linkage := .internal
      body := some [⟨"e", [⟨none, .call .void (.direct "g") [], []⟩]⟩] },
    { Function.declaration "g" .void [] with
      linkage := .linkOnceODR
      body := some [⟨"e", [⟨none, .call .void (.direct "f") [.symbol "used"], []⟩]⟩] },
    { Function.declaration "p" .void [] with
      linkage := .internal
      debug := some 3
      body := some [⟨"e", [⟨none, .call .void (.direct "q") [.symbol "unused"], []⟩]⟩] },
    { Function.declaration "q" .void [] with
      linkage := .internal
      body := some [⟨"e", [⟨none, .call .void (.direct "p") [.symbol "loop"], []⟩]⟩] },
    Function.declaration "used" .void [],
    Function.declaration "unused" .void []]
  debugRecords := [⟨0, .compileUnit "k"⟩, ⟨1, .subprogram "k" 0⟩, ⟨2, .compileUnit "p"⟩,
    ⟨3, .subprogram "p" 2⟩]

/-- Two definitions that mention each other, and a record with a unit, are settled after one
round. -/
theorem rings_settled :
    rings.names.Nodup ∧
      (runAll round rings).2 = [true, true, false] ∧
      (runAll round rings).1.names = ["k", "f", "g", "used", "table"] ∧
      (runAll round rings).1.recordIds = [0, 1] ∧
      runAll [prototypes, definitions, records, definitions] (runAll round rings).1 =
        ((runAll round rings).1, [false, false, false, false]) ∧
      (run prototypes (run definitions rings).1).2 = false := by
  have h : rings.names.Nodup := by decide
  obtain ⟨hsettled, hunused⟩ := runAll_settled h [prototypes, definitions, records, definitions]
  exact ⟨h, by cbv, by cbv, by cbv, hsettled, hunused⟩

end CleanupPass

end DeviceCode
