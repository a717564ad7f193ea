import DeviceCode.Module.Query

/-!
# Cleaning up

A definition that another module may use is live, and so is whatever a live definition mentions.
What is not live may go, and so may a function declaration that no body and no initializer mentions,
and a debug record that is neither mentioned nor the unit of a subprogram that is mentioned.
-/

namespace DeviceCode

/-! ## Reachable names

`reach next unseen starts` are the names of a finite universe that are reached from the starts along
`next` inside the universe, each once, in the order in which they are met.
-/

section Reach

variable {α : Type} [DecidableEq α]

/-- The members of a list that are not `x`. -/
def without (l : List α) (x : α) : List α := l.filter (· ≠ x)

theorem length_without_lt {x : α} {l : List α} (h : x ∈ l) : (without l x).length < l.length :=
  List.length_filter_lt_length_iff_exists.2 ⟨x, h, by simp⟩

/-- The search: `pending` has been met but not looked at, `unseen` has not been looked at yet. -/
def reach (next : α → List α) (unseen pending : List α) : List α :=
  match pending with
  | [] => []
  | x :: rest =>
    if _h : x ∈ unseen then x :: reach next (without unseen x) (next x ++ rest)
    else reach next unseen rest
termination_by (unseen.length, pending.length)
decreasing_by
  · exact Prod.Lex.left _ _ (length_without_lt _h)
  · exact Prod.Lex.right _ (Nat.lt_succ_self _)

end Reach

namespace Module

/-! ## Live functions and global variables -/

/-- The symbols that the definition of a name mentions: of the first function of that name, or else
of the first global variable. -/
def symbolsOf (m : Module) (name : String) : List String :=
  match m.function? name with
  | some f => f.symbols
  | none =>
    match m.global? name with
    | some g => g.symbols
    | none => []

/-- The definitions that are live for their linkage. -/
def visibleNames (m : Module) : List String :=
  (m.functions.filter fun f => !f.isDeclaration && !f.linkage.isDiscardable).map (·.name) ++
    (m.globals.filter fun g => !g.isDeclaration && !g.linkage.isDiscardable).map (·.name)

/-- The names of the module that are live. -/
def liveNames (m : Module) : List String := reach m.symbolsOf m.names m.visibleNames

/-- Keeps the functions and global variables with these names. -/
def keepNames (m : Module) (keep : String → Bool) : Module :=
  { m with
    functions := m.functions.filter (keep ·.name)
    globals := m.globals.filter (keep ·.name) }

/-- Deletes what is not live, and tells whether anything was. -/
def removeDead (m : Module) : Module × Bool :=
  let live := m.liveNames
  (m.keepNames (live.contains ·), m.names.any fun name => !live.contains name)

/-! ## Unused declarations -/

/-- The names, among those that satisfy `p`, of declarations that nothing mentions. -/
def unusedPrototypes (m : Module) (p : String → Bool) : List String :=
  (m.functions.filter fun f => f.isDeclaration && p f.name && !m.isReferenced f.name).map (·.name)

/-- Deletes the functions with the names of unused declarations. -/
def dropPrototypes (m : Module) (p : String → Bool) : Module :=
  let unused := m.unusedPrototypes p
  { m with functions := m.functions.filter fun f => !unused.contains f.name }

/-- Deletes unused declarations, and tells whether there were any. -/
def removeUnusedPrototypes (m : Module) : Module × Bool :=
  (m.dropPrototypes fun _ => true, !(m.unusedPrototypes fun _ => true).isEmpty)

end Module

/-! ## Live debug records -/

def DebugEntry.unit? : DebugEntry → Option UInt32
  | .compileUnit _ => none
  | .subprogram _ unit => some unit

namespace Module

/-- The records mentioned by functions and instructions. -/
def mentionedRecords (m : Module) : List UInt32 :=
  m.functions.filterMap (·.debug) ++ m.functions.flatMap Function.metadata

def liveRecords (m : Module) : List UInt32 :=
  let mentioned := m.mentionedRecords
  mentioned ++ (m.debugRecords.filter (mentioned.contains ·.id)).filterMap (·.entry.unit?)

/-- Deletes the records that are not live, and tells whether there were any. -/
def removeDeadRecords (m : Module) : Module × Bool :=
  let live := m.liveRecords
  let kept := m.debugRecords.filter (live.contains ·.id)
  ({ m with debugRecords := kept }, decide (kept.length < m.debugRecords.length))

end Module

end DeviceCode
