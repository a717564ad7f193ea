import DeviceCode.Proofs.SpecConstant.Numbering

/-!
# A lowering looks at one instruction after the other

A lowering goes through functions and blocks, but what it counts over all of them, and whether and
why it fails, depends on the instructions alone and on the names of their functions.  `visit` is
what one instruction does to these counts; a lowering reports what visiting all instructions in
order leads to (`lowerSpecConstants_snd`).
-/

namespace DeviceCode

namespace SpecConstant

/-! ## Sweeps that may fail -/

/-- What a sweep reports, as far as `view` shows it, if that is a step of its own for each
update. -/
theorem map_sweep {σ τ ε α : Type} {update : σ → α → α × Except ε σ} {view : σ → τ}
    {step : τ → α → Except ε τ} (h : ∀ s a, (update s a).2.map view = step (view s) a) (s : σ)
    (as : List α) : (sweep update s as).2.map view = as.foldlM step (view s) := by
  induction as generalizing s with
  | nil => rfl
  | cons a as ih =>
      rw [List.foldlM_cons, ← h]
      rcases hu : update s a with ⟨a', e | s'⟩
      · simp only [sweep, hu]
        rfl
      · simp only [sweep, hu]
        exact ih s'

/-! ## Counts -/

/-- What a lowering counts over all functions: the numbers given, the types of lowered calls, and
whether any symbolic call was met. -/
structure Tally where
  numbering : Numbering
  types : List ValueType
  changed : Bool

/-- What is counted of the progress. -/
def Progress.tally (p : Progress) : Tally := ⟨p.numbering, p.types, p.changed⟩

/-- Types with one more, unless it is among them. -/
def noted (types : List ValueType) (type : ValueType) : List ValueType :=
  if type ∈ types then types else types ++ [type]

/-- What an instruction of the function of that name does to the counts. -/
def visit (mode : Mode) (t : Tally) (entry : String × Instruction) : Except Failure Tally :=
  match symbolicCall? entry.2 with
  | .error reason => .error (.malformedCall entry.1 reason)
  | .ok none => .ok t
  | .ok (some c) =>
    match mode with
    | .default => .ok { t with changed := true }
    | .runtime =>
      match t.numbering.give? c.id with
      | none => .error .idsExhausted
      | some n => .ok ⟨n, noted t.types c.type, true⟩

variable {mode : Mode} {name : String}

/-- Zeros are not counted. -/
@[simp] theorem noteZero_tally (p : Progress) (result : Option String) (zero : Operand) :
    (p.noteZero result zero).tally = p.tally := by
  cases result with
  | none => rfl
  | some => rfl

/-- A type is counted once. -/
@[simp] theorem noteType_tally (p : Progress) (type : ValueType) :
    (p.noteType type).tally = ⟨p.numbering, noted p.types type, p.changed⟩ := by
  unfold Progress.noteType noted
  split
  · rfl
  · rfl

theorem map_lowerInstruction (p : Progress) (i : Instruction) :
    (lowerInstruction mode name p i).map (·.2.tally) = visit mode p.tally (name, i) := by
  unfold lowerInstruction visit
  dsimp only
  cases symbolicCall? i with
  | error reason => rfl
  | ok c =>
      cases c with
      | none => rfl
      | some c =>
          cases mode with
          | default => exact congrArg Except.ok (noteZero_tally _ _ _)
          | runtime =>
              have hp : Progress.numbering { p with changed := true } = p.tally.numbering := rfl
              dsimp only
              rw [idFor_eq, hp]
              cases p.tally.numbering.give? c.id with
              | none => rfl
              | some n => exact congrArg Except.ok (noteType_tally _ _)

theorem map_lowerInstructions (p : Progress) (is : List Instruction) :
    (lowerInstructions mode name p is).map (·.2.tally) =
      (is.map (name, ·)).foldlM (visit mode) p.tally := by
  induction is generalizing p with
  | nil => rfl
  | cons i is ih =>
      rw [lowerInstructions, List.map_cons, List.foldlM_cons, ← map_lowerInstruction]
      cases lowerInstruction mode name p i with
      | error e => rfl
      | ok r =>
          refine Eq.trans ?_ (ih r.2)
          change Except.map _ (lowerInstructions mode name r.2 is >>= _) = _
          cases lowerInstructions mode name r.2 is with
          | error e => rfl
          | ok r' => rfl

theorem map_lowerBlock (p : Progress) (b : Block) :
    (lowerBlock mode name p b).2.map Progress.tally =
      (b.instructions.map (name, ·)).foldlM (visit mode) p.tally := by
  rw [← map_lowerInstructions, lowerBlock]
  cases lowerInstructions mode name p b.instructions with
  | error e => rfl
  | ok r => rfl

theorem map_lowerFunction (p : Progress) (f : Function) :
    (lowerFunction mode p f).2.map Progress.tally =
      (f.instructions.map (f.name, ·)).foldlM (visit mode) p.tally := by
  cases hb : f.body with
  | none =>
      rw [Function.instructions_of_none hb]
      simp only [lowerFunction, hb]
      rfl
  | some blocks =>
      have hs : (sweep (lowerBlock mode f.name) { p with zeros := [] } blocks).2.map
            Progress.tally =
          blocks.foldlM (fun t b => (b.instructions.map (f.name, ·)).foldlM (visit mode) t)
            p.tally :=
        map_sweep map_lowerBlock { p with zeros := [] } blocks
      rw [Function.instructions_of_some hb, List.map_flatMap, foldlM_flatMap, ← hs]
      simp only [lowerFunction, hb]
      rcases sweep (lowerBlock mode f.name) { p with zeros := [] } blocks with ⟨blocks', e | p'⟩
      · rfl
      · rfl

/-! ## Types -/

/-- The type of a symbolic call. -/
def symbolicType? (i : Instruction) : Option ValueType :=
  match symbolicCall? i with
  | .ok (some c) => some c.type
  | _ => none

theorem symbolicType?_eq_some_iff {i : Instruction} {type : ValueType} :
    symbolicType? i = some type ↔ ∃ c, symbolicCall? i = .ok (some c) ∧ c.type = type := by
  unfold symbolicType?
  split
  case h_1 c hc => simp [hc]
  case h_2 hc => exact iff_of_false nofun fun ⟨c, h, _⟩ => hc c h

@[simp] theorem mem_noted {types : List ValueType} {type other : ValueType} :
    other ∈ noted types type ↔ other ∈ types ∨ other = type := by
  unfold noted
  split
  case isTrue h => exact ⟨.inl, fun ho => ho.elim id fun he => he ▸ h⟩
  case isFalse => rw [List.mem_append, List.mem_singleton]

/-- Each type that is met is noted. -/
@[simp] theorem mem_foldl_noted {types ts : List ValueType} {type : ValueType} :
    type ∈ ts.foldl noted types ↔ type ∈ types ∨ type ∈ ts := by
  induction ts generalizing types with
  | nil => simp
  | cons t ts ih => rw [List.foldl_cons, ih, mem_noted, List.mem_cons, or_assoc]

/-- A lowering to numbers notes the types of all symbolic calls. -/
theorem types_of_visits {entries : List (String × Instruction)} {t t' : Tally}
    (h : entries.foldlM (visit .runtime) t = .ok t') :
    t'.types = ((entries.map (·.2)).filterMap symbolicType?).foldl noted t.types := by
  induction entries generalizing t with
  | nil =>
      cases h
      rfl
  | cons entry entries ih =>
      rw [List.foldlM_cons] at h
      obtain ⟨t₁, hv, h⟩ := Except.bind_eq_ok.mp h
      rw [ih h, List.map_cons]
      unfold visit at hv
      split at hv
      case h_1 => cases hv
      case h_2 hc =>
        cases hv
        rw [List.filterMap_cons_none (by rw [symbolicType?, hc])]
      case h_3 c hc =>
        rw [List.filterMap_cons_some (by rw [symbolicType?, hc]), List.foldl_cons]
        dsimp only at hv
        split at hv
        case h_1 => cases hv
        case h_2 => cases hv; rfl

end SpecConstant

namespace Module

open SpecConstant

/-- The types of the symbolic calls, each once, in the order of their first use. -/
def symbolicTypes (m : Module) : List ValueType :=
  (m.instructions.filterMap symbolicType?).foldl noted []

/-- The types of a module are those of its symbolic calls. -/
theorem mem_symbolicTypes {m : Module} {type : ValueType} :
    type ∈ m.symbolicTypes ↔
      ∃ i ∈ m.instructions, ∃ c, symbolicCall? i = .ok (some c) ∧ c.type = type := by
  simp [symbolicTypes, symbolicType?_eq_some_iff]

/-- The instructions of all functions in order, each with the name of its function. -/
def namedInstructions (m : Module) : List (String × Instruction) :=
  m.functions.flatMap fun f => f.instructions.map (f.name, ·)

/-- The instructions of a module, with the names of their functions taken away. -/
theorem map_snd_namedInstructions (m : Module) :
    m.namedInstructions.map (·.2) = m.instructions := by
  simp [namedInstructions, instructions, List.map_flatMap, Function.comp_def]

theorem map_sweep_lowerFunction (m : Module) (mode : Mode) (p : Progress) :
    (sweep (lowerFunction mode) p m.functions).2.map Progress.tally =
      m.namedInstructions.foldlM (visit mode) p.tally := by
  rw [namedInstructions, foldlM_flatMap]
  exact map_sweep map_lowerFunction p m.functions

/-- A sweep over all functions to numbers that does not fail notes the types of symbolic calls. -/
theorem types_of_sweep {m : Module} {p p' : Progress} {functions : List Function}
    (hp : p.types = []) (h : sweep (lowerFunction .runtime) p m.functions = (functions, .ok p')) :
    p'.types = m.symbolicTypes := by
  have hvisits := m.map_sweep_lowerFunction .runtime p
  rw [h] at hvisits
  have htypes := types_of_visits hvisits.symm
  rw [map_snd_namedInstructions] at htypes
  rw [symbolicTypes, ← hp]
  exact htypes

/-- What a lowering reports: that there is no free number, or the first fault that a visit of its
instructions finds, or whether there was a symbolic call. -/
theorem lowerSpecConstants_snd (m : Module) (mode : Mode) :
    (m.lowerSpecConstants mode).2 =
      match freeId? m.specIds with
      | none => .error .idsExhausted
      | some next =>
        (m.namedInstructions.foldlM (visit mode) ⟨⟨m.specIds, next⟩, [], false⟩).map
          (·.changed) := by
  cases hfree : freeId? m.specIds with
  | none => simp only [lowerSpecConstants, hfree]
  | some next =>
      have hvisits := m.map_sweep_lowerFunction mode ⟨m.specIds, next, [], false, []⟩
      dsimp only
      change _ = Except.map (·.changed) (m.namedInstructions.foldlM (visit mode)
        (Progress.tally ⟨m.specIds, next, [], false, []⟩))
      rw [← hvisits]
      rcases hs : sweep (lowerFunction mode) ⟨m.specIds, next, [], false, []⟩ m.functions with
        ⟨functions, e | p⟩
      · simp only [lowerSpecConstants, hfree, hs]
        rfl
      · simp only [lowerSpecConstants, hfree, hs]
        cases hc : p.changed with
        | true => simp [Except.map, Progress.tally, hc]
        | false => simp [Except.map, Progress.tally, hc]

end Module

end DeviceCode
