import DeviceCode.Proofs.Basic
import DeviceCode.Proofs.Module.WellFormed
import DeviceCode.SpecConstant.Lowering

/-!
# What a lowering reports

A lowering sweeps over functions, blocks and instructions with its progress.  `sweep_ok` is the one
induction over a sweep that succeeds.  From it follows, for both modes, that a lowering reports a
change exactly if there was a symbolic call, and that a module without one stays as it is.
-/

namespace DeviceCode

/-- Whether an instruction calls a symbolic intrinsic, well-formed or not. -/
def Instruction.isSymbolicCall (i : Instruction) : Bool :=
  i.directCallee?.any SpecConstant.isSymbolicName

namespace SpecConstant

/-! ## Symbolic calls -/

/-- The names of symbolic intrinsics are told from those of intrinsics for numbers. -/
theorem not_isNumberedName_of_isSymbolicName {name : String} (h : isSymbolicName name) :
    ¬ isNumberedName name := by
  intro hn
  have hstems : numberedStem.toList <+: symbolicStem.toList :=
    List.prefix_of_prefix_length_le (List.isPrefixOf_iff_prefix.mp hn)
      (List.isPrefixOf_iff_prefix.mp h) (by decide)
  exact absurd hstems (by decide)

theorem isNumberedName_numberedName (type : ValueType) : isNumberedName (numberedName type) := by
  refine List.isPrefixOf_iff_prefix.mpr ?_
  rw [numberedName, String.append_assoc, String.toList_append]
  exact List.prefix_append _ _

/-- A call is symbolic exactly if it is taken for one. -/
theorem isSymbolicCall_eq {i : Instruction} {c : Option SymbolicCall}
    (h : symbolicCall? i = .ok c) : i.isSymbolicCall = c.isSome := by
  unfold symbolicCall? at h
  split at h
  case h_1 type callee arguments ha =>
    have hi : i.isSymbolicCall = isSymbolicName callee := by
      simp [Instruction.isSymbolicCall, Instruction.directCallee?, ha, Action.directCallee?]
    rw [hi]
    split at h
    case isTrue hs =>
      rw [hs]
      split at h
      · split at h
        · cases h
          rfl
        · cases h
      · cases h
    case isFalse hs =>
      cases h
      simpa using hs
  case h_2 ha =>
    cases h
    simp only [Instruction.isSymbolicCall, Instruction.directCallee?, Option.isSome_none,
      Option.any_eq_false]
    intro callee hc
    cases hact : i.action with
    | operation opcode operands =>
        rw [hact] at hc
        cases hc
    | call type target arguments =>
        cases target with
        | direct symbol => exact absurd hact (ha type symbol arguments)
        | indirect value =>
            rw [hact] at hc
            cases hc

/-! ## Sweeps -/

section Sweep

variable {σ ε α : Type} {update : σ → α → α × Except ε σ} {P : σ → List α → List α → σ → Prop}

/-- What holds of a sweep over nothing and is kept by one more update holds of a sweep that does not
fail. -/
theorem sweep_ok (nil : ∀ s, P s [] [] s)
    (cons : ∀ s a as s' a' as' s'', update s a = (a', .ok s') → P s' as as' s'' →
      P s (a :: as) (a' :: as') s'') {s s' : σ} {as as' : List α}
    (h : sweep update s as = (as', .ok s')) : P s as as' s' := by
  induction as generalizing s as' with
  | nil =>
      rw [sweep, Prod.mk.injEq, Except.ok.injEq] at h
      obtain ⟨rfl, rfl⟩ := h
      exact nil s
  | cons a as ih =>
      rw [sweep] at h
      split at h
      case h_1 => cases h
      case h_2 a' s₁ hu =>
        rcases hs : sweep update s₁ as with ⟨bs, r⟩
        rw [hs, Prod.mk.injEq] at h
        obtain ⟨rfl, rfl⟩ := h
        exact cons _ _ _ _ _ _ _ hu (ih hs)

/-- A sweep whose updates change neither the members nor the state changes nothing. -/
theorem sweep_fixed {s : σ} {as : List α} (h : ∀ a ∈ as, update s a = (a, .ok s)) :
    sweep update s as = (as, .ok s) := by
  induction as with
  | nil => rfl
  | cons a as ih =>
      obtain ⟨ha, has⟩ := List.forall_mem_cons.mp h
      simp only [sweep, ha, ih has]

/-- A sweep whose updates keep every member keeps them all, whatever comes to its state. -/
theorem sweep_same {as : List α} (h : ∀ a ∈ as, ∀ s, ∃ s', update s a = (a, .ok s')) (s : σ) :
    ∃ s', sweep update s as = (as, .ok s') := by
  induction as generalizing s with
  | nil => exact ⟨s, rfl⟩
  | cons a as ih =>
      obtain ⟨ha, has⟩ := List.forall_mem_cons.mp h
      obtain ⟨s₁, ha⟩ := ha s
      obtain ⟨s', has⟩ := ih has s₁
      exact ⟨s', by simp only [sweep, ha, has]⟩

end Sweep

/-! ## Whether anything changed -/

variable {mode : Mode} {name : String} {p p' : Progress}

theorem idFor_changed {id : UInt32} {s : String} (h : p.idFor s = .ok (id, p')) :
    p'.changed = p.changed := by
  unfold Progress.idFor at h
  split at h
  · cases h
    rfl
  · split at h
    · cases h
    · cases h
      rfl

/-- Noting a type keeps all but the types. -/
theorem noteType_keeps {α : Type} {view : Progress → α}
    (h : ∀ types, view { p with types } = view p) (type : ValueType) :
    view (p.noteType type) = view p := by
  unfold Progress.noteType
  split
  · rfl
  · exact h _

@[simp] theorem noteType_changed (type : ValueType) : (p.noteType type).changed = p.changed :=
  noteType_keeps (fun _ => rfl) type

@[simp] theorem noteZero_changed (result : Option String) (zero : Operand) :
    (p.noteZero result zero).changed = p.changed := by
  cases result with
  | none => rfl
  | some => rfl

theorem lowerInstruction_changed {i : Instruction} {i' : Option Instruction}
    (h : lowerInstruction mode name p i = .ok (i', p')) :
    p'.changed = (p.changed || i.isSymbolicCall) := by
  unfold lowerInstruction at h
  split at h
  case h_1 => cases h
  case h_2 hc =>
    cases h
    simp [isSymbolicCall_eq hc]
  case h_3 c hc =>
    rw [isSymbolicCall_eq hc, Option.isSome_some, Bool.or_true]
    cases mode with
    | default =>
        cases h
        exact noteZero_changed _ _
    | runtime =>
        obtain ⟨⟨id, p₁⟩, hid, h⟩ := Except.bind_eq_ok.mp h
        cases h
        rw [noteType_changed, idFor_changed hid]

/-- Whether instructions were changed is whether one of them was symbolic. -/
theorem lowerInstructions_changed {is is' : List Instruction}
    (h : lowerInstructions mode name p is = .ok (is', p')) :
    p'.changed = (p.changed || is.any Instruction.isSymbolicCall) := by
  induction is generalizing p is' with
  | nil =>
      cases h
      simp
  | cons i is ih =>
      obtain ⟨⟨new, p₁⟩, hi, h⟩ := Except.bind_eq_ok.mp h
      obtain ⟨⟨news, p₂⟩, his, h⟩ := Except.bind_eq_ok.mp h
      cases h
      rw [ih his, lowerInstruction_changed hi, List.any_cons, Bool.or_assoc]

theorem lowerBlock_changed {b b' : Block} (h : lowerBlock mode name p b = (b', .ok p')) :
    p'.changed = (p.changed || b.instructions.any Instruction.isSymbolicCall) := by
  unfold lowerBlock at h
  split at h
  case h_1 hi =>
    cases h
    exact lowerInstructions_changed hi
  case h_2 => cases h

/-- Putting in zeros is no change by itself, as it follows one. -/
theorem lowerFunction_changed {f f' : Function} (h : lowerFunction mode p f = (f', .ok p')) :
    p'.changed = (p.changed || f.instructions.any Instruction.isSymbolicCall) := by
  unfold lowerFunction at h
  split at h
  case h_1 hb =>
    cases h
    simp [Function.instructions_of_none hb]
  case h_2 blocks hb =>
    split at h
    case h_1 => cases h
    case h_2 blocks' p₁ hs =>
      cases h
      have hc : p'.changed =
          (p.changed || (blocks.flatMap (·.instructions)).any Instruction.isSymbolicCall) := by
        refine sweep_ok
          (P := fun p bs _ p' => p'.changed =
            (p.changed || (bs.flatMap (·.instructions)).any Instruction.isSymbolicCall)) ?_ ?_ hs
        · intro p
          simp
        · intro p b bs p₁ b' bs' p₂ hb ih
          rw [ih, lowerBlock_changed hb, List.flatMap_cons, List.any_append, Bool.or_assoc]
      rw [hc, Function.instructions_of_some hb]

theorem lowerFunctions_changed {fs fs' : List Function}
    (h : sweep (lowerFunction mode) p fs = (fs', .ok p')) :
    p'.changed = (p.changed || fs.any fun f => f.instructions.any Instruction.isSymbolicCall) := by
  refine sweep_ok
    (P := fun p fs _ p' => p'.changed =
      (p.changed || fs.any fun f => f.instructions.any Instruction.isSymbolicCall)) ?_ ?_ h
  · intro p
    simp
  · intro p f fs p₁ f' fs' p₂ hf ih
    rw [ih, lowerFunction_changed hf, List.any_cons, Bool.or_assoc]

/-! ## Without symbolic calls -/

theorem symbolicCall?_of_not_isSymbolicCall {i : Instruction} (h : i.isSymbolicCall = false) :
    symbolicCall? i = .ok none := by
  unfold symbolicCall?
  split
  case h_1 type callee arguments ha =>
    have hs : ¬ isSymbolicName callee := by
      simpa [Instruction.isSymbolicCall, Instruction.directCallee?, ha, Action.directCallee?]
        using h
    rw [if_neg hs]
  case h_2 => rfl

/-- Without symbolic calls the instructions and the progress stay as they are. -/
theorem lowerInstructions_of_not_symbolic {is : List Instruction}
    (h : ∀ i ∈ is, i.isSymbolicCall = false) :
    lowerInstructions mode name p is = .ok (is, p) := by
  induction is with
  | nil => rfl
  | cons i is ih =>
      obtain ⟨hi, his⟩ := List.forall_mem_cons.mp h
      have hi : lowerInstruction mode name p i = .ok (some i, p) := by
        simp only [lowerInstruction, symbolicCall?_of_not_isSymbolicCall hi]
      rw [lowerInstructions, hi]
      change (lowerInstructions mode name p is >>= _) = _
      rw [ih his]
      rfl

/-- A function without symbolic calls stays as it is: no zeros are noted, so none are put in. -/
theorem lowerFunction_of_not_symbolic {f : Function}
    (h : ∀ i ∈ f.instructions, i.isSymbolicCall = false) (p : Progress) :
    ∃ p', lowerFunction mode p f = (f, .ok p') := by
  cases hb : f.body with
  | none => exact ⟨p, by simp only [lowerFunction, hb]⟩
  | some blocks =>
      have hblocks : ∀ b ∈ blocks, lowerBlock mode f.name { p with zeros := [] } b =
          (b, .ok { p with zeros := [] }) := by
        intro b hmem
        have hi : ∀ i ∈ b.instructions, i.isSymbolicCall = false := by
          intro i hi
          rw [Function.instructions_of_some hb] at h
          exact h i (List.mem_flatMap.mpr ⟨b, hmem, hi⟩)
        simp only [lowerBlock, lowerInstructions_of_not_symbolic hi]
      have hf : { f with body := some blocks } = f := by rw [← hb]
      refine ⟨{ p with zeros := [] }, ?_⟩
      simp only [lowerFunction, hb, sweep_fixed hblocks, substituteZeros, List.foldl_nil, hf]

end SpecConstant

namespace Module

open SpecConstant

/-- The instructions of all functions in order. -/
def instructions (m : Module) : List Instruction :=
  m.functions.flatMap Function.instructions

/-! ## Deleted declarations -/

/-- No declaration whose name satisfies `p` shares its name with a definition.  Declarations are
deleted by their names, so this is when no definition goes with them. -/
def PrototypesApart (m : Module) (p : String → Bool) : Prop :=
  ∀ f ∈ m.functions, ∀ g ∈ m.functions, f.body = none → p f.name → g.name = f.name → g.body = none

/-- Where the names of functions are distinct, no definition goes with a declaration. -/
theorem prototypesApart_of_nodup {m : Module} {p : String → Bool}
    (h : (m.functions.map (·.name)).Nodup) : m.PrototypesApart p := by
  intro f hf g hg hb _ he
  rw [List.inj_on_of_nodup_map h hg hf he, hb]

/-- Changes of functions that keep their names and whether they have a body. -/
theorem PrototypesApart.map {m : Module} {p : String → Bool} {update : Function → Function}
    (h : m.PrototypesApart p) (hname : ∀ f, (update f).name = f.name)
    (hbody : ∀ f, (update f).body = none ↔ f.body = none) :
    PrototypesApart { m with functions := m.functions.map update } p := by
  intro _ hf' _ hg' hb hp he
  obtain ⟨f, hf, rfl⟩ := List.mem_map.mp hf'
  obtain ⟨g, hg, rfl⟩ := List.mem_map.mp hg'
  rw [hname, hname] at he
  rw [hname] at hp
  exact (hbody g).mpr (h f hf g hg ((hbody f).mp hb) hp he)

theorem instructions_dropPrototypes {m : Module} {p : String → Bool} (h : m.PrototypesApart p) :
    (m.dropPrototypes p).instructions = m.instructions := by
  refine flatMap_filter_eq fun g hg hu => Function.instructions_of_none ?_
  have hu : g.name ∈ m.unusedPrototypes p := by simpa using hu
  obtain ⟨f, hf, he⟩ := List.mem_map.mp hu
  obtain ⟨hf, hd⟩ := List.mem_filter.mp hf
  simp only [Bool.and_eq_true, Function.isDeclaration, Option.isNone_iff_eq_none] at hd
  exact h f hf g hg hd.1.1 hd.1.2 he.symm

/-! ## What is reported -/

/-- Whether there is anything to lower. -/
def hasSymbolicCall (m : Module) : Bool :=
  m.functions.any fun f => f.instructions.any Instruction.isSymbolicCall

theorem hasSymbolicCall_eq (m : Module) :
    m.hasSymbolicCall = m.instructions.any Instruction.isSymbolicCall := by
  rw [hasSymbolicCall, instructions, List.any_flatMap]

theorem isSymbolicCall_eq_false {m : Module} (h : m.hasSymbolicCall = false) {i : Instruction}
    (hi : i ∈ m.instructions) : i.isSymbolicCall = false := by
  rw [hasSymbolicCall_eq] at h
  simpa using List.any_eq_false.mp h i hi

/-- What is swept without a symbolic call to meet comes out as it is. -/
theorem sweep_of_not_symbolic {m : Module} (h : m.hasSymbolicCall = false) (mode : Mode)
    (p : Progress) : ∃ p', sweep (lowerFunction mode) p m.functions = (m.functions, .ok p') :=
  sweep_same (fun f hf => lowerFunction_of_not_symbolic fun _ hi =>
    isSymbolicCall_eq_false h (List.mem_flatMap.mpr ⟨f, hf, hi⟩)) p

/-- A lowering reports whether there was a symbolic call, and without one leaves the module as it
is. -/
theorem lowerSpecConstants_changed {m m' : Module} {mode : Mode} {changed : Bool}
    (h : m.lowerSpecConstants mode = (m', .ok changed)) :
    changed = m.hasSymbolicCall ∧ (changed = false → m' = m) := by
  unfold lowerSpecConstants at h
  split at h
  case h_1 => cases h
  case h_2 next hn =>
    split at h
    case h_1 => cases h
    case h_2 functions p hs =>
      have hc : p.changed = m.hasSymbolicCall := lowerFunctions_changed hs
      split at h
      case isTrue ht =>
        cases h
        exact ⟨by rw [← hc, ht], nofun⟩
      case isFalse hf =>
        cases h
        have hnone : m.hasSymbolicCall = false := by rw [← hc]; simpa using hf
        refine ⟨hnone.symm, fun _ => ?_⟩
        obtain ⟨p', hsame⟩ := sweep_of_not_symbolic hnone mode ⟨m.specIds, next, [], false, []⟩
        obtain rfl : functions = m.functions := congrArg Prod.fst (hs.symm.trans hsame)
        rfl

end Module

end DeviceCode
