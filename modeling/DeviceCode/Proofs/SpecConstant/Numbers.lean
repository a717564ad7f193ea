import DeviceCode.Proofs.SpecConstant.Visits

/-!
# What a lowering to numbers leaves

A lowering at run time gives every string ID one number and puts a lowered call with that number in
place of each of its symbolic calls (`lowerSpecConstants_runtime`).  Numbers that lowered calls told
before are kept, and all other instructions stay in their places (`instructions_of_numbering`).
-/

namespace DeviceCode

namespace SpecConstant

/-- The instruction with a lowered call in place of a symbolic one. -/
def numbered (number : String → UInt32) (i : Instruction) : Instruction :=
  match symbolicCall? i with
  | .ok (some c) => c.lower (number c.id) i
  | _ => i

theorem numbered_of_none {number : String → UInt32} {i : Instruction}
    (h : symbolicCall? i = .ok none) : numbered number i = i := by
  rw [numbered, h]

/-- A symbolic call is lowered to the number of its string ID. -/
theorem numbered_of_some {number : String → UInt32} {i : Instruction} {c : SymbolicCall}
    (h : symbolicCall? i = .ok (some c)) : numbered number i = c.lower (number c.id) i := by
  rw [numbered, h]

end SpecConstant

open SpecConstant

def Block.withNumbers (number : String → UInt32) (b : Block) : Block :=
  { b with instructions := b.instructions.map (numbered number) }

def Function.withNumbers (number : String → UInt32) (f : Function) : Function :=
  f.mapInstructions (numbered number)

namespace SpecConstant

/-- The numbering gives the string IDs of a map the numbers they have there. -/
def Extends (number : String → UInt32) (ids : SpecIds) : Prop :=
  ∀ s id, ids.get? s = some id → number s = id

/-- Some things with instructions inside, lowered from left to right, and what the progress has of
them.  Numbers that are given are kept, so the last numbering is one for all that came before. -/
structure LowersToNumbers {α : Type} (inside : α → List Instruction)
    (withNumbers : (String → UInt32) → α → α) (p : Progress) (as as' : List α) (p' : Progress) :
    Prop where
  numbers : p.numbering.giveAll? ((as.flatMap inside).filterMap symbolicId?) = some p'.numbering
  lowered : ∀ number, Extends number p'.ids → as' = as.map (withNumbers number)
  zeros : p.zeros = [] → p'.zeros = []
  calls : ∀ a ∈ as, ∀ i ∈ inside a, ∃ c, symbolicCall? i = .ok c

namespace LowersToNumbers

variable {α : Type} {inside : α → List Instruction} {withNumbers : (String → UInt32) → α → α}

theorem nil (p : Progress) : LowersToNumbers inside withNumbers p [] [] p where
  numbers := rfl
  lowered _ _ := rfl
  zeros h := h
  calls := nofun

theorem append {p p₁ p₂ : Progress} {as as' bs bs' : List α}
    (h : LowersToNumbers inside withNumbers p as as' p₁)
    (h' : LowersToNumbers inside withNumbers p₁ bs bs' p₂) :
    LowersToNumbers inside withNumbers p (as ++ bs) (as' ++ bs') p₂ where
  numbers := by
    rw [List.flatMap_append, List.filterMap_append, Numbering.giveAll?_append, h.numbers,
      Option.bind_some, h'.numbers]
  lowered number hn := by
    have hn₁ : Extends number p₁.ids := fun s id hs =>
      hn s id (Numbering.keeps_of_giveAll? h'.numbers hs)
    rw [h.lowered number hn₁, h'.lowered number hn, List.map_append]
  zeros hz := h'.zeros (h.zeros hz)
  calls := by
    intro a ha
    rcases List.mem_append.mp ha with ha | ha
    · exact h.calls a ha
    · exact h'.calls a ha

/-- A sweep lowers what its updates lower. -/
theorem sweep {update : Progress → α → α × Except Failure Progress}
    (hu : ∀ p a a' p', update p a = (a', .ok p') →
      LowersToNumbers inside withNumbers p [a] [a'] p')
    {p p' : Progress} {as as' : List α} (h : SpecConstant.sweep update p as = (as', .ok p')) :
    LowersToNumbers inside withNumbers p as as' p' := by
  refine sweep_ok (P := LowersToNumbers inside withNumbers) nil ?_ h
  exact fun p a as p₁ a' as' p₂ ha ih => (hu _ _ _ _ ha).append ih

end LowersToNumbers

variable {name : String} {p p' : Progress}

/-! ## Instructions -/

/-- A string ID has the number that was found for it. -/
theorem idFor_eq_ok {s : String} {id : UInt32} (h : p.idFor s = .ok (id, p')) :
    p'.ids.get? s = some id ∧ p'.zeros = p.zeros := by
  unfold Progress.idFor at h
  split at h
  case h_1 hs =>
    cases h
    exact ⟨hs, rfl⟩
  case h_2 =>
    split at h
    case h_1 => cases h
    case h_2 =>
      cases h
      refine ⟨?_, rfl⟩
      dsimp only
      rw [SortedMap.insert, SortedMap.get?_alter, if_pos rfl]

@[simp] theorem noteType_numbering (type : ValueType) :
    (p.noteType type).numbering = p.numbering :=
  noteType_keeps (fun _ => rfl) type

@[simp] theorem noteType_zeros (type : ValueType) : (p.noteType type).zeros = p.zeros :=
  noteType_keeps (fun _ => rfl) type

/-- One instruction stays in its place, lowered if it is symbolic. -/
theorem lowerInstruction_runtime {i : Instruction} {i' : Option Instruction}
    (h : lowerInstruction .runtime name p i = .ok (i', p')) :
    LowersToNumbers (fun i => [i]) numbered p [i] i'.toList p' := by
  unfold lowerInstruction at h
  split at h
  case h_1 => cases h
  case h_2 hc =>
    cases h
    exact {
      numbers := by simp [symbolicId?_of_none hc, Numbering.giveAll?]
      lowered := fun number _ => by simp [numbered_of_none hc]
      zeros := fun h => h
      calls := by simp [hc] }
  case h_3 c hc =>
    obtain ⟨⟨id, p₁⟩, hid, h⟩ := Except.bind_eq_ok.mp h
    cases h
    obtain ⟨hs, hz⟩ := idFor_eq_ok hid
    have hgive : p.numbering.give? c.id = some p₁.numbering :=
      (give?_of_idFor hid :)
    exact {
      numbers := by
        simp [symbolicId?_of_some hc, Numbering.giveAll?, hgive]
      lowered := fun number hn => by
        have hids : (p₁.noteType c.type).ids = p₁.ids :=
          congrArg Numbering.ids (noteType_numbering c.type)
        have hnumber : number c.id = id := hn c.id id (by rw [hids]; exact hs)
        simp [numbered_of_some hc, hnumber]
      zeros := fun h => by rw [noteType_zeros, hz]; exact h
      calls := by simp [hc] }

theorem lowerInstructions_runtime {is is' : List Instruction}
    (h : lowerInstructions .runtime name p is = .ok (is', p')) :
    LowersToNumbers (fun i => [i]) numbered p is is' p' := by
  induction is generalizing p is' with
  | nil =>
      cases h
      exact .nil _
  | cons i is ih =>
      obtain ⟨⟨new, p₁⟩, hi, h⟩ := Except.bind_eq_ok.mp h
      obtain ⟨⟨news, p₂⟩, his, h⟩ := Except.bind_eq_ok.mp h
      cases h
      exact (lowerInstruction_runtime hi).append (ih his)

/-! ## Blocks and functions -/

theorem lowerBlock_runtime {b b' : Block} (h : lowerBlock .runtime name p b = (b', .ok p')) :
    LowersToNumbers Block.instructions Block.withNumbers p [b] [b'] p' := by
  unfold lowerBlock at h
  split at h
  case h_1 hi =>
    cases h
    have hl := lowerInstructions_runtime hi
    exact {
      numbers := by simpa using hl.numbers
      lowered := fun number hn => by simp [Block.withNumbers, hl.lowered number hn]
      zeros := hl.zeros
      calls := by simpa using hl.calls }
  case h_2 => cases h

/-- A function is lowered in its blocks, and no zeros are put in. -/
theorem lowerFunction_runtime {f f' : Function} (h : lowerFunction .runtime p f = (f', .ok p')) :
    LowersToNumbers Function.instructions Function.withNumbers p [f] [f'] p' := by
  unfold lowerFunction at h
  split at h
  case h_1 hb =>
    cases h
    exact {
      numbers := by simp [Function.instructions_of_none hb, Numbering.giveAll?]
      lowered := fun number _ => by
        rw [List.map_singleton, Function.withNumbers, Function.mapInstructions, hb, Option.map_none,
          ← hb]
      zeros := fun h => h
      calls := by simp [Function.instructions_of_none hb] }
  case h_2 blocks hb =>
    split at h
    case h_1 => cases h
    case h_2 blocks' p₁ hs =>
      cases h
      have hl := LowersToNumbers.sweep (fun _ _ _ _ => lowerBlock_runtime) hs
      have hz : p'.zeros = [] := hl.zeros rfl
      exact {
        numbers := by
          rw [List.flatMap_singleton, Function.instructions_of_some hb]
          exact hl.numbers
        lowered := fun number hn => by
          rw [hz, hl.lowered number hn, List.map_singleton, Function.withNumbers,
            Function.mapInstructions, hb]
          rfl
        zeros := fun _ => hz
        calls := by
          rw [List.forall_mem_singleton, Function.instructions_of_some hb]
          intro i hi
          obtain ⟨b, hb, hi⟩ := List.mem_flatMap.mp hi
          exact hl.calls b hb i hi }

end SpecConstant

/-! ## Modules -/

namespace Function

theorem name_withNumbers (number : String → UInt32) (f : Function) :
    (f.withNumbers number).name = f.name := rfl

theorem instructions_withNumbers (number : String → UInt32) (f : Function) :
    (f.withNumbers number).instructions = f.instructions.map (numbered number) := by
  cases hb : f.body with
  | none => simp [instructions, blocks, withNumbers, mapInstructions, hb]
  | some bs =>
      simp [instructions, blocks, withNumbers, mapInstructions, hb, List.flatMap_map,
        List.map_flatMap]

end Function

namespace Module

variable {m m' : Module} {changed : Bool}

theorem extends_of_numbering? {n : Numbering} (h : m.numbering? = some n) :
    Extends n.number m.specIds :=
  fun s id hs => Numbering.number_of_get? ((continues_of_numbering? h).keeps s id hs)

/-- A lowering at run time either finds no symbolic call, or puts numbers in place of all, declares
the intrinsics it needs and deletes declarations of symbolic ones that nothing mentions. -/
theorem lowerSpecConstants_runtime (h : m.lowerSpecConstants .runtime = (m', .ok changed)) :
    (∀ f ∈ m.functions, ∀ i ∈ f.instructions, ∃ c, symbolicCall? i = .ok c) ∧
      ∃ n : Numbering, m.numbering? = some n ∧
        m' = if m.hasSymbolicCall then
          (m.symbolicTypes.foldl declareNumbered
            { m with functions := m.functions.map (Function.withNumbers n.number) }).dropPrototypes
              isSymbolicName
        else m := by
  obtain ⟨hc, hsame⟩ := lowerSpecConstants_changed h
  unfold lowerSpecConstants at h
  split at h
  case h_1 => cases h
  case h_2 next hn =>
    split at h
    case h_1 => cases h
    case h_2 functions p hs =>
      have hl := LowersToNumbers.sweep (fun _ _ _ _ => lowerFunction_runtime) hs
      have hnumbering : m.numbering? = some p.numbering := by
        rw [numbering?, hn]
        exact hl.numbers
      have hnumber : Extends p.numbering.number p.ids :=
        fun s id hs => Numbering.number_of_get? (n := p.numbering) hs
      refine ⟨hl.calls, p.numbering, hnumbering, ?_⟩
      split at h
      case isTrue =>
        cases h
        rw [← hc, if_pos rfl, hl.lowered _ hnumber, types_of_sweep rfl hs]
      case isFalse =>
        cases h
        rw [← hc, if_neg Bool.false_ne_true]
        exact hsame rfl

/-! ## Instructions -/

@[simp] theorem instructions_declareNumbered (m : Module) (type : ValueType) :
    (m.declareNumbered type).instructions = m.instructions := by
  unfold declareNumbered
  split
  · rfl
  · rw [instructions, instructions, List.flatMap_append, List.flatMap_singleton,
      Function.instructions_of_none rfl, List.append_nil]

/-- A declaration that is added is no definition with the name of a prototype. -/
theorem prototypesApart_declareNumbered (h : m.PrototypesApart isSymbolicName)
    (type : ValueType) : (m.declareNumbered type).PrototypesApart isSymbolicName := by
  unfold declareNumbered
  split
  · exact h
  · intro f hf g hg hb hs he
    rcases List.mem_append.mp hg with hg | hg
    · rcases List.mem_append.mp hf with hf | hf
      · exact h f hf g hg hb hs he
      · obtain rfl := List.mem_singleton.mp hf
        exact absurd (isNumberedName_numberedName type) (not_isNumberedName_of_isSymbolicName hs)
    · obtain rfl := List.mem_singleton.mp hg
      rfl

@[simp] theorem instructions_foldl_declareNumbered (types : List ValueType) (m : Module) :
    (types.foldl declareNumbered m).instructions = m.instructions := by
  induction types generalizing m with
  | nil => rfl
  | cons type types ih => exact (ih _).trans (instructions_declareNumbered m type)

theorem prototypesApart_foldl_declareNumbered (types : List ValueType)
    (h : m.PrototypesApart isSymbolicName) :
    (types.foldl declareNumbered m).PrototypesApart isSymbolicName := by
  induction types generalizing m with
  | nil => exact h
  | cons type types ih => exact ih (prototypesApart_declareNumbered h type)

theorem instructions_withNumbers (number : String → UInt32) (m : Module) :
    instructions { m with functions := m.functions.map (Function.withNumbers number) } =
      m.instructions.map (numbered number) := by
  simp [instructions, List.flatMap_map, List.map_flatMap, Function.instructions_withNumbers]

/-- Instructions stay in their places, with lowered calls for the symbolic ones. -/
theorem instructions_of_numbering (hd : m.PrototypesApart isSymbolicName)
    (h : m.lowerSpecConstants .runtime = (m', .ok changed)) :
    ∃ n, m.numbering? = some n ∧ m'.instructions = m.instructions.map (numbered n.number) := by
  obtain ⟨hcalls, n, hn, hm⟩ := lowerSpecConstants_runtime h
  refine ⟨n, hn, ?_⟩
  cases hs : m.hasSymbolicCall with
  | true =>
      have hapart := prototypesApart_foldl_declareNumbered m.symbolicTypes
        (hd.map (Function.name_withNumbers n.number) fun f => by
          simp [Function.withNumbers, Function.mapInstructions])
      rw [hm, hs, if_pos rfl, instructions_dropPrototypes hapart,
        instructions_foldl_declareNumbered, instructions_withNumbers]
  | false =>
      have hsame : ∀ i ∈ m.instructions, numbered n.number i = i := by
        intro i hi
        have hnot : i.isSymbolicCall = false := isSymbolicCall_eq_false hs hi
        obtain ⟨f, hf, hi⟩ := List.mem_flatMap.mp hi
        obtain ⟨c, hc⟩ := hcalls f hf i hi
        rw [isSymbolicCall_eq hc] at hnot
        cases c with
        | none => exact numbered_of_none hc
        | some c => cases hnot
      rw [hm, hs, if_neg nofun, List.map_congr_left hsame, List.map_id']

/-- Where the names of functions are distinct, each instruction of the lowered module is one of the
module's, lowered if it was symbolic. -/
theorem instructions_of_lowering (hn : (m.functions.map (·.name)).Nodup)
    (h : m.lowerSpecConstants .runtime = (m', .ok changed)) :
    ∃ number, Extends number m.specIds ∧
      m'.instructions = m.instructions.map (numbered number) := by
  obtain ⟨n, hnumbering, hm⟩ := instructions_of_numbering (prototypesApart_of_nodup hn) h
  exact ⟨n.number, extends_of_numbering? hnumbering, hm⟩

end Module

end DeviceCode
