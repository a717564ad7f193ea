import DeviceCode.Proofs.Cleanup.Trimming
import DeviceCode.Proofs.SpecConstant.Exhaustion
import DeviceCode.Proofs.SpecConstant.Writable

/-!
# The module that a lowering to numbers leaves

A lowering to numbers puts a lowered call in place of each symbolic one, declares the intrinsics
that are missing behind all other functions, and deletes the declarations of symbolic intrinsics
that have no use any more.  New numbers follow one another behind the greatest one that was told, in
the order in which their string IDs are met.  Nothing else changes (`lowerSpecConstants_exact`).
-/

namespace DeviceCode

namespace SpecConstant

/-! ## New numbers -/

/-- String IDs without a number get the next ones, one after the other. -/
theorem toNat_of_giveAll? {n n' : Numbering} {ss : List String} (h : n.giveAll? ss = some n')
    {k : Nat} {s : String} (hk : (n.ids.missing ss)[k]? = some s) :
    (n'.number s).toNat = n.next.toNat + k := by
  induction ss generalizing n k with
  | nil => cases hk
  | cons t ss ih =>
      obtain ⟨n₁, ht, hss⟩ := Option.bind_eq_some_iff.mp ((giveAll?_cons n t ss).symm.trans h)
      rcases Numbering.give?_cases ht with ⟨rfl, id, hid⟩ | ⟨hnone, hids, hnext⟩
      · rw [missing_cons_of_some hid] at hk
        exact ih hss hk
      · rw [missing_cons_of_none hnone n.next, ← hids] at hk
        cases k with
        | zero =>
            cases hk
            -- it has the number of its own step still, as none is changed that was given
            have hid : n₁.ids.get? s = some n.next := by
              rw [hids, Numbering.get?_insert, if_pos rfl]
            rw [Numbering.number_of_get? (Numbering.keeps_of_giveAll? hss hid), Nat.add_zero]
        | succ k =>
            rw [List.getElem?_cons_succ] at hk
            rw [ih hss hk, hnext, Nat.add_assoc, Nat.add_comm 1]

/-! ## Instructions -/

/-- What a lowering to numbers makes of an instruction: a call of a symbolic intrinsic becomes one
of the intrinsic for its type, in the same place and with the same result; the number of its string
ID and a zero are its arguments, and the string ID is attached behind all else. -/
inductive Renumbered (number : String → UInt32) : Instruction → Instruction → Prop where
  | call {result : Option String} {type : ValueType} {callee id : String} {zero : Literal}
      {attachments : List Attachment} :
      isSymbolicName callee → zeroOf? type = some zero →
      Renumbered number ⟨result, .call type (.direct callee) [.string id], attachments⟩
        ⟨result, .call type (.direct (numberedName type))
          [.constant .i32 (.int (.ofInt (number id).toNat)), .constant type zero],
          attachments ++ [⟨attachmentKind, .string id⟩]⟩
  | other {i : Instruction} : i.isSymbolicCall = false → Renumbered number i i

/-- What is taken for a symbolic call is one, with a string as its only argument. -/
theorem symbolicCall?_eq_some {i : Instruction} {c : SymbolicCall}
    (h : symbolicCall? i = .ok (some c)) :
    ∃ callee, isSymbolicName callee ∧ i.action = .call c.type (.direct callee) [.string c.id] := by
  unfold symbolicCall? at h
  split at h
  case h_2 => cases h
  case h_1 callee _ ha =>
    split at h
    case isFalse => cases h
    case isTrue hs =>
      split at h
      case h_2 => cases h
      case h_1 =>
        split at h
        case h_2 => cases h
        case h_1 =>
          cases h
          exact ⟨callee, hs, ha⟩

theorem renumbered_numbered {i : Instruction} (number : String → UInt32)
    (h : ∃ c, symbolicCall? i = .ok c) : Renumbered number i (numbered number i) := by
  obtain ⟨c, hc⟩ := h
  cases c with
  | none =>
      rw [numbered_of_none hc]
      exact .other (isSymbolicCall_eq hc)
  | some c =>
      obtain ⟨callee, hs, ha⟩ := symbolicCall?_eq_some hc
      have hzero := zeroOf?_of_symbolicCall hc
      rw [numbered_of_some hc]
      rcases i with ⟨result, action, attachments⟩
      cases ha
      exact .call hs hzero

/-! ## Types in the order of their first use -/

/-- Types are noted once, in the order in which they are met. -/
theorem foldl_noted_eq (types ts : List ValueType) :
    ts.foldl noted types = types ++ (ts.filter (· ∉ types)).eraseDups := by
  induction ts generalizing types with
  | nil => simp
  | cons t ts ih =>
      rw [List.foldl_cons, ih, noted]
      split
      case isTrue ht => rw [List.filter_cons_of_neg (by simpa using ht)]
      case isFalse ht =>
        rw [List.filter_cons_of_pos (by simpa using ht), List.eraseDups_cons, List.filter_filter,
          List.append_assoc, List.singleton_append]
        congr 4
        funext u
        by_cases hu : u = t
        · simp [hu]
        · simp [hu]

theorem nodup_foldl_noted {types ts : List ValueType} (h : types.Nodup) :
    (ts.foldl noted types).Nodup := by
  induction ts generalizing types with
  | nil => exact h
  | cons t ts ih =>
      refine ih ?_
      unfold noted
      split
      case isTrue => exact h
      case isFalse ht => exact List.concat_eq_append ▸ h.concat ht

theorem numberedName_injective {type other : ValueType}
    (h : numberedName type = numberedName other) : type = other := by
  rw [numberedName, numberedName, String.append_right_inj] at h
  have hname := ValueType.ofName?_name type
  rw [h, ValueType.ofName?_name] at hname
  exact (Option.some.inj hname).symm

end SpecConstant

namespace Module

open SpecConstant

variable {m m' : Module}

/-- A function of a name is found if there is one. -/
theorem isSome_function?_iff {name : String} :
    (m.function? name).isSome ↔ name ∈ m.functions.map (·.name) := by
  simp [function?]

/-- The intrinsics for different types do not get into each other's way. -/
theorem foldl_declareNumbered_eq {types : List ValueType} (h : types.Nodup) (m : Module) :
    types.foldl declareNumbered m = { m with
      functions := m.functions ++ (types.filter fun type =>
        numberedName type ∉ m.functions.map (·.name)).map numberedDeclaration } := by
  induction types generalizing m with
  | nil => simp
  | cons type types ih =>
      obtain ⟨htype, htypes⟩ := List.nodup_cons.mp h
      rw [List.foldl_cons, declareNumbered]
      split
      case isTrue hdeclared =>
        rw [ih htypes, List.filter_cons_of_neg (by simpa using isSome_function?_iff.mp hdeclared)]
      case isFalse hmissing =>
        rw [isSome_function?_iff] at hmissing
        -- the one that is added is not taken for the intrinsic of another type
        have hothers : types.filter (fun other => numberedName other ∉
              (m.functions ++ [numberedDeclaration type]).map (·.name)) =
            types.filter fun other => numberedName other ∉ m.functions.map (·.name) := by
          refine List.filter_congr fun other hother => ?_
          have hne : numberedName other ≠ numberedName type := fun he =>
            htype (numberedName_injective he ▸ hother)
          have hname : (numberedDeclaration type).name = numberedName type := rfl
          simp [hname, hne]
        rw [List.filter_cons_of_pos (by simpa using hmissing), List.map_cons]
        refine (ih htypes _).trans ?_
        dsimp only
        rw [← numberedDeclaration, hothers]
        simp

/-- The types that are used by symbolic calls and whose intrinsic is not among the functions, in the
order of their first use. -/
def missingTypes (m : Module) : List ValueType :=
  (m.instructions.filterMap symbolicType?).eraseDups.filter fun type =>
    numberedName type ∉ m.functions.map (·.name)

/-- The module with lowered calls in place of symbolic ones, and with their intrinsics. -/
def withNumbers (number : String → UInt32) (m : Module) : Module :=
  { m with functions :=
    m.functions.map (Function.withNumbers number) ++ m.missingTypes.map numberedDeclaration }

/-- The declaration of a symbolic intrinsic that nothing mentions. -/
def IsUnusedSymbolic (m : Module) (f : Function) : Prop :=
  f.body = none ∧ isSymbolicName f.name ∧ ¬ m.isReferenced f.name

theorem symbolicTypes_eq_eraseDups (m : Module) :
    m.symbolicTypes = (m.instructions.filterMap symbolicType?).eraseDups := by
  simp [symbolicTypes, foldl_noted_eq]

/-- The declarations that are added are those that are missing, in order. -/
theorem foldl_declareNumbered_withNumbers (number : String → UInt32) (m : Module) :
    m.symbolicTypes.foldl declareNumbered
      { m with functions := m.functions.map (Function.withNumbers number) } =
        m.withNumbers number := by
  have hnames : (m.functions.map (Function.withNumbers number)).map (·.name) =
      m.functions.map (·.name) := by
    rw [List.map_map]
    rfl
  have hnodup : m.symbolicTypes.Nodup := nodup_foldl_noted List.nodup_nil
  rw [foldl_declareNumbered_eq hnodup, hnames, symbolicTypes_eq_eraseDups]
  rfl

instance (m : Module) (f : Function) : Decidable (m.IsUnusedSymbolic f) :=
  inferInstanceAs (Decidable (f.body = none ∧ isSymbolicName f.name ∧ ¬ m.isReferenced f.name))

/-- Where functions have names of their own, no function is deleted for the name of another one. -/
theorem dropPrototypes_eq_filter (h : (m.functions.map (·.name)).Nodup) :
    m.dropPrototypes isSymbolicName =
      { m with functions := m.functions.filter fun f => ¬ m.IsUnusedSymbolic f } := by
  have hunused : ∀ f ∈ m.functions,
      f.name ∈ m.unusedPrototypes isSymbolicName ↔ m.IsUnusedSymbolic f := by
    intro f hf
    rw [mem_unusedPrototypes]
    constructor
    · rintro ⟨g, hg, hb, hs, hr, he⟩
      rw [List.inj_on_of_nodup_map h hg hf he] at hb hs hr
      exact ⟨hb, hs, hr⟩
    · rintro ⟨hb, hs, hr⟩
      exact ⟨f, hf, hb, hs, hr, rfl⟩
  rw [dropPrototypes]
  congr 1
  refine List.filter_congr fun f hf => ?_
  rw [Bool.eq_iff_iff, Bool.not_eq_true', Bool.eq_false_iff, ne_eq, List.contains_iff_mem,
    hunused f hf, decide_eq_true_iff]

/-! ## All that a lowering changes -/

/-- New numbers follow one another behind those that are told. -/
theorem toNat_of_numbering? {n : Numbering} (h : m.numbering? = some n) {k : Nat} {s : String}
    (hk : (m.specIds.missing m.symbolicIds)[k]? = some s) :
    (n.number s).toNat = m.specIds.bound + k := by
  obtain ⟨next, hnext, hgive⟩ := Option.bind_eq_some_iff.mp h
  rw [toNat_of_giveAll? hgive hk, toNat_of_freeId? hnext]

/-- A lowering does not change the names of functions. -/
theorem nodup_withNumbers (number : String → UInt32) (h : (m.functions.map (·.name)).Nodup) :
    ((m.withNumbers number).functions.map (·.name)).Nodup := by
  rw [← foldl_declareNumbered_withNumbers]
  refine nodup_functionNames_foldl_declareNumbered ?_
  rw [List.map_map]
  exact h

/-- A lowering to numbers that changes anything keeps the numbers that are told, and gives the ones
behind them to the other string IDs of symbolic calls, in the order in which these are met.  It puts
lowered calls in place of the symbolic ones, appends the intrinsics that are missing, and deletes
the declarations of symbolic intrinsics without a use.  All else is left as it was. -/
theorem lowerSpecConstants_exact (hn : (m.functions.map (·.name)).Nodup)
    (h : m.lowerSpecConstants .runtime = (m', .ok true)) :
    ∃ number : String → UInt32,
      (∀ s id, m.specIds.get? s = some id → number s = id) ∧
      (∀ k s, (m.specIds.missing m.symbolicIds)[k]? = some s →
        (number s).toNat = m.specIds.bound + k) ∧
      (∀ f ∈ m.functions, ∀ i ∈ f.instructions, Renumbered number i (numbered number i)) ∧
      m' = { m.withNumbers number with
        functions := (m.withNumbers number).functions.filter fun f =>
          ¬ (m.withNumbers number).IsUnusedSymbolic f } := by
  obtain ⟨hcalls, n, hnumbering, hm⟩ := lowerSpecConstants_runtime h
  have hs : m.hasSymbolicCall = true := (lowerSpecConstants_changed h).1.symm
  refine ⟨n.number, extends_of_numbering? hnumbering, fun k s => toNat_of_numbering? hnumbering,
    fun f hf i hi => renumbered_numbered n.number (hcalls f hf i hi), ?_⟩
  rw [hm, hs, if_pos rfl, foldl_declareNumbered_withNumbers,
    dropPrototypes_eq_filter (nodup_withNumbers n.number hn)]

/-- A lowered call and symbolic ones, with string IDs and types in common between two functions.
The intrinsic for `i32` is declared; a table mentions one of the two symbolic intrinsics. -/
def mixedCalls : Module where
  sourceName := none
  globals := [⟨"table", .external, true,
    some (.array [.symbol "__sycl_getSpecConstantValue_f64"])⟩]
  functions := [
    .declaration "__sycl_getSpecConstantValue" .i32 ["id"],
    .declaration "__spirv_SpecConstant_i32" .i32 ["id", "default"],
    .declaration "__sycl_getSpecConstantValue_f64" .f64 ["id"],
    { Function.declaration "f" .void [] with
      body := some [
        ⟨"entry", [
          ⟨some "a", .call .i32 (.direct "__spirv_SpecConstant_i32")
            [.constant .i32 (.int 4), .constant .i32 (.int 0)],
            [⟨"sycl.spec_const", .string "A"⟩]⟩,
          ⟨some "c", .call .f64 (.direct "__sycl_getSpecConstantValue_f64") [.string "C"],
            [⟨"note", .string "first"⟩]⟩]⟩,
        ⟨"next", [⟨some "d", .call .i32 (.direct "__sycl_getSpecConstantValue") [.string "A"], []⟩,
          ⟨none, .operation "ret" [], []⟩]⟩] },
    { Function.declaration "g" .i1 [] with
      body := some [⟨"entry", [
        ⟨some "a", .call .i1 (.direct "__sycl_getSpecConstantValue") [.string "B"], []⟩,
        ⟨some "b", .call .i32 (.direct "__sycl_getSpecConstantValue") [.string "C"], []⟩,
        ⟨none, .operation "ret" [.value "a"], []⟩]⟩] }]
  debugRecords := []

/-- A number is kept and two are given in the order of the calls; two intrinsics come behind the
functions, and the symbolic one without a use is gone. -/
theorem mixedCalls_lowered :
    ∃ m' : Module, ∃ number : String → UInt32,
      mixedCalls.lowerSpecConstants .runtime = (m', .ok true) ∧
      number "A" = 4 ∧ (number "C").toNat = 5 ∧ (number "B").toNat = 6 ∧
      (∀ f ∈ mixedCalls.functions, ∀ i ∈ f.instructions,
        Renumbered number i (numbered number i)) ∧
      m' = { mixedCalls.withNumbers number with
        functions := (mixedCalls.withNumbers number).functions.filter fun f =>
          ¬ (mixedCalls.withNumbers number).IsUnusedSymbolic f } ∧
      m'.functions.map (·.name) = ["__spirv_SpecConstant_i32", "__sycl_getSpecConstantValue_f64",
        "f", "g", "__spirv_SpecConstant_f64", "__spirv_SpecConstant_i1"] := by
  have hl : mixedCalls.lowerSpecConstants .runtime =
      ((mixedCalls.lowerSpecConstants .runtime).1, .ok true) := by decide +kernel
  have hn : (mixedCalls.functions.map (·.name)).Nodup := by decide
  obtain ⟨number, hkept, hnew, hcalls, hm⟩ := lowerSpecConstants_exact hn hl
  exact ⟨_, number, hl, hkept "A" 4 (by decide +kernel), hnew 0 "C" (by decide +kernel),
    hnew 1 "B" (by decide +kernel), hcalls, hm, by decide +kernel⟩

end Module

end DeviceCode
