import DeviceCode.Assembly.Reading
import DeviceCode.Proofs.Binary.Encoding
import DeviceCode.Proofs.Module.Equality
import DeviceCode.Proofs.SpecConstant.Visits

/-!
# When numbers run out

Numbers are given to the string IDs that have none, behind those that are told already.  A lowering
to numbers runs out of them where both together are too many for 32 bits.  As it looks for a free
number before anything else, it also does where the greatest of all numbers is told, in either mode
and even if there is nothing to lower (`idsExhausted_iff`).
-/

namespace DeviceCode

/-! ## Numbers that fit -/

/-- One more than the greatest number of a map; zero if there is none. -/
def SpecIds.bound (ids : SpecIds) : Nat :=
  match ids.values.max? with
  | none => 0
  | some greatest => greatest.toNat + 1

/-- The strings that have no number, each once, in the order in which they are met. -/
def SpecIds.missing (ids : SpecIds) (ss : List String) : List String :=
  (ss.filter fun s => (ids.get? s).isNone).eraseDups

namespace SpecConstant

theorem nextId?_eq_none_iff {n : UInt32} : nextId? n = none ↔ UInt32.size ≤ n.toNat + 1 := by
  unfold nextId?
  split
  case isTrue h => exact iff_of_false nofun (by omega)
  case isFalse h => exact iff_of_true rfl (by omega)

/-- No number is free if the bound does not fit. -/
theorem freeId?_eq_none_iff {ids : SpecIds} : freeId? ids = none ↔ UInt32.size ≤ ids.bound := by
  rw [freeId?_eq, SpecIds.bound]
  cases ids.values.max? with
  | none => exact iff_of_false nofun (by decide)
  | some greatest => exact nextId?_eq_none_iff

theorem toNat_of_freeId? {ids : SpecIds} {next : UInt32} (h : freeId? ids = some next) :
    next.toNat = ids.bound := by
  rw [freeId?_eq] at h
  rw [SpecIds.bound]
  cases hmax : ids.values.max? with
  | none =>
      rw [hmax] at h
      cases h
      rfl
  | some greatest =>
      rw [hmax] at h
      exact nextId?_eq_some_iff.mp h

/-- A string ID with a number is not missing. -/
theorem missing_cons_of_some {ids : SpecIds} {s : String} {id : UInt32} (h : ids.get? s = some id)
    (ss : List String) : ids.missing (s :: ss) = ids.missing ss := by
  rw [SpecIds.missing, List.filter_cons_of_neg (by simp [h])]
  rfl

/-- A string ID without a number is missing once, and then it has one. -/
theorem missing_cons_of_none {ids : SpecIds} {s : String} (h : ids.get? s = none) (id : UInt32)
    (ss : List String) :
    ids.missing (s :: ss) = s :: SpecIds.missing (ids.insert s id) ss := by
  rw [SpecIds.missing, List.filter_cons_of_pos (by simp [h]), List.eraseDups_cons,
    List.filter_filter, SpecIds.missing]
  congr 3
  funext t
  rw [Numbering.get?_insert]
  by_cases ht : t = s
  · simp [ht]
  · simp [ht]

theorem giveAll?_cons (n : Numbering) (s : String) (ss : List String) :
    n.giveAll? (s :: ss) = (n.give? s).bind (·.giveAll? ss) := rfl

/-- Numbers can be given as long as those that are missing fit behind the ones that are given. -/
theorem giveAll?_eq_none_iff {n : Numbering} {ss : List String} :
    n.giveAll? ss = none ↔ UInt32.size ≤ n.next.toNat + (n.ids.missing ss).length := by
  induction ss generalizing n with
  | nil =>
      have hlt : n.next.toNat < UInt32.size := n.next.toNat_lt
      refine iff_of_false nofun ?_
      rw [SpecIds.missing, List.filter_nil, List.eraseDups_nil, List.length_nil]
      omega
  | cons s ss ih =>
      rw [giveAll?_cons, Numbering.give?]
      cases hs : n.ids.get? s with
      | some id =>
          rw [missing_cons_of_some hs]
          exact ih
      | none =>
          rw [missing_cons_of_none hs n.next, List.length_cons]
          cases hnext : nextId? n.next with
          | none =>
              have hfull := nextId?_eq_none_iff.mp hnext
              exact iff_of_true rfl (by omega)
          | some next =>
              have htoNat := nextId?_eq_some_iff.mp hnext
              refine (ih (n := ⟨n.ids.insert s n.next, next⟩)).trans ?_
              dsimp only
              rw [htoNat]
              omega

/-! ## Instructions that use numbers up -/

/-- The string IDs of the symbolic calls in front of the first malformed one. -/
def idsInFront (is : List Instruction) : List String :=
  (is.takeWhile fun i => (symbolicCall? i).isOk).filterMap symbolicId?

/-- A lowering to defaults gives no numbers, so it does not run out of them on its way. -/
theorem foldlM_visit_default (t : Tally) (entries : List (String × Instruction)) :
    entries.foldlM (visit .default) t ≠ .error .idsExhausted := by
  induction entries generalizing t with
  | nil => exact nofun
  | cons entry entries ih =>
      rw [List.foldlM_cons, visit]
      split
      · exact nofun
      · exact ih _
      · exact ih _

theorem idsInFront_cons_of_error {i : Instruction} {reason : Reason}
    (h : symbolicCall? i = .error reason) (is : List Instruction) : idsInFront (i :: is) = [] := by
  rw [idsInFront, List.takeWhile_cons_of_neg (by rw [h]; exact nofun), List.filterMap_nil]

theorem idsInFront_cons_of_none {i : Instruction} (h : symbolicCall? i = .ok none)
    (is : List Instruction) : idsInFront (i :: is) = idsInFront is := by
  rw [idsInFront, List.takeWhile_cons_of_pos (by rw [h]; rfl),
    List.filterMap_cons_none (symbolicId?_of_none h)]
  rfl

theorem idsInFront_cons_of_some {i : Instruction} {c : SymbolicCall}
    (h : symbolicCall? i = .ok (some c)) (is : List Instruction) :
    idsInFront (i :: is) = c.id :: idsInFront is := by
  rw [idsInFront, List.takeWhile_cons_of_pos (by rw [h]; rfl),
    List.filterMap_cons_some (symbolicId?_of_some h)]
  rfl

/-- A lowering to numbers runs out of them exactly if they cannot all be given that are asked for
before it stops. -/
theorem foldlM_visit_runtime {t : Tally} {entries : List (String × Instruction)} :
    entries.foldlM (visit .runtime) t = .error .idsExhausted ↔
      t.numbering.giveAll? (idsInFront (entries.map (·.2))) = none := by
  induction entries generalizing t with
  | nil => exact iff_of_false nofun nofun
  | cons entry entries ih =>
      rw [List.foldlM_cons, List.map_cons, visit]
      cases hc : symbolicCall? entry.2 with
      | error reason =>
          rw [idsInFront_cons_of_error hc]
          exact iff_of_false nofun nofun
      | ok c =>
          cases c with
          | none =>
              rw [idsInFront_cons_of_none hc]
              exact ih
          | some c =>
              rw [idsInFront_cons_of_some hc, giveAll?_cons]
              dsimp only
              cases t.numbering.give? c.id with
              | none => exact iff_of_true rfl rfl
              | some n => exact ih

end SpecConstant

namespace Module

open SpecConstant

/-- The string IDs for which a lowering to numbers has to find new ones. -/
def newIds (m : Module) : List String := m.specIds.missing (idsInFront m.instructions)

/-- Numbers run out, in both modes and whatever there is to lower, where the greatest one is told;
and when they are to be given, where new string IDs do not fit behind those that are told. -/
theorem idsExhausted_iff (m : Module) (mode : Mode) :
    (m.lowerSpecConstants mode).2 = .error .idsExhausted ↔
      UInt32.size ≤ m.specIds.bound ∨
        mode = .runtime ∧ UInt32.size ≤ m.specIds.bound + m.newIds.length := by
  rw [lowerSpecConstants_snd]
  cases hfree : freeId? m.specIds with
  | none => exact iff_of_true rfl (.inl (freeId?_eq_none_iff.mp hfree))
  | some next =>
      have hbound : ¬ UInt32.size ≤ m.specIds.bound := by
        rw [← freeId?_eq_none_iff, hfree]
        exact nofun
      have hmap : ∀ r : Except Failure Tally,
          r.map (·.changed) = .error .idsExhausted ↔ r = .error .idsExhausted := by
        intro r
        cases r with
        | error e => exact ⟨fun h => by cases h; rfl, fun h => by cases h; rfl⟩
        | ok t => exact iff_of_false nofun nofun
      dsimp only
      rw [hmap, or_iff_right hbound]
      cases mode with
      | default => exact iff_of_false (foldlM_visit_default _ _) fun h => nomatch h.1
      | runtime =>
          rw [foldlM_visit_runtime, map_snd_namedInstructions, giveAll?_eq_none_iff,
            toNat_of_freeId? hfree, newIds]
          exact (and_iff_right rfl).symm

/-- A lowered call with the greatest number, and nothing left to lower. -/
def greatestNumber : Module where
  sourceName := none
  globals := []
  functions := [
    .declaration "__spirv_SpecConstant" .i1 [],
    { Function.declaration "f" .void [] with
      body := some [⟨"a", [
        ⟨none, .call .i1 (.direct "__spirv_SpecConstant") [.constant .i32 (.int 4294967295)],
          [⟨"sycl.spec_const", .string "A"⟩]⟩]⟩] }]
  debugRecords := []

/-- A lowered call with the greatest number but one, and a symbolic call for another constant. -/
def lastNumber : Module where
  sourceName := none
  globals := []
  functions := [
    .declaration "__spirv_SpecConstant" .i1 [],
    .declaration "__sycl_getSpecConstantValue" .i1 [],
    { Function.declaration "f" .void [] with
      body := some [⟨"a", [
        ⟨none, .call .i1 (.direct "__spirv_SpecConstant") [.constant .i32 (.int 4294967294)],
          [⟨"sycl.spec_const", .string "A"⟩]⟩,
        ⟨none, .call .i1 (.direct "__sycl_getSpecConstantValue") [.string "B"], []⟩]⟩] }]
  debugRecords := []

/-- The first of these modules has nothing to lower and cannot be lowered in either mode; the second
can be lowered to defaults but not to numbers.  One is read from a text, the other from bytes. -/
theorem greatestNumber_exhausted :
    Module.read ("declare i1 @__spirv_SpecConstant()\ndefine void @f() \x7b\na:\n" ++
        "call i1 @__spirv_SpecConstant(i32 4294967295) !sycl.spec_const \"A\"\n\x7d\n") =
          .ok greatestNumber ∧
      greatestNumber.hasSymbolicCall = false ∧
      (∀ mode, (greatestNumber.lowerSpecConstants mode).2 = .error .idsExhausted) ∧
      Module.ofBytes lastNumber.toBytes = .ok lastNumber ∧
      (lastNumber.lowerSpecConstants .default).2 = .ok true ∧
      (lastNumber.lowerSpecConstants .runtime).2 = .error .idsExhausted := by
  have hgreatest : UInt32.size ≤ greatestNumber.specIds.bound := by decide +kernel
  have hlast : UInt32.size ≤ lastNumber.specIds.bound + lastNumber.newIds.length := by
    decide +kernel
  exact ⟨by decide +kernel, by decide +kernel,
    fun mode => (idsExhausted_iff _ mode).mpr (.inl hgreatest),
    ofBytes_toBytes (by decide +kernel), by decide +kernel,
    (idsExhausted_iff _ .runtime).mpr (.inr ⟨rfl, hlast⟩)⟩

end Module

end DeviceCode
