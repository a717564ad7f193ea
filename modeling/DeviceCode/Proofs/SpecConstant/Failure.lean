import DeviceCode.Proofs.SpecConstant.Faults
import DeviceCode.Proofs.SpecConstant.Replaced

/-!
# What a failed lowering leaves

A lowering that meets a malformed call leaves the functions in front of it as a lowering that
succeeds does.  In the function of the call the blocks in front have lost or changed their symbolic
calls, but no zeros are put for the results yet, and the block of the call has lost all
instructions.  What follows is not touched (`remains_of_failure`).
-/

namespace DeviceCode

namespace SpecConstant

/-! ## Sweeps up to a failure -/

section Sweep

variable {σ τ ε α : Type} {update : σ → α → α × Except ε σ}

/-- A sweep stops where an update fails, and leaves what comes behind. -/
theorem sweep_of_error {s s' : σ} {as as' : List α} (h : sweep update s as = (as', .ok s'))
    {a a' : α} {e : ε} (ha : update s' a = (a', .error e)) (rest : List α) :
    sweep update s (as ++ a :: rest) = (as' ++ a' :: rest, .error e) := by
  refine sweep_ok (P := fun s as as' s' => update s' a = (a', .error e) →
    sweep update s (as ++ a :: rest) = (as' ++ a' :: rest, .error e)) ?_ ?_ h ha
  · intro s ha
    simp only [List.nil_append, sweep, ha]
  · intro s b bs s₁ b' bs' s₂ hb ih ha
    simp only [List.cons_append, sweep, hb, ih ha]

theorem exists_sweep_eq_ok (view : σ → τ) {step : τ → α → Except ε τ}
    (hview : ∀ s a, (update s a).2.map view = step (view s) a) {s : σ} {as : List α} {t : τ}
    (h : as.foldlM step (view s) = .ok t) :
    ∃ as' s', sweep update s as = (as', .ok s') ∧ view s' = t := by
  rw [← map_sweep hview] at h
  rcases hs : sweep update s as with ⟨as', e | s'⟩
  · rw [hs] at h
    cases h
  · rw [hs] at h
    cases h
    exact ⟨as', s', rfl, rfl⟩

end Sweep

/-- A block with a malformed call loses its instructions, and the lowering ends. -/
theorem exists_lowerBlock_eq_error {b : Block} (h : ∃ i ∈ b.instructions, i.IsMalformed)
    (mode : Mode) (name : String) (p : Progress) :
    ∃ e, lowerBlock mode name p b = ({ b with instructions := [] }, .error e) := by
  obtain ⟨front, i, back, hb, ⟨reason, hi⟩, hfront⟩ := exists_first h
  have hentries : ∀ entry ∈ front.map (name, ·), ¬ entry.2.IsMalformed := by
    intro entry he
    obtain ⟨j, hj, rfl⟩ := List.mem_map.mp he
    exact hfront j hj
  have hvisits : (lowerInstructions mode name p b.instructions).map (·.2.tally) =
      (b.instructions.map (name, ·)).foldlM (visit mode) p.tally :=
    map_lowerInstructions p b.instructions
  rw [hb, List.map_append, List.map_cons, ← hb] at hvisits
  unfold lowerBlock
  cases hl : lowerInstructions mode name p b.instructions with
  | error e => exact ⟨e, rfl⟩
  | ok r =>
      rw [hl] at hvisits
      rcases foldlM_visit_of_hasFault hentries hi p.tally with h | h
      · rw [h] at hvisits
        cases hvisits
      · rw [h] at hvisits
        cases hvisits

/-- Up to a malformed call, or the end, all string IDs of symbolic calls are asked for. -/
theorem idsInFront_append {is rest : List Instruction} (h : ∀ i ∈ is, ¬ i.IsMalformed)
    (hrest : ∀ i ∈ rest.head?, i.IsMalformed) :
    idsInFront (is ++ rest) = is.filterMap symbolicId? := by
  have hok : ∀ i ∈ is, (symbolicCall? i).isOk := by
    intro i hi
    obtain ⟨c, hc⟩ := Instruction.not_isMalformed_iff.mp (h i hi)
    rw [hc]
    rfl
  rw [idsInFront, (span_append hok fun i hi => Instruction.isMalformed_iff.mp (hrest i hi)).1]

end SpecConstant

open SpecConstant

namespace Module

variable {m m' : Module} {mode : Mode} {function : String} {reason : Reason}

namespace Fault

/-- What is left at a fault: functions and blocks in front are changed, the block of the malformed
call is empty, and all that follows is as it was. -/
def remains (p : m.Fault) (function : Function → Function) (block : Block → Block) : Module :=
  { m with functions := p.before.map function ++
      { p.function with body := some (p.blocksBefore.map block ++
          { p.block with instructions := [] } :: p.blocksAfter) } :: p.after }

variable (p : m.Fault)

theorem block_malformed : ∃ i ∈ p.block.instructions, i.IsMalformed := by
  refine ⟨p.call, ?_, p.reason, p.hasFault⟩
  rw [p.instructions_eq]
  exact List.mem_append_right _ List.mem_cons_self

/-- A lowering that reports a malformed call has gone through all that is in front of it. -/
theorem exists_visits
    (h : (m.lowerSpecConstants mode).2 = .error (.malformedCall function reason)) :
    ∃ next t, freeId? m.specIds = some next ∧
      p.entries.foldlM (visit mode) ⟨⟨m.specIds, next⟩, [], false⟩ = .ok t := by
  obtain ⟨rest, hentries⟩ := p.exists_namedInstructions_eq
  obtain ⟨next, hnext, hv⟩ := visits_of_malformedCall h
  rw [hentries, List.foldlM_append] at hv
  rcases foldlM_visit_of_wellFormed p.entries_wellFormed ⟨⟨m.specIds, next⟩, [], false⟩ with
    ⟨t, ht⟩ | hex
  · exact ⟨next, t, hnext, ht⟩
  · rw [hex] at hv
    cases hv

/-- The sweeps over the functions and the blocks in front of a fault, and what is left when they are
done. -/
theorem exists_sweeps
    (h : m.lowerSpecConstants mode = (m', .error (.malformedCall function reason))) :
    ∃ next t before' p₁ blocks' p₂, freeId? m.specIds = some next ∧
      p.entries.foldlM (visit mode) ⟨⟨m.specIds, next⟩, [], false⟩ = .ok t ∧
      sweep (lowerFunction mode) ⟨m.specIds, next, [], false, []⟩ p.before = (before', .ok p₁) ∧
      sweep (lowerBlock mode p.function.name) { p₁ with zeros := [] } p.blocksBefore =
        (blocks', .ok p₂) ∧
      m' = { m with functions := before' ++ { p.function with body := some (blocks' ++
        { p.block with instructions := [] } :: p.blocksAfter) } :: p.after } := by
  have hreported := congrArg Prod.snd h
  obtain ⟨next, t, hnext, ht⟩ := p.exists_visits hreported
  have hvisits := ht
  rw [entries, List.foldlM_append, foldlM_flatMap] at hvisits
  obtain ⟨t₁, ht₁, hvisits⟩ := Except.bind_eq_ok.mp hvisits
  rw [List.foldlM_append, foldlM_flatMap] at hvisits
  obtain ⟨t₂, ht₂, -⟩ := Except.bind_eq_ok.mp hvisits
  obtain ⟨before', p₁, hbefore, rfl⟩ := exists_sweep_eq_ok Progress.tally map_lowerFunction
    (s := ⟨m.specIds, next, [], false, []⟩) ht₁
  obtain ⟨blocks', p₂, hblocks, -⟩ := exists_sweep_eq_ok Progress.tally map_lowerBlock
    (s := { p₁ with zeros := [] }) ht₂
  obtain ⟨e, he⟩ := exists_lowerBlock_eq_error p.block_malformed mode p.function.name p₂
  have hfunction : lowerFunction mode p₁ p.function = ({ p.function with body := some (blocks' ++
      { p.block with instructions := [] } :: p.blocksAfter) }, .error e) := by
    simp only [lowerFunction, p.body_eq, sweep_of_error hblocks he]
  refine ⟨next, t, before', p₁, blocks', p₂, hnext, ht, hbefore, hblocks, ?_⟩
  simp only [lowerSpecConstants, hnext, p.functions_eq, sweep_of_error hbefore hfunction] at h
  exact (congrArg Prod.fst h).symm

/-- What is in front of a fault asks for all new string IDs. -/
theorem newIds_eq :
    m.newIds = m.specIds.missing ((p.finished ++ p.front).filterMap symbolicId?) := by
  obtain ⟨rest, hentries⟩ := p.exists_namedInstructions_eq
  rw [newIds, ← map_snd_namedInstructions, hentries, List.map_append, p.map_snd_entries,
    List.map_cons, idsInFront_append p.inFront_wellFormed]
  rintro _ ⟨⟩
  exact ⟨p.reason, p.hasFault⟩

/-- The instructions in front of a fault are given their numbers. -/
theorem exists_numbering {next : UInt32} {t : Tally}
    (h : p.entries.foldlM (visit .runtime) ⟨⟨m.specIds, next⟩, [], false⟩ = .ok t) :
    ∃ n, Numbering.giveAll? ⟨m.specIds, next⟩ ((p.finished ++ p.front).filterMap symbolicId?) =
      some n := by
  have hlast : p.entries.foldlM (visit .runtime) ⟨⟨m.specIds, next⟩, [], false⟩ ≠
      .error .idsExhausted := by
    rw [h]
    exact nofun
  rw [ne_eq, foldlM_visit_runtime, p.map_snd_entries, ← List.append_nil (_ ++ _),
    idsInFront_append p.inFront_wellFormed (by simp)] at hlast
  exact Option.ne_none_iff_exists'.mp hlast

end Fault

/-- The functions in front of the first malformed call are left as by a lowering that succeeds: with
zeros for the results of their symbolic calls, or with numbers.  New numbers follow those that are
told, in the order in which their string IDs are met.  The blocks in front, in the function of the
call, have no symbolic calls any more, or lowered ones, but zeros are not put yet.  The block of the
call is empty, and all that follows is as it was. -/
theorem remains_of_failure
    (h : m.lowerSpecConstants mode = (m', .error (.malformedCall function reason))) :
    Nonempty m.Fault ∧ ∀ p : m.Fault,
      (mode = .default → (∀ f ∈ p.before, f.Zeroed f.withZeros) ∧
        m' = p.remains Function.withZeros Block.withoutSymbolicCalls) ∧
      (mode = .runtime → ∃ number : String → UInt32,
        (∀ s id, m.specIds.get? s = some id → number s = id) ∧
        (∀ k s, m.newIds[k]? = some s → (number s).toNat = m.specIds.bound + k) ∧
        (∀ i ∈ p.finished, Renumbered number i (numbered number i)) ∧
        m' = p.remains (Function.withNumbers number) (Block.withNumbers number)) := by
  refine ⟨nonempty_fault_of_lowering (congrArg Prod.snd h :), fun p => ?_⟩
  obtain ⟨next, t, before', p₁, blocks', p₂, hnext, ht, hbefore, hblocks, hm⟩ := p.exists_sweeps h
  constructor
  · rintro rfl
    obtain ⟨rfl, -, hcalls⟩ := lowerFunctions_default hbefore
    obtain ⟨rfl, -⟩ := lowerBlocks_default hblocks
    exact ⟨fun f hf => Function.zeroed_withZeros (hcalls f hf), hm⟩
  · rintro rfl
    have hfunctions := LowersToNumbers.sweep (fun _ _ _ _ => lowerFunction_runtime) hbefore
    have hblocks := LowersToNumbers.sweep (fun _ _ _ _ => lowerBlock_runtime) hblocks
    obtain ⟨n, hn⟩ := p.exists_numbering ht
    -- the numbering goes on from those that the two sweeps end with, and so agrees with them
    have hgive := hn
    rw [Fault.finished, List.append_assoc, List.filterMap_append, List.filterMap_append,
      Numbering.giveAll?_append] at hgive
    obtain ⟨n₁, hn₁, hgive⟩ := Option.bind_eq_some_iff.mp hgive
    obtain rfl := Option.some.inj (hfunctions.numbers.symm.trans hn₁)
    have hkeeps₁ : Extends n.number p₁.ids := fun s id hs =>
      Numbering.number_of_get? (Numbering.keeps_of_giveAll? hgive hs)
    rw [Numbering.giveAll?_append] at hgive
    obtain ⟨n₂, hn₂, hgive⟩ := Option.bind_eq_some_iff.mp hgive
    obtain rfl := Option.some.inj (hblocks.numbers.symm.trans hn₂)
    have hkeeps₂ : Extends n.number p₂.ids := fun s id hs =>
      Numbering.number_of_get? (Numbering.keeps_of_giveAll? hgive hs)
    refine ⟨n.number, ?_, ?_, ?_, ?_⟩
    · exact fun s id hs => Numbering.number_of_get? (Numbering.keeps_of_giveAll? hn hs)
    · intro k s hk
      rw [p.newIds_eq] at hk
      rw [toNat_of_giveAll? hn hk, toNat_of_freeId? hnext]
    · intro i hi
      exact renumbered_numbered n.number
        (Instruction.not_isMalformed_iff.mp (p.finished_wellFormed i hi))
    · rw [hm, hfunctions.lowered _ hkeeps₁, hblocks.lowered _ hkeeps₂, Fault.remains]

/-- The last block of `g`, and `h`, keep their symbolic calls; the block with the fault loses the
use of a result too, and the use in front of it is not replaced. -/
theorem severalFaults_remains :
    severalFaults.lowerSpecConstants .default =
        (severalFaultsFirst.remains Function.withZeros Block.withoutSymbolicCalls,
          .error (.malformedCall "g" (.notOneString "__sycl_getSpecConstantValue"))) ∧
      ∃ number : String → UInt32, (number "A").toNat = 0 ∧ (number "B").toNat = 1 ∧
        severalFaults.lowerSpecConstants .runtime =
          (severalFaultsFirst.remains (Function.withNumbers number) (Block.withNumbers number),
            .error (.malformedCall "g" (.notOneString "__sycl_getSpecConstantValue"))) := by
  have hdefault : severalFaults.lowerSpecConstants .default =
      ((severalFaults.lowerSpecConstants .default).1,
        .error (.malformedCall "g" (.notOneString "__sycl_getSpecConstantValue"))) := by
    decide +kernel
  have hruntime : severalFaults.lowerSpecConstants .runtime =
      ((severalFaults.lowerSpecConstants .runtime).1,
        .error (.malformedCall "g" (.notOneString "__sycl_getSpecConstantValue"))) := by
    decide +kernel
  obtain ⟨-, hzeros⟩ := (remains_of_failure hdefault).2 severalFaultsFirst |>.1 rfl
  obtain ⟨number, -, hnew, -, hnumbers⟩ :=
    (remains_of_failure hruntime).2 severalFaultsFirst |>.2 rfl
  have hids : severalFaults.newIds = ["A", "B"] := by decide +kernel
  rw [hids] at hnew
  refine ⟨by rw [hdefault, hzeros], number, hnew 0 "A" rfl, hnew 1 "B" rfl, ?_⟩
  rw [hruntime, hnumbers]

end Module

end DeviceCode
