import DeviceCode.Proofs.Partition.Kernels
import DeviceCode.Proofs.Partition.SelfContained

/-!
# Partitions of visible kernels

What a set of kernels needs grows with the kernels and with the functions that are defined
(`Needed.mono`), and what several kernels need is what one of them needs (`needed_iff_exists`).

The same is not true of what is live.  A function that one kernel mentions and another one calls is
a declaration in the partition of the first, and it is missing in that of the second if nothing
there is live; together they give it a body, and what the body mentions is live in neither of the
two.  Where all kernels are definitions that other modules see, everything that they need is live
(`Needed.live`), so that whatever is live is so for the sake of one kernel (`live_iff_exists`).
-/

namespace DeviceCode.Module

/-- The names are those of definitions that other modules see. -/
def DefinesVisibly (m : Module) (kernels : List String) : Prop :=
  ∀ k ∈ kernels, ∃ f ∈ m.functions, f.name = k ∧ f.body.isSome ∧
    (f.linkage = .external ∨ f.linkage = .weakODR)

instance (m : Module) (kernels : List String) : Decidable (m.DefinesVisibly kernels) :=
  inferInstanceAs (Decidable (∀ k ∈ kernels, ∃ f ∈ m.functions, f.name = k ∧ f.body.isSome ∧
    (f.linkage = .external ∨ f.linkage = .weakODR)))

variable {m m' p : Module} {kernels kernels' : List String} {name : String} {f : Function}

theorem mem_symbols_of_mem_callees (h : name ∈ f.callees) : name ∈ f.symbols := by
  obtain ⟨i, hi, hc⟩ := List.mem_filterMap.mp h
  refine List.mem_flatMap.mpr ⟨i, hi, ?_⟩
  simp [Instruction.symbols, hc]

/-! ## More functions and more kernels -/

/-- A module needs what another one needs if it defines all that this one needs. -/
theorem Needed.mono
    (hf : ∀ f ∈ m.functions, m.Needed kernels f.name → f.body ≠ none → f ∈ m'.functions)
    (hk : kernels ⊆ kernels') (h : m.Needed kernels name) : m'.Needed kernels' name := by
  induction h with
  | kernel hmem => exact .kernel (hk hmem)
  | @call f g hfm hn hgm hb hc ih =>
      have hbody : f.body ≠ none := body_ne_none_of_mem_symbols (mem_symbols_of_mem_callees hc)
      have hg : m.Needed kernels g.name := .call hfm hn hgm hb hc
      exact .call (hf f hfm hn hbody) ih (hf g hgm hg (Option.isSome_iff_ne_none.mp hb)) hb hc

/-- What is live grows with the kernels and with the bodies that these need. -/
theorem Live.mono
    (hf : ∀ f ∈ m.functions, m.Needed kernels f.name → f.body ≠ none → f ∈ m'.functions)
    (hg : m.globals ⊆ m'.globals) (hk : kernels ⊆ kernels') (h : m.Live kernels name) :
    m'.Live kernels' name := by
  induction h with
  | function hfm hn hb hl =>
      exact .function (hf _ hfm hn (Option.isSome_iff_ne_none.mp hb)) (hn.mono hf hk) hb hl
  | global hgm hi hl => exact .global (hg hgm) hi hl
  | body hfm hn _ hs ih =>
      exact .body (hf _ hfm hn (body_ne_none_of_mem_symbols hs)) (hn.mono hf hk) ih hs
  | initializer hgm _ hs ih => exact .initializer (hg hgm) ih hs

/-- What several kernels need is what one of them needs. -/
theorem needed_iff_exists : m.Needed kernels name ↔ ∃ k ∈ kernels, m.Needed [k] name := by
  constructor
  · intro h
    induction h with
    | @kernel k hk => exact ⟨k, hk, .kernel (List.mem_singleton_self k)⟩
    | call hf _ hg hb hc ih =>
        obtain ⟨k, hk, hn⟩ := ih
        exact ⟨k, hk, .call hf hn hg hb hc⟩
  · rintro ⟨k, hk, h⟩
    exact h.mono (fun f hf _ _ => hf) (List.cons_subset.mpr ⟨hk, List.nil_subset _⟩)

/-! ## Visible kernels -/

theorem DefinesVisibly.singleton (hv : m.DefinesVisibly kernels) {k : String} (hk : k ∈ kernels) :
    m.DefinesVisibly [k] := by
  intro k' hk'
  obtain rfl := List.mem_singleton.mp hk'
  exact hv k' hk

/-- All that visible kernels need is live. -/
theorem Needed.live (hv : m.DefinesVisibly kernels) (h : m.Needed kernels name) :
    m.Live kernels name := by
  induction h with
  | kernel hk =>
      obtain ⟨f, hf, rfl, hb, hl⟩ := hv _ hk
      exact .function hf (.kernel hk) hb hl
  | call hf hn _ _ hc ih => exact .body hf hn ih (mem_symbols_of_mem_callees hc)

/-- What is live for several visible kernels is live for one of them. -/
theorem live_iff_exists (hv : m.DefinesVisibly kernels) (hne : kernels ≠ []) :
    m.Live kernels name ↔ ∃ k ∈ kernels, m.Live [k] name := by
  constructor
  · intro h
    induction h with
    | function hf hn hb hl =>
        obtain ⟨k, hk, hn⟩ := needed_iff_exists.mp hn
        exact ⟨k, hk, .function hf hn hb hl⟩
    | global hg hi hl =>
        obtain ⟨k, hk⟩ := List.exists_mem_of_ne_nil kernels hne
        exact ⟨k, hk, .global hg hi hl⟩
    | body hf hn _ hs _ =>
        -- the kernel that needs the function need not be the one that made it live before
        obtain ⟨k, hk, hn⟩ := needed_iff_exists.mp hn
        exact ⟨k, hk, .body hf hn (hn.live (hv.singleton hk)) hs⟩
    | initializer hg _ hs ih =>
        obtain ⟨k, hk, hl⟩ := ih
        exact ⟨k, hk, .initializer hg hl hs⟩
  · rintro ⟨k, hk, h⟩
    exact h.mono (fun f hf _ _ => hf) (List.Subset.refl _)
      (List.cons_subset.mpr ⟨hk, List.nil_subset _⟩)

end DeviceCode.Module
