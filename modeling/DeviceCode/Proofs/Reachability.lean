import Mathlib.Data.List.Basic
import DeviceCode.Cleanup

/-!
# What a search reaches

`Reached next starts` is the least set that holds the starts and follows `next`.  The main statement
is `mem_reach`: the search of `DeviceCode.reach` meets exactly the members of its universe that are
reached, provided that names outside of the universe lead nowhere.

The proof goes through `ReachedIn`, where every name on the way belongs to a region, because the
search looks at smaller and smaller regions.
-/

namespace DeviceCode

variable {α : Type} {next : α → List α} {starts : List α} {x y : α}

/-- The least set that holds the starts and, with each of its members, what `next` gives for it. -/
inductive Reached (next : α → List α) (starts : List α) : α → Prop
  | start {x : α} : x ∈ starts → Reached next starts x
  | step {x y : α} : Reached next starts x → y ∈ next x → Reached next starts y

/-- What is reached grows with the starts and with the ways. -/
theorem Reached.mono {next' : α → List α} {starts' : List α} (h : Reached next starts x)
    (hstarts : starts ⊆ starts')
    (hnext : ∀ y, Reached next starts y → next y ⊆ next' y) : Reached next' starts' x := by
  induction h with
  | start hs => exact .start (hstarts hs)
  | step hx hn ih => exact .step ih (hnext _ hx hn)

/-- What is reached from what is reached. -/
theorem Reached.trans {others : List α} (h : Reached next others x)
    (hothers : ∀ y ∈ others, Reached next starts y) : Reached next starts x := by
  induction h with
  | start hs => exact hothers _ hs
  | step _ hn ih => exact .step ih hn

theorem reached_append_iff {others : List α} :
    Reached next (starts ++ others) x ↔ Reached next starts x ∨ Reached next others x := by
  constructor
  · intro h
    induction h with
    | start hs => exact (List.mem_append.mp hs).imp .start .start
    | step _ hn ih => exact ih.imp (.step · hn) (.step · hn)
  · rintro (h | h)
    · exact h.trans fun y hy => .start (List.mem_append_left _ hy)
    · exact h.trans fun y hy => .start (List.mem_append_right _ hy)

/-- Reached on a way that stays inside a region. -/
inductive ReachedIn (next : α → List α) (region starts : List α) : α → Prop
  | start {x : α} : x ∈ starts → x ∈ region → ReachedIn next region starts x
  | step {x y : α} : ReachedIn next region starts x → y ∈ next x → y ∈ region →
      ReachedIn next region starts y

namespace ReachedIn

variable {region : List α}

theorem mem (h : ReachedIn next region starts x) : x ∈ region := by
  cases h with
  | start _ hu => exact hu
  | step _ _ hu => exact hu

theorem reached (h : ReachedIn next region starts x) : Reached next starts x := by
  induction h with
  | start hs _ => exact .start hs
  | step _ hn _ ih => exact .step ih hn

/-- A larger region reaches more, and so do starts from which the old ones are reached within it. -/
theorem mono {region' starts' : List α} (h : ReachedIn next region starts x)
    (hu : ∀ y ∈ region, y ∈ region')
    (hs : ∀ y ∈ starts, y ∈ region → ReachedIn next region' starts' y) :
    ReachedIn next region' starts' x := by
  induction h with
  | start hx hm => exact hs _ hx hm
  | step _ hn hm ih => exact .step ih hn (hu _ hm)

end ReachedIn

variable [DecidableEq α]

@[simp] theorem mem_without {l : List α} : y ∈ without l x ↔ y ∈ l ∧ y ≠ x := by
  simp [without]

/-- Looking at `x` splits what is reached into `x` and what is reached without it. -/
theorem reachedIn_cons_iff {unseen rest : List α} (hx : x ∈ unseen) :
    ReachedIn next unseen (x :: rest) y ↔
      y = x ∨ ReachedIn next (without unseen x) (next x ++ rest) y := by
  constructor
  · intro h
    induction h with
    | @start z hz hu =>
        by_cases e : z = x
        · exact .inl e
        · have hr : z ∈ rest := (List.mem_cons.mp hz).resolve_left e
          exact .inr (.start (List.mem_append_right _ hr) (mem_without.mpr ⟨hu, e⟩))
    | @step z w _ hn hu ih =>
        by_cases e : w = x
        · exact .inl e
        · have hw : w ∈ without unseen x := mem_without.mpr ⟨hu, e⟩
          rcases ih with rfl | ih
          · exact .inr (.start (List.mem_append_left _ hn) hw)
          · exact .inr (.step ih hn hw)
  · have hxr : ReachedIn next unseen (x :: rest) x := .start List.mem_cons_self hx
    rintro (rfl | h)
    · exact hxr
    · refine h.mono (fun z hz => (mem_without.mp hz).1) fun z hz hu => ?_
      have hu : z ∈ unseen := (mem_without.mp hu).1
      rcases List.mem_append.mp hz with hn | hr
      · exact .step hxr hn hu
      · exact .start (List.mem_cons_of_mem _ hr) hu

/-- The search meets what is reached within the unseen part; by induction on the search. -/
theorem mem_reach_iff_reachedIn (unseen pending : List α) :
    y ∈ reach next unseen pending ↔ ReachedIn next unseen pending y := by
  fun_induction reach next unseen pending with
  | case1 unseen =>
      refine iff_of_false List.not_mem_nil fun h => ?_
      induction h with
      | start hs _ => cases hs
      | step _ _ _ ih => exact ih
  | case2 unseen x rest hx ih =>
      rw [List.mem_cons, ih, reachedIn_cons_iff hx]
  | case3 unseen x rest hx ih =>
      rw [ih]
      -- a start outside of the universe starts nothing
      constructor
      · exact fun h => h.mono (fun _ => id) fun z hz hu => .start (List.mem_cons_of_mem _ hz) hu
      · refine fun h => h.mono (fun _ => id) fun z hz hu => ?_
        rcases List.mem_cons.mp hz with rfl | hz
        · exact absurd hu hx
        · exact .start hz hu

/-- The search meets the reached members of its universe, if nothing leads out of it and back. -/
theorem mem_reach {all : List α} (hout : ∀ x, x ∉ all → next x = []) :
    y ∈ reach next all starts ↔ Reached next starts y ∧ y ∈ all := by
  rw [mem_reach_iff_reachedIn]
  constructor
  · exact fun h => ⟨h.reached, h.mem⟩
  · rintro ⟨h, hy⟩
    induction h with
    | start hs => exact .start hs hy
    | @step z w _ hn ih =>
        have hz : z ∈ all := by
          by_contra hz
          rw [hout z hz] at hn
          cases hn
        exact .step (ih hz) hn hy

/-- A search meets nothing twice, as it leaves out what it has met. -/
theorem nodup_reach (unseen pending : List α) : (reach next unseen pending).Nodup := by
  fun_induction reach next unseen pending with
  | case1 unseen => exact List.nodup_nil
  | case2 unseen x rest hx ih =>
      refine List.nodup_cons.mpr ⟨fun hmem => ?_, ih⟩
      have hleft := ((mem_reach_iff_reachedIn _ _).mp hmem).mem
      exact (mem_without.mp hleft).2 rfl
  | case3 unseen x rest hx ih => exact ih

/-- A search that leads nowhere meets its starts. -/
theorem reach_eq_self {all : List α} (hstarts : starts.Nodup) (hall : starts ⊆ all)
    (hnext : ∀ x ∈ starts, next x = []) : reach next all starts = starts := by
  induction starts generalizing all with
  | nil => rw [reach]
  | cons x starts ih =>
      obtain ⟨hx, hstarts⟩ := List.nodup_cons.mp hstarts
      obtain ⟨hxall, hall⟩ := List.cons_subset.mp hall
      obtain ⟨hnx, hnext⟩ := List.forall_mem_cons.mp hnext
      have hrest : starts ⊆ without all x := fun y hy =>
        mem_without.mpr ⟨hall hy, fun he => hx (he ▸ hy)⟩
      rw [reach, dif_pos hxall, hnx, List.nil_append, ih hstarts hrest hnext]

end DeviceCode
