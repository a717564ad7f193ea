import Mathlib.Data.List.Basic
import DeviceCode.Text.Layout

/-!
# Lines that are written

A text that is written line by line is divided into these lines again, but for the carriage returns
at their ends.
-/

namespace DeviceCode.Text

variable {l r current : List Char}

/-! ## One line -/

/-- A line keeps its characters exactly if it does not end with a carriage return. -/
theorem endedLine_reverse_eq_iff : endedLine l.reverse = l ↔ l.getLast? ≠ some '\r' := by
  rcases List.eq_nil_or_concat l with rfl | ⟨init, c, rfl⟩
  · exact iff_of_true rfl nofun
  · rw [List.concat_eq_append, List.reverse_append, List.reverse_singleton, List.singleton_append,
      List.getLast?_concat, ne_eq, Option.some.injEq]
    by_cases hc : c = '\r'
    · subst hc
      refine iff_of_false ?_ (not_not.mpr rfl)
      intro h
      have hlength := congrArg List.length h
      simp [endedLine] at hlength
    · refine iff_of_true ?_ hc
      rw [endedLine]
      · simp
      · rintro r' ⟨⟩
        exact hc rfl

/-- An ended line has lost a carriage return at most. -/
theorem mem_of_mem_endedLine {c : Char} (h : c ∈ endedLine current) : c ∈ current := by
  unfold endedLine at h
  split at h
  · exact List.mem_cons_of_mem _ (List.mem_reverse.mp h)
  · exact List.mem_reverse.mp h

/-! ## Texts of lines -/

theorem linesFrom_append (hl : '\n' ∉ l) :
    linesFrom current (l ++ '\n' :: r) = endedLine (l.reverse ++ current) :: lines r := by
  induction l generalizing current with
  | nil => exact if_pos rfl
  | cons c l ih =>
      rw [List.mem_cons, not_or] at hl
      rw [List.cons_append, linesFrom, if_neg (Ne.symm hl.1), ih hl.2, List.reverse_cons,
        List.append_assoc]
      rfl

/-- What is written as lines is read as these lines. -/
theorem lines_flatMap {ls : List (List Char)} (h : ∀ l ∈ ls, '\n' ∉ l) :
    lines (ls.flatMap (· ++ ['\n'])) = ls.map fun l => endedLine l.reverse := by
  induction ls with
  | nil => rfl
  | cons l ls ih =>
      obtain ⟨hl, hls⟩ := List.forall_mem_cons.mp h
      rw [List.flatMap_cons, List.append_assoc, List.singleton_append, lines, linesFrom_append hl,
        List.append_nil, ih hls, List.map_cons]

theorem not_mem_of_mem_linesFrom {s : List Char} (hc : '\n' ∉ current)
    (h : l ∈ linesFrom current s) : '\n' ∉ l := by
  induction s generalizing current with
  | nil =>
      rw [linesFrom] at h
      split at h
      · cases h
      · rwa [List.mem_singleton.mp h, List.mem_reverse]
  | cons c s ih =>
      rw [linesFrom] at h
      split at h
      case isTrue =>
        rcases List.mem_cons.mp h with rfl | h
        · exact fun hmem => hc (mem_of_mem_endedLine hmem)
        · exact ih List.not_mem_nil h
      case isFalse hne =>
        refine ih ?_ h
        rw [List.mem_cons, not_or]
        exact ⟨Ne.symm hne, hc⟩

/-- No line goes over a line feed. -/
theorem not_mem_of_mem_lines {s : List Char} (h : l ∈ lines s) : '\n' ∉ l :=
  not_mem_of_mem_linesFrom List.not_mem_nil h

end DeviceCode.Text
