import Mathlib.Data.List.DropRight
import DeviceCode.Proofs.Assembly.FaithfulEntity
import DeviceCode.Proofs.Assembly.Scoping
import DeviceCode.Proofs.Module.Equality

/-!
# Diagnostics about names

A fault of the names of a text may be noticed late: a use waits for the end of its body or of the
text.  But it is always the fault of an occurrence in the trace (`exists_mem_of_checkTrace`), and
the scan was faithful.  So its place is that of the name (`isWrittenAt_of_readChars`), and the line
and the column of its diagnostic lead there.
-/

namespace DeviceCode

namespace Assembly

/-! ## Faults of a trace -/

section Trace

variable {α : Type} {f : Fault} {o : Occurrence} {s s' : Scope} {trace : List Occurrence}

/-- The fault is that of an occurrence: it is at the same place and about the same name. -/
def Fault.IsOf (f : Fault) (o : Occurrence) : Prop :=
  f.place = o.place ∧ f.cause.name? = o.act.name?

/-- A name is defined twice where it is defined for the second time. -/
theorem Names.define_eq_error [DecidableEq α] {n : Names α} {a : α} {fault : Fault}
    (h : n.define a fault = .error f) : f = fault := by
  unfold Names.define at h
  split at h
  · exact (Except.error.inj h).symm
  · cases h

theorem Names.resolve_eq_error [DecidableEq α] {n : Names α} {cause : α → Cause}
    (h : n.resolve cause = .error f) : ∃ u ∈ n.used, f = ⟨cause u.1, u.2⟩ := by
  unfold Names.resolve at h
  split at h
  · rename_i name place e
    have hmem := List.mem_reverse.mp (List.mem_of_find?_eq_some e)
    exact ⟨(name, place), hmem, (Except.error.inj h).symm⟩
  · cases h

/-- The uses that wait for a definition are in the trace. -/
structure Scope.UsedIn (s : Scope) (trace : List Occurrence) : Prop where
  symbols : ∀ u ∈ s.symbols.used, ⟨.useSymbol u.1, u.2⟩ ∈ trace
  metadata : ∀ u ∈ s.metadata.used, ⟨.useMetadata u.1, u.2⟩ ∈ trace
  values : ∀ u ∈ s.values.used, ⟨.useValue u.1, u.2⟩ ∈ trace
  blocks : ∀ u ∈ s.blocks.used, ⟨.useBlock u.1, u.2⟩ ∈ trace

namespace Scope.UsedIn

theorem empty : Scope.empty.UsedIn trace := ⟨nofun, nofun, nofun, nofun⟩

/-- A step keeps that all uses are in the trace: it adds at most the use of its own occurrence. -/
theorem step (hs : s.UsedIn trace) (ho : o ∈ trace) (h : s.step o = .ok s') : s'.UsedIn trace := by
  obtain ⟨act, place⟩ := o
  cases act with
  | defineSymbol name =>
      obtain ⟨n, hn, h⟩ := Except.bind_eq_ok.mp h
      cases h
      exact { hs with symbols := (Names.define_eq_ok hn).2.2 ▸ hs.symbols }
  | defineMetadata id =>
      obtain ⟨n, hn, h⟩ := Except.bind_eq_ok.mp h
      cases h
      exact { hs with metadata := (Names.define_eq_ok hn).2.2 ▸ hs.metadata }
  | defineParameter name | defineValue name =>
      obtain ⟨n, hn, h⟩ := Except.bind_eq_ok.mp h
      cases h
      exact { hs with values := (Names.define_eq_ok hn).2.2 ▸ hs.values }
  | defineBlock label =>
      obtain ⟨n, hn, h⟩ := Except.bind_eq_ok.mp h
      cases h
      exact { hs with blocks := (Names.define_eq_ok hn).2.2 ▸ hs.blocks }
  | useSymbol name =>
      cases h
      exact { hs with symbols := List.forall_mem_cons.mpr ⟨ho, hs.symbols⟩ }
  | useMetadata id =>
      cases h
      exact { hs with metadata := List.forall_mem_cons.mpr ⟨ho, hs.metadata⟩ }
  | useValue name =>
      cases h
      exact { hs with values := List.forall_mem_cons.mpr ⟨ho, hs.values⟩ }
  | useBlock label =>
      cases h
      exact { hs with blocks := List.forall_mem_cons.mpr ⟨ho, hs.blocks⟩ }
  | beginFunction =>
      cases h
      exact { hs with values := nofun, blocks := nofun }
  | endBody =>
      obtain ⟨_, _, h⟩ := Except.bind_eq_ok.mp h
      obtain ⟨_, _, h⟩ := Except.bind_eq_ok.mp h
      cases h
      exact hs

/-- A definition is at fault itself; the end of a body finds the fault of a use before it. -/
theorem exists_of_step (hs : s.UsedIn trace) (ho : o ∈ trace) (h : s.step o = .error f) :
    ∃ o ∈ trace, f.IsOf o := by
  obtain ⟨act, place⟩ := o
  cases act with
  | defineSymbol | defineMetadata | defineParameter | defineValue | defineBlock =>
      rcases Except.bind_eq_error.mp h with h | ⟨_, -, h⟩
      · rw [Names.define_eq_error h]
        exact ⟨_, ho, rfl, rfl⟩
      · cases h
  | useSymbol | useMetadata | useValue | useBlock | beginFunction => cases h
  | endBody =>
      rcases Except.bind_eq_error.mp h with h | ⟨_, -, h⟩
      · obtain ⟨u, hu, rfl⟩ := Names.resolve_eq_error h
        exact ⟨_, hs.values u hu, rfl, rfl⟩
      · rcases Except.bind_eq_error.mp h with h | ⟨_, -, h⟩
        · obtain ⟨u, hu, rfl⟩ := Names.resolve_eq_error h
          exact ⟨_, hs.blocks u hu, rfl, rfl⟩
        · cases h

/-- What is left open at the end is the use of some occurrence. -/
theorem exists_of_close (hs : s.UsedIn trace) (h : s.close = .error f) :
    ∃ o ∈ trace, f.IsOf o := by
  rcases Except.bind_eq_error.mp h with h | ⟨_, -, h⟩
  · obtain ⟨u, hu, rfl⟩ := Names.resolve_eq_error h
    exact ⟨_, hs.symbols u hu, rfl, rfl⟩
  · obtain ⟨u, hu, rfl⟩ := Names.resolve_eq_error h
    exact ⟨_, hs.metadata u hu, rfl, rfl⟩

/-- So all uses along a run are in the trace, by induction on the steps. -/
theorem foldlM_step {os : List Occurrence} (hs : s.UsedIn trace) (hsub : os ⊆ trace)
    (h : os.foldlM Scope.step s = .ok s') : s'.UsedIn trace := by
  induction os generalizing s with
  | nil =>
      cases h
      exact hs
  | cons o os ih =>
      obtain ⟨ho, hsub⟩ := List.cons_subset.mp hsub
      rw [List.foldlM_cons] at h
      obtain ⟨s₁, h₁, h⟩ := Except.bind_eq_ok.mp h
      exact ih (hs.step ho h₁) hsub h

/-- A run that fails does so at the fault of an occurrence, whichever step it is that notices it. -/
theorem exists_of_foldlM_step {os : List Occurrence} (hs : s.UsedIn trace) (hsub : os ⊆ trace)
    (h : os.foldlM Scope.step s = .error f) : ∃ o ∈ trace, f.IsOf o := by
  induction os generalizing s with
  | nil => cases h
  | cons o os ih =>
      obtain ⟨ho, hsub⟩ := List.cons_subset.mp hsub
      rw [List.foldlM_cons] at h
      rcases Except.bind_eq_error.mp h with h | ⟨s₁, h₁, h⟩
      · exact hs.exists_of_step ho h
      · exact ih (hs.step ho h₁) hsub h

end Scope.UsedIn

theorem exists_mem_of_checkTrace (h : checkTrace trace = .error f) : ∃ o ∈ trace, f.IsOf o :=
  Scope.UsedIn.empty.exists_of_foldlM_step (List.Subset.refl trace) h

theorem usedIn_of_checkTrace (h : checkTrace trace = .ok s) : s.UsedIn trace :=
  Scope.UsedIn.empty.foldlM_step (List.Subset.refl trace) h

/-- A fault of an occurrence that is true of a text is about a name where it is written. -/
theorem Fault.IsOf.isWrittenAt {text : List Char} (h : f.IsOf o) (ho : o.IsTrue text)
    {n : Option Char × String} (hn : f.cause.name? = some n) :
    IsWrittenAt text f.place n.1 n.2 := by
  rw [h.1]
  exact ho n (h.2 ▸ hn)

end Trace

/-- If a text is not read because of a name, this name is written where the fault is. -/
theorem isWrittenAt_of_readChars {text : List Char} {f : Fault} {n : Option Char × String}
    (h : readChars text = .error f) (hn : f.cause.name? = some n) :
    IsWrittenAt text f.place n.1 n.2 := by
  have hscan := Scan.outcome_entities text
  have written {c : Cursor} (hc : c.Sound text) (h : ∃ o ∈ c.trace.reverse, f.IsOf o) :
      IsWrittenAt text f.place n.1 n.2 := by
    obtain ⟨o, ho, hf⟩ := h
    exact hf.isWrittenAt (hc.trace o (List.mem_reverse.mp ho)) hn
  unfold readChars at h
  split at h
  case h_1 es c e =>
      rw [e] at hscan
      rcases Except.bind_eq_error.mp h with h | ⟨scope, hscope, h⟩
      · exact written hscan.1 (exists_mem_of_checkTrace h)
      · rcases Except.bind_eq_error.mp h with h | ⟨_, -, h⟩
        · exact written hscan.1 ((usedIn_of_checkTrace hscope).exists_of_close h)
        · cases h
  case h_2 fault c e =>
      -- a fault of the names that were read comes first, and the fault of the scan is not about one
      rw [e] at hscan
      rcases Except.bind_eq_error.mp h with h | ⟨_, -, h⟩
      · exact written hscan.1 (exists_mem_of_checkTrace h)
      · cases h
        rw [hscan.2] at hn
        cases hn

/-! ## Lines and columns -/

/-- The first line of a text is what stands in front of its first line end. -/
theorem head?_splitOn (c : Char) (s : List Char) :
    (s.splitOn c).head? = some (s.takeWhile (· != c)) := by
  induction s with
  | nil => rfl
  | cons d s ih =>
      rw [List.splitOn_cons_eq_if_modifyHead]
      by_cases hd : d = c
      · simp [hd]
      · simp [hd, ih]

theorem length_splitOn (c : Char) (s : List Char) : (s.splitOn c).length = s.count c + 1 := by
  induction s with
  | nil => rfl
  | cons d s ih =>
      rw [List.splitOn_cons_eq_if_modifyHead, List.count_cons]
      split
      · rw [List.length_cons, ih]
      · rw [List.length_modifyHead, ih]

/-- The piece around a place: the last piece in front of it and the first one behind it. -/
theorem getElem?_splitOn_append (c : Char) (front back : List Char) :
    ((front ++ back).splitOn c)[front.count c]? =
      some (front.rtakeWhile (· != c) ++ back.takeWhile (· != c)) := by
  induction front using List.reverseRecOn generalizing back with
  | nil => exact List.head?_eq_getElem?.symm.trans (head?_splitOn c back)
  | append_singleton front d ih =>
      rw [List.append_assoc, List.singleton_append, List.rtakeWhile_concat, List.count_append]
      by_cases hd : d = c
      · subst hd
        rw [List.splitOn_append_cons_self, List.count_singleton_self, ← length_splitOn,
          List.getElem?_append_right (Nat.le_refl _), Nat.sub_self, ← List.head?_eq_getElem?,
          head?_splitOn]
        simp
      · simp [hd, ih (d :: back)]

/-- The line of a place counts the line ends in front of it, and the column counts the characters
behind the last of these. -/
theorem location_append (front back : List Char) :
    location (front ++ back) back =
      (front.count '\n' + 1, (front.rtakeWhile (· != '\n')).length + 1) := by
  simp [location, locationAfter, List.rtakeWhile]

/-- A line end is no sigil, so a sigil in front of a place is in its line. -/
theorem filter_getLast?_rtakeWhile (front : List Char) :
    (front.rtakeWhile (· != '\n')).getLast?.filter isSigil = front.getLast?.filter isSigil := by
  induction front using List.reverseRecOn with
  | nil => rfl
  | append_singleton front c _ =>
      rw [List.rtakeWhile_concat]
      by_cases hc : c = '\n'
      · subst hc
        rw [List.getLast?_concat]
        rfl
      · simp [hc]

/-- The message ends with the name in quotes, behind its sigil. -/
def Cause.Quotes (cause : Cause) (sigil : Option Char) (name : String) : Prop :=
  ∃ before, cause.message = before ++ "'" ++ sigil.elim "" Char.toString ++ name ++ "'"

/-- The message of a fault of a name quotes the name, behind its sigil if it has one. -/
theorem Cause.quotes_of_name? {cause : Cause} {sigil : Option Char} {name : String}
    (h : cause.name? = some (sigil, name)) : cause.Quotes sigil name := by
  cases cause with
  | redefinedSymbol | redefinedValue =>
      cases h
      exact ⟨"redefinition of ", rfl⟩
  | redefinedBlock =>
      cases h
      exact ⟨"redefinition of block ", rfl⟩
  | duplicateParameter =>
      cases h
      exact ⟨"duplicate parameter ", rfl⟩
  | undefinedSymbol =>
      cases h
      exact ⟨"use of undefined global ", rfl⟩
  | undefinedValue =>
      cases h
      exact ⟨"use of undefined value ", rfl⟩
  | undefinedBlock =>
      cases h
      exact ⟨"use of undefined block ", rfl⟩
  | _ => cases h

/-- The line of the diagnostic is in the text, and from its column on the line reads the name and
nothing more that could be a part of it; the sigil is in front. -/
def Diagnostic.PointsAt (d : Diagnostic) (text : String) (sigil : Option Char) (name : String) :
    Prop :=
  ∃ front back, 0 < d.line ∧
    (text.toList.splitOn '\n')[d.line - 1]? = some (front ++ name.toList ++ back) ∧
    d.column = front.length + 1 ∧ front.getLast?.filter isSigil = sigil ∧
    IsIdentifier name ∧ ∀ c ∈ back.head?, isNameChar c = false

/-- A name that is written at a place is found from its line and its column. -/
theorem IsWrittenAt.pointsAt {text : String} {f : Fault} {sigil : Option Char} {name : String}
    (h : IsWrittenAt text.toList f.place sigil name) :
    (f.diagnostic text.toList).PointsAt text sigil name := by
  obtain ⟨hname, front, back, htext, hsigil, hplace, hback⟩ := h
  have hlocation := location_append front f.place
  have hline := getElem?_splitOn_append '\n' front f.place
  rw [← htext] at hlocation hline
  have hends : ∀ c ∈ name.toList, (c != '\n') = true := fun c hc =>
    bne_iff_ne.mpr (isPlain_of_isNameChar (hname.chars c hc)).ne_newline
  rw [hplace, List.takeWhile_append_of_pos hends, ← List.append_assoc] at hline
  refine ⟨front.rtakeWhile (· != '\n'), back.takeWhile (· != '\n'), ?_, ?_, ?_, ?_, hname, ?_⟩
  · simp [Fault.diagnostic, hlocation]
  · simpa [Fault.diagnostic, hlocation] using hline
  · simp [Fault.diagnostic, hlocation]
  · rw [filter_getLast?_rtakeWhile, hsigil]
  · rw [List.head?_takeWhile]
    exact fun c hc => hback c (Option.filter_eq_some_iff.mp hc).1

end Assembly

namespace Module

open Assembly

/-- If a text is not read because of a name, the diagnostic quotes this name and points at it. -/
theorem pointsAt_of_read {text : String} {d : Diagnostic} {sigil : Option Char} {name : String}
    (h : Module.read text = .error d) (hname : d.cause.name? = some (sigil, name)) :
    d.cause.Quotes sigil name ∧ d.PointsAt text sigil name := by
  obtain ⟨f, hf, rfl⟩ := Except.mapError_eq_error.mp h
  exact ⟨Cause.quotes_of_name? hname, (isWrittenAt_of_readChars hf hname).pointsAt⟩

/-- A value that is used before the end of its function, in a line with letters and blanks of
several bytes, but never defined. -/
def undefinedValueText : String :=
  "define void @f(%x) \x7b\nentry:\n  print \"\u00e9\",\u3000%missing, @g\n  ret %x\n\x7d\n"

/-- The name that is missing is quoted from the third line, where it begins at the fifteenth
character. -/
theorem undefinedValueText_pointsAt :
    Module.read undefinedValueText = .error ⟨3, 15, .undefinedValue "missing"⟩ ∧
      (Cause.undefinedValue "missing").Quotes (some '%') "missing" ∧
      (⟨3, 15, .undefinedValue "missing"⟩ : Diagnostic).PointsAt undefinedValueText (some '%')
        "missing" := by
  have hread : Module.read undefinedValueText = .error ⟨3, 15, .undefinedValue "missing"⟩ := by
    decide +kernel
  exact ⟨hread, pointsAt_of_read hread rfl⟩

end Module

end DeviceCode
