import DeviceCode.File.Path
import DeviceCode.Proofs.Basic

/-!
# Names at the end of paths

A name that is put into a directory is the last component of the path, and an extension that is put
behind a stem can be taken away again.
-/

namespace DeviceCode

namespace Path

/-! ## Last components -/

theorem not_mem_of_mem_pieces {piece path : List Char} (h : piece ∈ pieces path) : '/' ∉ piece :=
  (mem_splitOn h).1

/-- The last component of a path has no slash. -/
theorem not_mem_of_fileName? {path : String} {name : List Char} (h : fileName? path = some name) :
    '/' ∉ name := by
  unfold fileName? at h
  split at h
  case h_1 last hl =>
    split at h
    case isTrue => cases h
    case isFalse =>
      cases h
      exact not_mem_of_mem_pieces (List.mem_filter.mp (List.mem_of_getLast? hl)).1
  case h_2 => cases h

/-- A component that is a name: it adds something, and does not lead upwards. -/
structure IsName (name : List Char) : Prop where
  slash : '/' ∉ name
  nontrivial : isTrivial name = false
  ne_parent : name ≠ parentDirectory

/-- The last piece of a path is its last component, unless it stands for a directory. -/
theorem fileName?_eq_of_pieces {path : String} {name : List Char} (hn : IsName name)
    (ps : List (List Char)) (h : pieces path.toList = ps ++ [name]) :
    fileName? path = some name := by
  rw [fileName?, h, List.filter_append, List.filter_singleton, hn.nontrivial]
  simp [hn.ne_parent]

theorem pieces_append {start name : List Char} (hn : '/' ∉ name) :
    pieces (start ++ '/' :: name) = pieces start ++ [name] := by
  rw [pieces, List.splitOn_append_cons_self, List.splitOn_eq_singleton hn]
  rfl

/-- What is joined to a directory is the last component. -/
theorem fileName?_join {name : String} (hn : IsName name.toList) (directory : String) :
    fileName? (join directory name) = some name.toList := by
  have hhead : name.toList.head? ≠ some '/' := fun he => hn.slash (List.mem_of_head? he)
  rw [join, if_neg hhead]
  by_cases hd : directory = ""
  · subst hd
    refine fileName?_eq_of_pieces hn [] ?_
    rw [if_pos (.inl rfl), String.empty_append, pieces, List.splitOn_eq_singleton hn.slash]
    rfl
  by_cases hs : directory.toList.getLast? = some '/'
  · obtain ⟨start, he⟩ := List.getLast?_eq_some_iff.mp hs
    refine fileName?_eq_of_pieces hn (pieces start) ?_
    rw [if_pos (.inr hs), String.toList_append, he, List.append_assoc, List.singleton_append,
      pieces_append hn.slash]
  · refine fileName?_eq_of_pieces hn (pieces directory.toList) ?_
    rw [if_neg (not_or.mpr ⟨hd, hs⟩), String.toList_append, String.toList_append, List.append_assoc]
    exact pieces_append hn.slash

/-- What a joined path has in it, but for the slash between its parts. -/
theorem mem_toList_join {name : String} (hn : name.toList.head? ≠ some '/') {directory : String}
    {c : Char} (hc : c ≠ '/') :
    c ∈ (join directory name).toList ↔ c ∈ directory.toList ∨ c ∈ name.toList := by
  rw [join, if_neg hn]
  split
  · rw [String.toList_append, List.mem_append]
  · simp [hc]

/-! ## Stems and extensions -/

/-- A dot, and then neither a dot nor a slash. -/
def IsExtension (extension : String) : Prop :=
  ∃ rest, extension.toList = '.' :: rest ∧ '.' ∉ rest ∧ '/' ∉ rest

theorem mem_of_mem_stemOf {name : List Char} {c : Char} (h : c ∈ stemOf name) : c ∈ name := by
  unfold stemOf at h
  split at h
  case h_1 d before hd =>
    split at h
    case isTrue => exact h
    case isFalse =>
      have hb : c ∈ name.reverse.dropWhile (· != '.') := by
        rw [hd]
        exact List.mem_cons_of_mem _ (List.mem_reverse.mp h)
      exact List.mem_reverse.mp ((List.dropWhile_sublist _).mem hb)
  case h_2 => exact h

/-- An extension without a dot is taken away again. -/
theorem stemOf_append {base extension : List Char} (hb : base ≠ []) (he : '.' ∉ extension) :
    stemOf (base ++ '.' :: extension) = base := by
  have hdrop : (base ++ '.' :: extension).reverse.dropWhile (· != '.') = '.' :: base.reverse := by
    have hall : ∀ c ∈ extension.reverse, (c != '.') = true := by
      intro c hc
      rw [bne_iff_ne]
      rintro rfl
      exact he (List.mem_reverse.mp hc)
    rw [List.reverse_append, List.reverse_cons, List.append_assoc,
      List.dropWhile_append_of_pos hall]
    rfl
  rw [stemOf, hdrop]
  simp [hb]

end Path

end DeviceCode
