import DeviceCode.Proofs.File.Tree
import DeviceCode.Proofs.Run.Store
import DeviceCode.Run.Session

/-!
# Sessions keep files

The directory tree of a session keeps files apart, whatever is written to its standard output and
whether that is a terminal.
-/

namespace DeviceCode.Session

/-- A path is written to the stream or to the tree. -/
theorem write_eq_ok {s s' : Session} {path : String} {content : List UInt8}
    (h : s.write path content = .ok s') :
    path = "-" ∧ s'.tree = s.tree ∨ path ≠ "-" ∧ s.tree.write path content = .ok s'.tree := by
  rw [write] at h
  split at h
  case isTrue hp =>
    cases h
    exact .inl ⟨hp, rfl⟩
  case isFalse hp =>
    cases hw : s.tree.write path content with
    | error fault =>
        rw [hw] at h
        cases h
    | ok tree =>
        rw [hw] at h
        cases h
        exact .inr ⟨hp, rfl⟩

/-- A session keeps files apart, since its tree does; what is written to the standard output is in
no file. -/
theorem keepsApart_storeOn (terminal : Bool) :
    (storeOn terminal).KeepsApart fun s => s.tree.HasWorkingDirectory where
  sound := by
    intro s s' path content hs h
    rcases write_eq_ok h with ⟨_, ht⟩ | ⟨_, hw⟩
    · rwa [ht]
    · exact FileTree.hasWorkingDirectory_write hs hw
  written := by
    intro s s' path content _ hp h
    rcases write_eq_ok h with ⟨he, _⟩ | ⟨_, hw⟩
    · exact absurd he hp
    · change s'.read path = _
      rw [read, if_neg hp]
      exact FileTree.read_write_self hw
  others := by
    intro s s' path content other old hs hp hne h hr
    change s'.read other = _
    change s.read other = _ at hr
    rw [read, if_neg hp] at hr ⊢
    rcases write_eq_ok h with ⟨_, ht⟩ | ⟨_, hw⟩
    · rwa [ht]
    · exact FileTree.read_write_of_ne hs hne hw hr
  noOther := by
    intro s s' path content other new hs hp hne h hr
    change s.read other = _
    change s'.read other = _ at hr
    rw [read, if_neg hp] at hr ⊢
    rcases write_eq_ok h with ⟨_, ht⟩ | ⟨_, hw⟩
    · rwa [ht] at hr
    · exact FileTree.read_of_read_write hs hne hw hr

theorem keepsFiles_store : store.KeepsFiles fun s => s.tree.HasWorkingDirectory :=
  (keepsApart_storeOn false).toKeepsFiles

end DeviceCode.Session
