import DeviceCode.File.Path
import DeviceCode.Proofs.Basic
import DeviceCode.Proofs.SortedMap
import DeviceCode.Run.Host

/-!
# Stores that keep files

What a run may expect of a place for files: a file that is written can be read back, and it stays as
it is while files of other names are written.  So each of several files with different names has,
when all are written, what was written to it (`read_writeAll`), and a file of any other name is what
it was (`read_writeAll_iff`).
-/

namespace DeviceCode

namespace FileStore

variable {σ α β : Type} {fs : FileStore σ} {s s' s₁ : σ} {a : Artifact} {as : List Artifact}

/-! ## What a host with a state does -/

@[simp] theorem after_pure (x : α) : after (pure x) s = (s, x) := rfl

/-- One action behind another, on the state that the first one leaves. -/
@[simp] theorem after_bind (x : StateM σ α) (next : α → StateM σ β) :
    after (x >>= next) s = after (next (after x s).2) (after x s).1 := rfl

@[simp] theorem after_get : after (get : StateM σ σ) s = (s, s) := rfl

@[simp] theorem after_set : after (set s₁ : StateM σ PUnit) s = (s₁, ()) := rfl

/-- Whether a file is refused: it would go to a terminal and may not. -/
def refuses (fs : FileStore σ) (a : Artifact) : Bool :=
  a.guarded && a.path == "-" && fs.isTerminal

/-- Looking whether a file is refused leaves the state as it is. -/
@[simp] theorem after_refuses : after (fs.host.refuses a) s = (s, fs.refuses a) := by
  rw [Host.refuses, refuses]
  cases a.guarded && a.path == "-" with
  | true => rfl
  | false => rfl

/-- A file that cannot be opened leaves the state as it is. -/
theorem after_write_of_error {fault : FileFault} (h : fs.write s a.path a.content = .error fault) :
    after (fs.host.write a.path a.content) s = (s, .error fault) := by
  simp only [host, after_bind, after_get, h, after_pure]

theorem after_write_of_ok (h : fs.write s a.path a.content = .ok s₁) :
    after (fs.host.write a.path a.content) s = (s₁, .ok ()) := by
  simp only [host, after_bind, after_get, h, after_set, after_pure]

/-! ## Writing in order -/

/-- One file is written, unless it is refused or cannot be opened. -/
def save (fs : FileStore σ) (s : σ) (a : Artifact) : Except RunError σ :=
  if fs.refuses a then .error .binaryToTerminal
  else (fs.write s a.path a.content).mapError (.file a.path)

theorem save_of_not_refuses (h : fs.refuses a = false) :
    fs.save s a = (fs.write s a.path a.content).mapError (.file a.path) := by
  rw [save, h, if_neg Bool.false_ne_true]

theorem write_of_save (h : fs.save s a = .ok s₁) : fs.write s a.path a.content = .ok s₁ := by
  rw [save] at h
  split at h
  case isTrue => cases h
  case isFalse => exact Except.mapError_eq_ok.mp h

theorem writeAll_cons_of_ok (h : fs.save s a = .ok s₁) :
    fs.writeAll s (a :: as) = fs.writeAll s₁ as := by
  rw [save] at h
  split at h
  case isTrue => cases h
  case isFalse hr =>
    have hw := after_write_of_ok (Except.mapError_eq_ok.mp h)
    simp only [writeAll, Host.writeAll, after_bind, after_refuses, hr, Bool.false_eq_true,
      if_false, hw]

theorem writeAll_cons_of_error {e : RunError} (h : fs.save s a = .error e) :
    fs.writeAll s (a :: as) = (s, .error e) := by
  rw [save] at h
  split at h
  case isTrue hr =>
    cases h
    simp only [writeAll, Host.writeAll, after_bind, after_refuses, hr, if_true, after_pure]
  case isFalse hr =>
    obtain ⟨fault, hw, rfl⟩ := Except.mapError_eq_error.mp h
    have hw := after_write_of_error hw
    simp only [writeAll, Host.writeAll, after_bind, after_refuses, hr, Bool.false_eq_true,
      if_false, hw, after_pure]

/-- If all files are written, the first one is, and then the others. -/
theorem writeAll_cons_eq_ok (h : fs.writeAll s (a :: as) = (s', .ok ())) :
    ∃ s₁, fs.write s a.path a.content = .ok s₁ ∧ fs.writeAll s₁ as = (s', .ok ()) := by
  cases hsave : fs.save s a with
  | error e =>
      rw [writeAll_cons_of_error hsave] at h
      cases h
  | ok s₁ =>
      rw [writeAll_cons_of_ok hsave] at h
      exact ⟨s₁, write_of_save hsave, h⟩

/-- To carry out a plan is to write its files, and then to have its result. -/
theorem perform_eq (p : Plan) :
    fs.perform s p =
      ((fs.writeAll s p.writes).1, (fs.writeAll s p.writes).2.bind fun _ => p.result) := by
  rw [writeAll, perform, Host.perform, after_bind]
  cases (after (fs.host.writeAll p.writes) s).2 with
  | error e => rfl
  | ok => rfl

/-- Where files are kept, in the states that satisfy `Sound`.  The path `-` stands for streams and
not for a file.  A name stands for one file: symbolic links and hard links are left out. -/
structure KeepsFiles (fs : FileStore σ) (Sound : σ → Prop) : Prop where
  sound : ∀ {s s' path content}, Sound s → fs.write s path content = .ok s' → Sound s'
  written : ∀ {s s' path content}, Sound s → path ≠ "-" → fs.write s path content = .ok s' →
    fs.read s' path = .ok content
  others : ∀ {s s' path content other old}, Sound s → other ≠ "-" →
    Path.fileName? path ≠ Path.fileName? other → fs.write s path content = .ok s' →
    fs.read s other = .ok old → fs.read s' other = .ok old

/-- Where files are kept and a write makes no file of another name. -/
structure KeepsApart (fs : FileStore σ) (Sound : σ → Prop) : Prop extends fs.KeepsFiles Sound where
  noOther : ∀ {s s' path content other new}, Sound s → other ≠ "-" →
    Path.fileName? path ≠ Path.fileName? other → fs.write s path content = .ok s' →
    fs.read s' other = .ok new → fs.read s other = .ok new

namespace KeepsFiles

variable {Sound : σ → Prop}

/-- A file outlives the writing of files of other names. -/
theorem read_writeAll_of_ne (hfs : fs.KeepsFiles Sound) (hs : Sound s)
    (h : fs.writeAll s as = (s', .ok ())) {path : String} (hp : path ≠ "-")
    (hne : ∀ a ∈ as, Path.fileName? a.path ≠ Path.fileName? path) {content : List UInt8}
    (hr : fs.read s path = .ok content) : fs.read s' path = .ok content := by
  induction as generalizing s with
  | nil =>
      cases h
      exact hr
  | cons a as ih =>
      obtain ⟨s₁, h₁, h₂⟩ := writeAll_cons_eq_ok h
      obtain ⟨ha, has⟩ := List.forall_mem_cons.mp hne
      exact ih (hfs.sound hs h₁) h₂ has (hfs.others hs hp ha h₁ hr)

/-- A file that is written among files of other names is there in the end. -/
theorem read_writeAll (hfs : fs.KeepsFiles Sound) (hs : Sound s)
    (h : fs.writeAll s as = (s', .ok ())) (ha : a ∈ as) (hp : a.path ≠ "-")
    (hne : ∀ b ∈ as, b ≠ a → Path.fileName? b.path ≠ Path.fileName? a.path) :
    fs.read s' a.path = .ok a.content := by
  induction as generalizing s with
  | nil => cases ha
  | cons b as ih =>
      obtain ⟨s₁, h₁, h₂⟩ := writeAll_cons_eq_ok h
      obtain ⟨hb, has⟩ := List.forall_mem_cons.mp hne
      by_cases hmem : a ∈ as
      · exact ih (hfs.sound hs h₁) h₂ hmem has
      · obtain rfl := (List.mem_cons.mp ha).resolve_right hmem
        refine hfs.read_writeAll_of_ne (hfs.sound hs h₁) h₂ hp (fun c hc => ?_)
          (hfs.written hs hp h₁)
        refine has c hc ?_
        rintro rfl
        exact hmem hc

end KeepsFiles

/-- A file is what it was if only files of other names were written. -/
theorem KeepsApart.read_writeAll_iff {Sound : σ → Prop} (hfs : fs.KeepsApart Sound) (hs : Sound s)
    (h : fs.writeAll s as = (s', .ok ())) {path : String} (hp : path ≠ "-")
    (hne : ∀ a ∈ as, Path.fileName? a.path ≠ Path.fileName? path) {content : List UInt8} :
    fs.read s' path = .ok content ↔ fs.read s path = .ok content := by
  induction as generalizing s with
  | nil =>
      cases h
      exact Iff.rfl
  | cons a as ih =>
      obtain ⟨s₁, h₁, h₂⟩ := writeAll_cons_eq_ok h
      obtain ⟨ha, has⟩ := List.forall_mem_cons.mp hne
      rw [ih (hfs.sound hs h₁) h₂ has]
      exact ⟨hfs.noOther hs hp ha h₁, hfs.others hs hp ha h₁⟩

end FileStore

/-! ## Maps from paths -/

/-- The store that has a content for some paths, and where every path can be written. -/
def FileStore.pathMap : FileStore (SortedMap (List UInt8)) where
  read s path :=
    match s.get? path with
    | some content => .ok content
    | none => .error .notFound
  write s path content := .ok (s.insert path content)
  isTerminal := false

theorem FileStore.read_pathMap_insert (s : SortedMap (List UInt8)) (path other : String)
    (content : List UInt8) :
    pathMap.read (s.insert path content) other =
      if other = path then .ok content else pathMap.read s other := by
  by_cases h : other = path
  · simp [pathMap, SortedMap.insert, h]
  · simp [pathMap, SortedMap.insert, h]

/-- A write to a map changes its own path only. -/
theorem FileStore.keepsApart_pathMap : pathMap.KeepsApart fun _ => True where
  sound _ _ := trivial
  written := by
    intro s s' path content _ _ h
    cases h
    rw [read_pathMap_insert, if_pos rfl]
  others := by
    intro s s' path content other old _ _ hne h hr
    cases h
    rw [read_pathMap_insert, if_neg, hr]
    rintro rfl
    exact hne rfl
  noOther := by
    intro s s' path content other new _ _ hne h hr
    cases h
    rw [read_pathMap_insert, if_neg] at hr
    · exact hr
    · rintro rfl
      exact hne rfl

theorem FileStore.keepsFiles_pathMap : pathMap.KeepsFiles fun _ => True :=
  keepsApart_pathMap.toKeepsFiles

end DeviceCode
