import DeviceCode.Proofs.Run.Session

/-!
# Stores with places

Different paths may lead to one place, and a file that is written replaces whatever is at its place.
So a file that is there before a run is there afterwards as it was, or it is the last one of the
files that were written to its place (`read_writeAll_cases`).
-/

namespace DeviceCode

variable {σ : Type}

/-- Where paths lead to places, in the states that satisfy `Sound`.  The path `-` stands for streams
and not for a file.  Places have one name each: symbolic links and hard links are left out. -/
structure FileStore.HasPlaces (fs : FileStore σ) (Sound : σ → Prop)
    (SamePlace : σ → String → String → Prop) : Prop where
  sound : ∀ {s s' path content}, Sound s → fs.write s path content = .ok s' → Sound s'
  stable : ∀ {s s' path content}, Sound s → fs.write s path content = .ok s' →
    ∀ p q, SamePlace s' p q ↔ SamePlace s p q
  replaced : ∀ {s s' path content other old}, Sound s → other ≠ "-" →
    fs.write s path content = .ok s' → fs.read s other = .ok old → SamePlace s path other →
    fs.read s' other = .ok content
  kept : ∀ {s s' path content other old}, Sound s → other ≠ "-" →
    fs.write s path content = .ok s' → fs.read s other = .ok old → ¬ SamePlace s path other →
    fs.read s' other = .ok old
  name : ∀ {s path other old}, Sound s → other ≠ "-" → fs.read s other = .ok old →
    SamePlace s path other → Path.fileName? path = Path.fileName? other

namespace FileStore.HasPlaces

variable {fs : FileStore σ} {Sound : σ → Prop} {SamePlace : σ → String → String → Prop} {s s' : σ}

/-- A file is in the end what it was, if nothing was written to its place, or else what was written
there. -/
theorem read_writeAll_cases (hfs : fs.HasPlaces Sound SamePlace) (hs : Sound s)
    {as : List Artifact} (h : fs.writeAll s as = (s', .ok ())) {path : String} (hp : path ≠ "-")
    {old : List UInt8} (hr : fs.read s path = .ok old) :
    (∀ a ∈ as, ¬ SamePlace s a.path path) ∧ fs.read s' path = .ok old ∨
      ∃ a ∈ as, SamePlace s a.path path ∧ fs.read s' path = .ok a.content := by
  induction as generalizing s old with
  | nil =>
      cases h
      exact .inl ⟨nofun, hr⟩
  | cons a as ih =>
      obtain ⟨s₁, h₁, h₂⟩ := FileStore.writeAll_cons_eq_ok h
      have hs₁ := hfs.sound hs h₁
      have hstable : ∀ b : Artifact, SamePlace s₁ b.path path ↔ SamePlace s b.path path :=
        fun b => hfs.stable hs h₁ _ _
      by_cases hplace : SamePlace s a.path path
      · rcases ih hs₁ h₂ (hfs.replaced hs hp h₁ hr hplace) with ⟨_, hkept⟩ | ⟨b, hb, hsame, hlast⟩
        · exact .inr ⟨a, List.mem_cons_self, hplace, hkept⟩
        · exact .inr ⟨b, List.mem_cons_of_mem _ hb, (hstable b).mp hsame, hlast⟩
      · rcases ih hs₁ h₂ (hfs.kept hs hp h₁ hr hplace) with ⟨hnone, hkept⟩ | ⟨b, hb, hsame, hlast⟩
        · refine .inl ⟨List.forall_mem_cons.mpr ⟨hplace, ?_⟩, hkept⟩
          exact fun b hb hsame => hnone b hb ((hstable b).mpr hsame)
        · exact .inr ⟨b, List.mem_cons_of_mem _ hb, (hstable b).mp hsame, hlast⟩

/-- If the files that are written all have names of their own, at most one is at the place of a
file, and is what it becomes. -/
theorem read_writeAll_of_samePlace (hfs : fs.HasPlaces Sound SamePlace) (hs : Sound s)
    {as : List Artifact} (h : fs.writeAll s as = (s', .ok ())) {path : String} (hp : path ≠ "-")
    {old : List UInt8} (hr : fs.read s path = .ok old)
    (hnames : (as.map (Path.fileName? ·.path)).Nodup) {a : Artifact} (ha : a ∈ as)
    (hplace : SamePlace s a.path path) : fs.read s' path = .ok a.content := by
  rcases hfs.read_writeAll_cases hs h hp hr with ⟨hnone, _⟩ | ⟨b, hb, hsame, hlast⟩
  · exact absurd hplace (hnone a ha)
  · have hname := (hfs.name hs hp hr hplace).trans (hfs.name hs hp hr hsame).symm
    obtain rfl := List.inj_on_of_nodup_map hnames ha hb hname
    exact hlast

end FileStore.HasPlaces

namespace Session

/-- The paths lead to one location in the directory tree. -/
def SamePlace (s : Session) (path other : String) : Prop :=
  path ≠ "-" ∧ s.tree.SamePlace path other

instance (s : Session) (path other : String) : Decidable (s.SamePlace path other) :=
  inferInstanceAs (Decidable (_ ∧ _))

theorem hasPlaces_store : store.HasPlaces (fun s => s.tree.HasWorkingDirectory) SamePlace where
  sound hs h := keepsFiles_store.sound hs h
  stable := by
    intro s s' path content _ h p q
    rcases write_eq_ok h with ⟨_, ht⟩ | ⟨_, hw⟩
    · rw [SamePlace, SamePlace, ht]
    · exact and_congr_right fun _ => FileTree.samePlace_write_iff hw
  replaced := by
    rintro s s' path content other old _ hp h hr ⟨hpath, hplace⟩
    change s'.read other = _
    change s.read other = _ at hr
    rw [read, if_neg hp] at hr ⊢
    rcases write_eq_ok h with ⟨he, _⟩ | ⟨_, hw⟩
    · exact absurd he hpath
    · exact FileTree.read_write_of_samePlace hw hr hplace
  kept := by
    intro s s' path content other old _ hp h hr hplace
    change s'.read other = _
    change s.read other = _ at hr
    rw [read, if_neg hp] at hr ⊢
    rcases write_eq_ok h with ⟨_, ht⟩ | ⟨hpath, hw⟩
    · rwa [ht]
    · exact FileTree.read_write_of_not_samePlace hw hr fun hsame => hplace ⟨hpath, hsame⟩
  name := by
    rintro s path other old hs hp hr ⟨_, hplace⟩
    change s.read other = _ at hr
    rw [read, if_neg hp] at hr
    exact FileTree.fileName?_of_samePlace hs hr hplace

end Session

end DeviceCode
