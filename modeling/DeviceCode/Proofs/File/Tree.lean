import DeviceCode.File.Tree
import DeviceCode.Proofs.Basic

/-!
# Files in directory trees

A path that leads to something that is no directory leads there through directories, and ends in the
name of that thing (`fileName?_of_follow`).  So writing a file leaves the ways to all other files as
they are, and files of other names are other files.
-/

namespace DeviceCode.FileTree

variable {t : FileTree} {l l' : Location} {path : String} {node : FileNode}

/-! ## Nodes -/

@[simp] theorem node?_nil (t : FileTree) : t.node? [] = some .directory := if_pos rfl

theorem node?_set_self (hl : l ≠ []) : (t.set l node).node? l = some node := by
  rw [node?, if_neg hl, set, List.find?_cons, BEq.rfl]
  rfl

/-- All other nodes are what they were. -/
theorem node?_set_of_ne (hne : l' ≠ l) : (t.set l node).node? l' = t.node? l' := by
  rw [node?, node?]
  by_cases hl : l' = []
  · rw [if_pos hl, if_pos hl]
  · have hfind : (t.nodes.filter (·.1 != l)).find? (·.1 == l') = t.nodes.find? (·.1 == l') := by
      rw [List.find?_filter]
      congr 1
      funext e
      by_cases he : e.1 = l'
      · simp [he, hne]
      · simp [he]
    rw [if_neg hl, if_neg hl, set, List.find?_cons, beq_false_of_ne (Ne.symm hne), hfind]

/-! ## Ways -/

/-- A location with directories all the way to it, itself included. -/
def IsDirectory (t : FileTree) (l : Location) : Prop :=
  ∀ l', l' <+: l → t.node? l' = some .directory

/-- The working directory is there. -/
def HasWorkingDirectory (t : FileTree) : Prop := t.IsDirectory t.workingDirectory

namespace IsDirectory

/-- The root is a directory. -/
theorem root (t : FileTree) : t.IsDirectory [] := by
  intro l' hl
  rw [List.prefix_nil.mp hl]
  exact t.node?_nil

theorem node? (h : t.IsDirectory l) : t.node? l = some .directory := h l (List.prefix_refl l)

/-- What stands above a directory is one. -/
theorem dropLast (h : t.IsDirectory l) : t.IsDirectory l.dropLast :=
  fun l' hl => h l' (hl.trans (List.dropLast_prefix l))

theorem concat {c : String} (h : t.IsDirectory l) (hc : t.node? (l ++ [c]) = some .directory) :
    t.IsDirectory (l ++ [c]) := by
  intro l' hl
  rcases List.prefix_concat_iff.mp hl with rfl | hl
  · exact hc
  · exact h l' hl

end IsDirectory

/-- Where a component leads from a directory: to a directory, or to what has its name. -/
theorem step_eq_ok {c : String} (hd : t.IsDirectory l) (h : t.step l c = .ok l') :
    t.IsDirectory l' ∨ l' = l ++ [c] ∧ c ≠ "." ∧ c ≠ ".." := by
  rw [step, hd.node?] at h
  dsimp only at h
  split at h
  case isTrue =>
    cases h
    exact .inl hd
  case isFalse hdot =>
    split at h
    case isTrue =>
      cases h
      exact .inl hd.dropLast
    case isFalse hdots =>
      split at h
      case isTrue => cases h
      case isFalse =>
        cases h
        exact .inr ⟨rfl, hdot, hdots⟩

/-- A step leads from directories only. -/
theorem step_from_directory {c : String} (h : t.step l c = .ok l') :
    t.node? l = some .directory := by
  rw [step] at h
  split at h
  case h_1 => cases h
  case h_2 => cases h
  case h_3 hd => exact hd

/-- What a way leads to through directories: to one of them, or to what has the last component's
name. -/
theorem foldlM_step {cs : List String} (hd : t.IsDirectory l) (h : cs.foldlM t.step l = .ok l') :
    t.IsDirectory l' ∨ ∃ init c l₀, cs = init ++ [c] ∧ l' = l₀ ++ [c] ∧ c ≠ "." ∧ c ≠ ".." := by
  induction cs generalizing l with
  | nil =>
      cases h
      exact .inl hd
  | cons c cs ih =>
      rw [List.foldlM_cons] at h
      obtain ⟨l₁, h₁, h₂⟩ := Except.bind_eq_ok.mp h
      have hrest : t.IsDirectory l₁ →
          t.IsDirectory l' ∨ ∃ init c' l₀, c :: cs = init ++ [c'] ∧ l' = l₀ ++ [c'] ∧
            c' ≠ "." ∧ c' ≠ ".." := by
        intro hd₁
        rcases ih hd₁ h₂ with hd' | ⟨init, c', l₀, rfl, hl, hc⟩
        · exact .inl hd'
        · exact .inr ⟨c :: init, c', l₀, rfl, hl, hc⟩
      rcases step_eq_ok hd h₁ with hd₁ | ⟨rfl, hdot, hdots⟩
      · exact hrest hd₁
      · cases cs with
        | nil =>
            cases h₂
            exact .inr ⟨[], c, l, rfl, rfl, hdot, hdots⟩
        | cons c' cs =>
            rw [List.foldlM_cons] at h₂
            obtain ⟨_, h₃, _⟩ := Except.bind_eq_ok.mp h₂
            exact hrest (hd.concat (step_from_directory h₃))

/-- Ways go through directories, so they stay as they are when another node is set. -/
theorem foldlM_step_set {cs : List String} {start : Location}
    (hl : t.node? l ≠ some .directory) (h : cs.foldlM t.step start = .ok l') :
    cs.foldlM (t.set l node).step start = .ok l' := by
  induction cs generalizing start with
  | nil => exact h
  | cons c cs ih =>
      rw [List.foldlM_cons] at h ⊢
      obtain ⟨l₁, h₁, h₂⟩ := Except.bind_eq_ok.mp h
      have hne : start ≠ l := by
        rintro rfl
        exact hl (step_from_directory h₁)
      have hstep : (t.set l node).step start c = .ok l₁ := by
        rw [step, node?_set_of_ne hne]
        exact h₁
      exact Except.bind_eq_ok.mpr ⟨l₁, hstep, ih h₂⟩

/-! ## Names -/

/-- The components of a path are its pieces that are not empty. -/
theorem components_eq_ok {cs : List String} (h : components path = .ok cs) :
    cs = ((Path.pieces path.toList).filter (· != [])).map String.ofList := by
  rw [components] at h
  split at h
  case isTrue => cases h
  case isFalse =>
    split at h
    case isTrue => cases h
    case isFalse =>
      split at h
      case isTrue => cases h
      case isFalse =>
        cases h
        rfl

/-- The last component of a path is the name at its end, if it is a name. -/
theorem fileName?_of_components {init : List String} {c : String}
    (h : components path = .ok (init ++ [c])) (hdot : c ≠ ".") (hdots : c ≠ "..") :
    Path.fileName? path = some c.toList := by
  have hcs := components_eq_ok h
  have hlast : ((Path.pieces path.toList).filter (· != [])).getLast? = some c.toList := by
    have hmap := congrArg List.getLast? hcs
    rw [List.getLast?_concat, List.getLast?_map] at hmap
    obtain ⟨piece, hp, hc⟩ := Option.map_eq_some_iff.mp hmap.symm
    rw [hp, ← hc, String.toList_ofList]
  obtain ⟨ps, hps⟩ := List.getLast?_eq_some_iff.mp hlast
  have hfilter : (Path.pieces path.toList).filter (!Path.isTrivial ·) =
      ((Path.pieces path.toList).filter (· != [])).filter (· != ['.']) := by
    rw [List.filter_filter]
    refine List.filter_congr fun p _ => ?_
    rw [Path.isTrivial, Bool.not_or, Bool.and_comm]
    rfl
  have hne : c.toList ≠ ['.'] := fun he => hdot (String.toList_inj.mp he)
  have hne' : c.toList ≠ Path.parentDirectory := fun he => hdots (String.toList_inj.mp he)
  rw [Path.fileName?, hfilter, hps, List.filter_append]
  simp [hne, hne']

/-- What a path leads to, if not to a directory, has the name at the end of the path. -/
theorem fileName?_of_follow (ht : t.HasWorkingDirectory) {cs : List String}
    (hc : components path = .ok cs) (h : t.follow path cs = .ok l)
    (hl : t.node? l ≠ some .directory) :
    ∃ name, Path.fileName? path = some name ∧ l.getLast? = some (String.ofList name) := by
  have hstart :
      t.IsDirectory (if path.toList.head? = some '/' then [] else t.workingDirectory) := by
    split
    · exact .root t
    · exact ht
  rcases foldlM_step hstart h with hd | ⟨init, c, l₀, rfl, rfl, hdot, hdots⟩
  · exact absurd hd.node? hl
  · refine ⟨c.toList, fileName?_of_components hc hdot hdots, ?_⟩
    rw [List.getLast?_concat, String.ofList_toList]

/-! ## Reading and writing -/

variable {t' : FileTree} {content old : List UInt8}

/-- A file is read if its path leads to it, and does not end as those of directories do. -/
theorem read_eq_ok :
    t.read path = .ok content ↔ ∃ cs l, components path = .ok cs ∧ t.follow path cs = .ok l ∧
      t.node? l = some (.file content) ∧ namesDirectory path = false := by
  constructor
  · intro h
    obtain ⟨l, hr, h⟩ := Except.bind_eq_ok.mp h
    obtain ⟨cs, hc, hf⟩ := Except.bind_eq_ok.mp hr
    split at h
    case h_1 => cases h
    case h_2 => cases h
    case h_3 content' hn =>
      split at h
      case isTrue => cases h
      case isFalse hd =>
        cases h
        exact ⟨cs, l, hc, hf, hn, by simpa using hd⟩
  · rintro ⟨cs, l, hc, hf, hn, hd⟩
    refine Except.bind_eq_ok.mpr ⟨l, Except.bind_eq_ok.mpr ⟨cs, hc, hf⟩, ?_⟩
    rw [hn, hd]
    rfl

/-- A write sets one node, which was a file or nothing. -/
theorem write_eq_ok (h : t.write path content = .ok t') :
    ∃ cs l, components path = .ok cs ∧ t.follow path cs = .ok l ∧
      t.node? l ≠ some .directory ∧ namesDirectory path = false ∧ t' = t.set l (.file content) := by
  obtain ⟨cs, hc, h⟩ := Except.bind_eq_ok.mp h
  split at h
  case isTrue => cases h
  case isFalse hd =>
    obtain ⟨l, hf, h⟩ := Except.bind_eq_ok.mp h
    split at h
    case h_1 => cases h
    case h_2 hn =>
      cases h
      exact ⟨cs, l, hc, hf, hn, by simpa using hd, rfl⟩

/-- Ways to other nodes do not lead through a file, so they stay when it is written. -/
theorem follow_set {cs : List String} (hl : t.node? l ≠ some .directory)
    (h : t.follow path cs = .ok l') : (t.set l node).follow path cs = .ok l' :=
  foldlM_step_set hl h

theorem ne_nil_of_node?_ne (hl : t.node? l ≠ some .directory) : l ≠ [] := by
  rintro rfl
  exact hl t.node?_nil

/-- The working directory is no file, so writing leaves it. -/
theorem hasWorkingDirectory_write (ht : t.HasWorkingDirectory)
    (h : t.write path content = .ok t') : t'.HasWorkingDirectory := by
  obtain ⟨cs, l, _, _, hl, _, rfl⟩ := write_eq_ok h
  intro l' hp
  have hd := ht l' hp
  rwa [node?_set_of_ne]
  rintro rfl
  exact hl hd

/-- A file is read back from the path to which it was written. -/
theorem read_write_self (h : t.write path content = .ok t') : t'.read path = .ok content := by
  obtain ⟨cs, l, hc, hf, hl, hd, rfl⟩ := write_eq_ok h
  exact read_eq_ok.mpr ⟨cs, l, hc, follow_set hl hf, node?_set_self (ne_nil_of_node?_ne hl), hd⟩

/-! ## Places -/

/-- The paths lead to one location. -/
def SamePlace (t : FileTree) (path other : String) : Prop :=
  ∃ l, t.resolve path = .ok l ∧ t.resolve other = .ok l

instance (t : FileTree) (path other : String) : Decidable (t.SamePlace path other) :=
  match h : t.resolve path with
  | .error _ => isFalse fun ⟨_, hl, _⟩ => by rw [h] at hl; cases hl
  | .ok l =>
    decidable_of_iff (t.resolve other = .ok l)
      ⟨fun hl => ⟨l, h, hl⟩, fun ⟨_, hl, hl'⟩ => Except.ok.inj (h.symm.trans hl) ▸ hl'⟩

theorem resolve_eq_ok :
    t.resolve path = .ok l ↔ ∃ cs, components path = .ok cs ∧ t.follow path cs = .ok l :=
  Except.bind_eq_ok

/-- No way leads through what is no directory, before it is set or afterwards. -/
theorem foldlM_step_of_set {cs : List String} {start : Location} (hl : l ≠ [])
    (hnode : node ≠ .directory) (h : cs.foldlM (t.set l node).step start = .ok l') :
    cs.foldlM t.step start = .ok l' := by
  induction cs generalizing start with
  | nil => exact h
  | cons c cs ih =>
      rw [List.foldlM_cons] at h ⊢
      obtain ⟨l₁, h₁, h₂⟩ := Except.bind_eq_ok.mp h
      have hne : start ≠ l := by
        rintro rfl
        have hd := step_from_directory h₁
        rw [node?_set_self hl, Option.some.injEq] at hd
        exact hnode hd
      have hstep : t.step start c = .ok l₁ := by
        rw [step, node?_set_of_ne hne] at h₁
        exact h₁
      exact Except.bind_eq_ok.mpr ⟨l₁, hstep, ih h₂⟩

/-- Where paths lead does not change when a file is written. -/
theorem resolve_write_iff (h : t.write path content = .ok t') {other : String} :
    t'.resolve other = .ok l ↔ t.resolve other = .ok l := by
  obtain ⟨_, l₀, _, _, hl₀, _, rfl⟩ := write_eq_ok h
  rw [resolve_eq_ok, resolve_eq_ok]
  constructor
  · rintro ⟨cs, hc, hf⟩
    exact ⟨cs, hc, foldlM_step_of_set (ne_nil_of_node?_ne hl₀) FileNode.noConfusion hf⟩
  · rintro ⟨cs, hc, hf⟩
    exact ⟨cs, hc, follow_set hl₀ hf⟩

/-- Two paths lead to one place after a write exactly if they did before it. -/
theorem samePlace_write_iff (h : t.write path content = .ok t') {p q : String} :
    t'.SamePlace p q ↔ t.SamePlace p q :=
  exists_congr fun _ => and_congr (resolve_write_iff h) (resolve_write_iff h)

/-- A file is replaced through every path that leads to its place. -/
theorem read_write_of_samePlace (h : t.write path content = .ok t') {other : String}
    (hr : t.read other = .ok old) (hplace : t.SamePlace path other) :
    t'.read other = .ok content := by
  obtain ⟨cs, l, hc, hf, hl, _, rfl⟩ := write_eq_ok h
  obtain ⟨cs', l', hc', hf', _, hd⟩ := read_eq_ok.mp hr
  obtain ⟨place, hp, hp'⟩ := hplace
  obtain rfl : l = place := Except.ok.inj ((resolve_eq_ok.mpr ⟨cs, hc, hf⟩).symm.trans hp)
  obtain rfl : l' = l := Except.ok.inj ((resolve_eq_ok.mpr ⟨cs', hc', hf'⟩).symm.trans hp')
  exact read_eq_ok.mpr ⟨cs', l', hc', follow_set hl hf', node?_set_self (ne_nil_of_node?_ne hl), hd⟩

theorem read_write_of_not_samePlace (h : t.write path content = .ok t') {other : String}
    (hr : t.read other = .ok old) (hplace : ¬ t.SamePlace path other) :
    t'.read other = .ok old := by
  obtain ⟨cs, l, hc, hf, hl, _, rfl⟩ := write_eq_ok h
  obtain ⟨cs', l', hc', hf', hn, hd⟩ := read_eq_ok.mp hr
  have hne : l' ≠ l := by
    rintro rfl
    exact hplace ⟨l', resolve_eq_ok.mpr ⟨cs, hc, hf⟩, resolve_eq_ok.mpr ⟨cs', hc', hf'⟩⟩
  exact read_eq_ok.mpr ⟨cs', l', hc', follow_set hl hf', by rw [node?_set_of_ne hne, hn], hd⟩

/-- Paths that lead to one file end in one name. -/
theorem fileName?_of_samePlace (ht : t.HasWorkingDirectory) {other : String}
    (hr : t.read other = .ok old) (hplace : t.SamePlace path other) :
    Path.fileName? path = Path.fileName? other := by
  obtain ⟨cs', l', hc', hf', hn, _⟩ := read_eq_ok.mp hr
  obtain ⟨l, hp, hp'⟩ := hplace
  obtain rfl : l' = l := Except.ok.inj ((resolve_eq_ok.mpr ⟨cs', hc', hf'⟩).symm.trans hp')
  obtain ⟨cs, hc, hf⟩ := resolve_eq_ok.mp hp
  have hl : t.node? l' ≠ some .directory := by
    rw [hn]
    exact nofun
  obtain ⟨name, hname, hlast⟩ := fileName?_of_follow ht hc hf hl
  obtain ⟨name', hname', hlast'⟩ := fileName?_of_follow ht hc' hf' hl
  rw [hlast, Option.some.injEq] at hlast'
  rw [hname, hname', String.ofList_injective hlast']

/-- A write keeps the files of other names, for these are in other places. -/
theorem read_write_of_ne (ht : t.HasWorkingDirectory) {other : String}
    (hne : Path.fileName? path ≠ Path.fileName? other) (h : t.write path content = .ok t')
    (hr : t.read other = .ok old) : t'.read other = .ok old :=
  read_write_of_not_samePlace h hr fun hplace => hne (fileName?_of_samePlace ht hr hplace)

/-- No file of another name is made. -/
theorem read_of_read_write (ht : t.HasWorkingDirectory) {other : String}
    (hne : Path.fileName? path ≠ Path.fileName? other) (h : t.write path content = .ok t')
    (hr : t'.read other = .ok old) : t.read other = .ok old := by
  have hplace : ¬ t.SamePlace path other := fun hplace =>
    hne (fileName?_of_samePlace (hasWorkingDirectory_write ht h) hr
      ((samePlace_write_iff h).mpr hplace))
  obtain ⟨cs', l', hc', hf', hn, hd⟩ := read_eq_ok.mp hr
  have hresolve := (resolve_write_iff h).mp (resolve_eq_ok.mpr ⟨cs', hc', hf'⟩)
  obtain ⟨cs, l, hc, hf, hl, _, rfl⟩ := write_eq_ok h
  have hne : l' ≠ l := by
    rintro rfl
    exact hplace ⟨l', resolve_eq_ok.mpr ⟨cs, hc, hf⟩, hresolve⟩
  rw [node?_set_of_ne hne] at hn
  obtain ⟨cs'', hc'', hf''⟩ := resolve_eq_ok.mp hresolve
  exact read_eq_ok.mpr ⟨cs'', l', hc'', hf'', hn, hd⟩

end DeviceCode.FileTree
