import DeviceCode.Proofs.Run.Content
import DeviceCode.Proofs.Run.Places
import DeviceCode.Proofs.Run.Rows

/-!
# The input in the table

If there is nothing to write into a code file, the table lists the input in its place.  A run does
not compare the paths that it is given, so one of the files that it writes may be at the place of
the input.  Neither a table nor a property file is a module, so the input is lost then
(`reused_input_of_run`).
-/

namespace DeviceCode

/-! ## What is no module -/

/-- A table begins with the bracket of its header. -/
theorem Table.head?_text (t : Table) : t.text.toList.head? = some '[' := by
  rw [text, String.append_assoc, String.append_assoc, String.toList_append]
  rfl

theorem PropertyRegistry.head?_text_addSpecIds (ids : SpecIds) :
    (text (addSpecIds .empty ids)).toList.head? = some '[' := by
  have hentries : ∃ set, (addSpecIds .empty ids).entries = [(specConstants, set)] := ⟨_, rfl⟩
  obtain ⟨set, hset⟩ := hentries
  rw [text, hset, List.map_singleton, String.join_cons, String.join_nil, String.append_empty,
    categoryText, String.append_assoc, String.append_assoc, String.toList_append]
  rfl

namespace Options

variable {o : Options} {groups : KernelGroups} {lowered : Bool} {m m' : Module}

/-! ## The files of one row -/

/-- What a run writes that lists the input: files of its one row, and the table. -/
theorem forall_mem_tableFiles_of_reused {modules : List Module} {t : Table}
    {P : String → List UInt8 → Prop} (hlowered : lowered = false) (hmodules : modules.length = 1)
    (hlists : (o.symbolLists groups).length = 1) :
    (∀ a ∈ o.tableFiles (o.artifactKinds groups lowered modules) t, P a.path a.content) ↔
      (o.specConstants = some .runtime → P (o.resultPath ".prop" 0)
        (utf8 (PropertyRegistry.text (PropertyRegistry.addSpecIds .empty .empty)))) ∧
      (o.symbols → ∀ list ∈ o.symbolLists groups, P (o.resultPath ".sym" 0) (utf8 list)) ∧
      P o.outputPath (utf8 t.text) := by
  obtain ⟨p, rfl⟩ := List.length_eq_one_iff.mp hmodules
  obtain ⟨list, hlist⟩ := List.length_eq_one_iff.mp hlists
  subst hlowered
  have hcode : o.numbered (o.codeFiles (if false || 1 < [p].length then [p] else [])) = [] := rfl
  rw [tableFiles, artifactKinds, files, List.flatMap_cons, hcode, List.nil_append,
    List.flatMap_append, List.forall_mem_append, List.forall_mem_append, List.forall_mem_singleton,
    and_assoc]
  refine and_congr ?_ (and_congr_left' ?_)
  · split
    case isTrue h => simp [h, numbered, propertyFiles]
    case isFalse h => simp [h]
  · split
    case isTrue h => simp [h, numbered, symbolFiles, hlist]
    case isFalse h => simp [h]

/-! ## Runs -/

variable {σ : Type} {fs : FileStore σ} {Sound : σ → Prop} {SamePlace : σ → String → String → Prop}
  {s s' : σ}

/-- A file is read as a module in the end exactly if whatever was written to its place is. -/
theorem ofContent_writeAll_iff (hfs : fs.HasPlaces Sound SamePlace) (hs : Sound s)
    {as : List Artifact} (h : fs.writeAll s as = (s', .ok ()))
    (hnames : (as.map (Path.fileName? ·.path)).Nodup) {path : String} (hp : path ≠ "-")
    {old : List UInt8} (hr : fs.read s path = .ok old) (hm : Module.ofContent path old = .ok m) :
    ∃ content, fs.read s' path = .ok content ∧
      ((∀ a ∈ as, ¬ SamePlace s a.path path) → content = old) ∧
      (Module.ofContent path content = .ok m ↔
        ∀ a ∈ as, SamePlace s a.path path → Module.ofContent path a.content = .ok m) := by
  rcases hfs.read_writeAll_cases hs h hp hr with ⟨hnone, hkept⟩ | ⟨a, ha, hplace, hlast⟩
  · refine ⟨old, hkept, fun _ => rfl, iff_of_true hm ?_⟩
    intro a ha hplace
    exact absurd hplace (hnone a ha)
  · refine ⟨a.content, hlast, fun hnone => absurd hplace (hnone a ha), ?_,
      fun hall => hall a ha hplace⟩
    intro hm' b hb hplace'
    have hb := hfs.read_writeAll_of_samePlace hs h hp hr hnames hb hplace'
    rw [← Except.ok.inj (hlast.symm.trans hb)]
    exact hm'

/-- A run that lists the input in its table, since it has nothing lowered and one module, leaves a
file there.  It is the input as it was if no file of the run was written to its place, and it is
read as the module of the input exactly if neither the table nor the property file was, and the
symbol list only if it is read as this module as well. -/
theorem reused_input_of_run (hfs : fs.HasPlaces Sound SamePlace) (hs : Sound s)
    (hinput : o.input ≠ "-") (hsingle : o.singleModule = false) {outcome : Outcome}
    (h : o.run fs s = (s', .ok outcome)) :
    ∃ (bytes : List UInt8) (m m' : Module) (lowered : Bool) (t : Table),
      fs.read s o.input = .ok bytes ∧ Module.ofContent o.input bytes = .ok m ∧
      o.lower m = .ok (m', lowered) ∧ ⟨o.outputPath, utf8 t.text, false⟩ ∈ (o.plan m).writes ∧
      (lowered = false → (o.modules (o.groups m) m').length = 1 →
        t.column? "Code" = some [o.input] ∧
        ∃ content, fs.read s' o.input = .ok content ∧
          ((∀ a ∈ (o.plan m).writes, ¬ SamePlace s a.path o.input) → content = bytes) ∧
          (Module.ofContent o.input content = .ok m ↔
            ¬ SamePlace s o.outputPath o.input ∧
            (o.specConstants = some .runtime → ¬ SamePlace s (o.resultPath ".prop" 0) o.input) ∧
            (o.symbols → SamePlace s (o.resultPath ".sym" 0) o.input →
              ∀ list ∈ o.symbolLists (o.groups m),
                Module.ofContent o.input (utf8 list) = .ok m))) := by
  obtain ⟨m, m', lowered, hrun, _, hwrites⟩ := ranToTable_fileTable hsingle h
  obtain ⟨bytes, hread, hm⟩ := hrun.read
  refine ⟨bytes, m, m', lowered, o.fileTable (o.groups m) lowered, hread, hm, hrun.lower, ?_⟩
  rw [hwrites]
  refine ⟨List.mem_append_right _ List.mem_cons_self, fun hlowered hmodules => ⟨?_, ?_⟩⟩
  · obtain ⟨hcolumn, _⟩ := hrun.columns _ List.mem_cons_self
    have hcode : ¬ (lowered || 1 < (o.modules (o.groups m) m').length) := by
      rw [hlowered, hmodules]
      decide
    rw [codeColumn, if_neg hcode] at hcolumn
    exact hcolumn
  · obtain ⟨content, hcontent, hkept, hiff⟩ := ofContent_writeAll_iff hfs hs hrun.writes
      (nodup_fileNames_tableFiles isExtension_artifactKinds nodup_artifactKinds _) hinput hread hm
    refine ⟨content, hcontent, hkept, hiff.trans ?_⟩
    have hlists : (o.symbolLists (o.groups m)).length = 1 := by
      rw [length_symbolLists, ← o.length_modules _ m', hmodules]
    refine (forall_mem_tableFiles_of_reused (P := fun path content =>
      SamePlace s path o.input → Module.ofContent o.input content = .ok m)
      hlowered hmodules hlists).trans ?_
    have htable := Module.ofContent_bracket
      (Table.head?_text (o.fileTable (o.groups m) lowered)) o.input m
    have hproperties := Module.ofContent_bracket
      (PropertyRegistry.head?_text_addSpecIds .empty) o.input m
    constructor
    · rintro ⟨hprop, hsym, hout⟩
      refine ⟨fun hplace => htable (hout hplace), ?_, ?_⟩
      · exact fun hruntime hplace => hproperties (hprop hruntime hplace)
      · exact fun hsymbols hplace list hlist => hsym hsymbols list hlist hplace
    · rintro ⟨hout, hprop, hsym⟩
      refine ⟨?_, ?_, fun hplace => absurd hplace hout⟩
      · exact fun hruntime hplace => absurd hplace (hprop hruntime)
      · exact fun hsymbols list hlist hplace => hsym hsymbols hplace list hlist

def namesakeOptions : Options :=
  { standard with input := "d/../in.bc", output := some "d/in.bc", symbols := true }

def namesakeSession : Session where
  tree := ⟨[(["d"], .directory), (["in.bc"], .file twoSources.toBytes)], []⟩
  input := []
  output := []

/-- The input is kept beside a table of the same name in another directory. -/
theorem namesake_reused :
    ∃ s', namesakeOptions.run Session.store namesakeSession = (s', .ok (.table "d/in.bc" 1)) ∧
      Session.store.read s' "d/../in.bc" = .ok twoSources.toBytes := by
  have hm : Module.ofContent namesakeOptions.input twoSources.toBytes = .ok twoSources :=
    ofContent_toBytes (by decide +kernel) _
  have hread :
      Session.store.read namesakeSession namesakeOptions.input = .ok twoSources.toBytes := by
    decide +kernel
  have hresult : (namesakeOptions.run Session.store namesakeSession).2 =
      .ok (.table "d/in.bc" 1) := by
    rw [run_eq_perform rfl hread hm]
    decide +kernel
  have hrun : namesakeOptions.run Session.store namesakeSession = (_, .ok (.table "d/in.bc" 1)) :=
    eq_mk_of_snd_eq hresult
  have hs : namesakeSession.tree.HasWorkingDirectory := .root _
  obtain ⟨bytes, m, m', lowered, t, hread₁, hm₁, hl, _, hreused⟩ :=
    reused_input_of_run Session.hasPlaces_store hs (by decide) rfl hrun
  obtain rfl := Except.ok.inj (hread.symm.trans hread₁)
  obtain rfl := Except.ok.inj (hm.symm.trans hm₁)
  obtain ⟨rfl, rfl⟩ := Prod.mk.inj (Except.ok.inj hl)
  obtain ⟨_, content, hcontent, hkept, _⟩ := hreused rfl (by decide +kernel)
  refine ⟨_, hrun, ?_⟩
  rw [hkept] at hcontent
  · exact hcontent
  · decide +kernel

def replacedOptions : Options := { standard with input := "in.files", symbols := true }

def replacedSession : Session where
  tree := ⟨[(["in.files"], .file twoSources.toBytes)], []⟩
  input := []
  output := []

/-- An input that has the extension of tables is listed in its table, which replaces it. -/
theorem input_replaced_by_table :
    replacedOptions.input ≠ "-" ∧
      Session.store.read replacedSession replacedOptions.input = .ok twoSources.toBytes ∧
      Module.ofContent replacedOptions.input twoSources.toBytes = .ok twoSources ∧
      replacedOptions.lower twoSources = .ok (twoSources, false) ∧
      (replacedOptions.modules (replacedOptions.groups twoSources) twoSources).length = 1 ∧
      ∃ s', replacedOptions.run Session.store replacedSession = (s', .ok (.table "in.files" 1)) ∧
        Session.store.read s' replacedOptions.input =
          .ok (utf8 "[Code|Symbols]\nin.files|in_0.sym\n") ∧
        ∀ m, Module.ofContent replacedOptions.input
          (utf8 "[Code|Symbols]\nin.files|in_0.sym\n") ≠ .ok m := by
  have hm : Module.ofContent replacedOptions.input twoSources.toBytes = .ok twoSources :=
    ofContent_toBytes (by decide +kernel) _
  have hread :
      Session.store.read replacedSession replacedOptions.input = .ok twoSources.toBytes := by
    decide +kernel
  have hresult : (replacedOptions.run Session.store replacedSession).2 =
      .ok (.table "in.files" 1) := by
    rw [run_eq_perform rfl hread hm]
    decide +kernel
  have hfile : Session.store.read (replacedOptions.run Session.store replacedSession).1
      replacedOptions.input = .ok (utf8 "[Code|Symbols]\nin.files|in_0.sym\n") := by
    rw [run_eq_perform rfl hread hm]
    decide +kernel
  refine ⟨by decide, hread, hm, rfl, by decide +kernel, _, eq_mk_of_snd_eq hresult, hfile, ?_⟩
  exact Module.ofContent_bracket (by decide) _

end Options

end DeviceCode
