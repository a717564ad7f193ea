import DeviceCode.Proofs.Module.Equality
import DeviceCode.Proofs.Run.Rows
import DeviceCode.Proofs.Run.Session
import DeviceCode.Proofs.SpecConstant.Lowering

/-!
# The property files of a run

A run that leaves specialization constants to run time writes, for each module, the numbers that its
lowered calls tell, but only if it has lowered calls itself.  A module that comes with lowered calls
and with nothing left to lower gets a property file without numbers.
-/

namespace DeviceCode

/-- The property file with the numbers of specialization constants. -/
def propertyFile (ids : SpecIds) : List UInt8 :=
  utf8 (PropertyRegistry.text (PropertyRegistry.addSpecIds .empty ids))

/-! ## Files without numbers -/

namespace SortedMap

variable {α : Type}

theorem alterEntries_ne_nil (key : String) (f : Option α → α) (l : List (String × α)) :
    alterEntries key f l ≠ [] := by
  cases l with
  | nil => exact List.cons_ne_nil _ _
  | cons e rest =>
      rw [alterEntries]
      split
      · exact List.cons_ne_nil _ _
      · split
        · exact List.cons_ne_nil _ _
        · exact List.cons_ne_nil _ _

/-- Entries that are inserted leave a map without entries only if there are none of them. -/
theorem entries_foldl_insert_eq_nil_iff {β : Type} {key : β → String} {value : β → α} {l : List β}
    {m : SortedMap α} :
    (l.foldl (fun m b => m.insert (key b) (value b)) m).entries = [] ↔ l = [] ∧ m.entries = [] := by
  induction l generalizing m with
  | nil => simp
  | cons b l ih =>
      rw [List.foldl_cons, ih]
      refine iff_of_false ?_ ?_
      · exact fun h => alterEntries_ne_nil _ _ _ h.2
      · exact fun h => List.cons_ne_nil _ _ h.1

end SortedMap

theorem specIds_entries_eq_nil_iff {m : Module} :
    m.specIds.entries = [] ↔ m.loweredCalls = [] := by
  rw [Module.specIds, SortedMap.entries_foldl_insert_eq_nil_iff]
  exact and_iff_left rfl

/-- The numbers as properties. -/
def SpecIds.properties (ids : SpecIds) : PropertySet :=
  ids.entries.foldl (fun set e => set.insert e.1 (.uint32 e.2)) .empty

/-- A property file has a header and a line for each number. -/
theorem text_addSpecIds (ids : SpecIds) :
    PropertyRegistry.text (PropertyRegistry.addSpecIds .empty ids) =
      "[" ++ PropertyRegistry.specConstants ++ "]\n" ++
        String.join (ids.properties.entries.map PropertyRegistry.propertyText) := rfl

theorem toList_text_addSpecIds (ids : SpecIds) :
    (PropertyRegistry.text (PropertyRegistry.addSpecIds .empty ids)).toList =
      ("[" ++ PropertyRegistry.specConstants ++ "]\n").toList ++
        (ids.properties.entries.map PropertyRegistry.propertyText).flatMap String.toList := by
  rw [text_addSpecIds, String.toList_append, String.toList_join]

/-- A property file tells no number exactly if there is none to tell. -/
theorem propertyFile_empty_iff {ids : SpecIds} :
    propertyFile .empty = propertyFile ids ↔ ids.entries = [] := by
  have hids : ids.properties.entries = [] ↔ ids.entries = [] := by
    rw [SpecIds.properties, SortedMap.entries_foldl_insert_eq_nil_iff]
    exact and_iff_left rfl
  constructor
  · intro h
    have htext := String.toByteArray_inj.mp (ByteArray.ext (Array.toList_inj.mp h))
    have hlist := congrArg String.toList htext
    rw [toList_text_addSpecIds, toList_text_addSpecIds] at hlist
    have hlines := List.append_cancel_left hlist
    rw [← hids]
    cases he : ids.properties.entries with
    | nil => rfl
    | cons e entries =>
        rw [he] at hlines
        have hline : '\n' ∈ (PropertyRegistry.propertyText e).toList := by
          simp [PropertyRegistry.propertyText]
        rw [List.map_cons, List.flatMap_cons] at hlines
        have hnil : [] = (PropertyRegistry.propertyText e).toList ++ _ := hlines
        rw [(List.append_eq_nil_iff.mp hnil.symm).1] at hline
        cases hline
  · intro h
    rw [propertyFile, propertyFile, text_addSpecIds, text_addSpecIds, hids.mpr h]
    rfl

/-! ## The files of a run -/

namespace Options

variable {σ : Type} {fs : FileStore σ} {Sound : σ → Prop} {s s' : σ} {o : Options}

/-- The property file of each module is among the files of the run. -/
theorem property_mem_files (ho : o.specConstants = some .runtime) {groups : KernelGroups}
    {lowered : Bool} {modules : List Module} {i : Nat} {p : Module} (hp : modules[i]? = some p) :
    ⟨o.resultPath ".prop" i, propertyFile (if lowered then p.specIds else .empty), false⟩ ∈
      o.files (o.artifactKinds groups lowered modules) := by
  rw [artifactKinds, if_pos ho]
  refine mem_files.mpr ⟨_, List.mem_cons_of_mem _ (List.mem_append_left _ List.mem_cons_self), i,
    propertyFile (if lowered then p.specIds else .empty), ?_, rfl⟩
  rw [propertyFiles, List.getElem?_map, hp]
  rfl

/-- In runtime mode a run that ends with a table has listed a property file for each module.  It has
the numbers of the module's own lowered calls if the input had a symbolic call, and else none; so it
tells the truth unless there was nothing to lower and the input came with lowered calls. -/
theorem property_files_of_run (hfs : fs.KeepsFiles Sound) (hs : Sound s)
    (ho : o.specConstants = some .runtime) {path : String} {rows : Nat}
    (h : o.run fs s = (s', .ok (.table path rows))) :
    ∃ (bytes : List UInt8) (m m' : Module) (lowered : Bool) (t : Table) (files : List String),
      fs.read s o.input = .ok bytes ∧ Module.ofContent o.input bytes = .ok m ∧
      m.lowerSpecConstants .runtime = (m', .ok lowered) ∧
      (path ≠ "-" → fs.read s' path = .ok (utf8 t.text)) ∧
      t.column? "Properties" = some files ∧ files.length = rows ∧
      (o.modules (o.groups m) m').length = rows ∧
      ∀ (i : Nat) (p : Module), (o.modules (o.groups m) m')[i]? = some p →
        ∃ content, files[i]? = some (o.resultPath ".prop" i) ∧
          fs.read s' (o.resultPath ".prop" i) = .ok content ∧
          content = propertyFile (if m.hasSymbolicCall then p.specIds else .empty) ∧
          (content = propertyFile p.specIds ↔ m.hasSymbolicCall = true ∨ p.loweredCalls = []) := by
  obtain ⟨m, m', lowered, t, hrun, rfl, rfl⟩ := ranToTable_of_run h
  obtain ⟨bytes, hread, hm⟩ := hrun.read
  have hl : m.lowerSpecConstants .runtime = (m', .ok lowered) := by
    have hl := hrun.lower
    rw [lower, ho] at hl
    dsimp only at hl
    split at hl
    case h_1 => cases hl
    case h_2 hl' =>
      cases hl
      exact hl'
  obtain ⟨hlowered, _⟩ := Module.lowerSpecConstants_changed hl
  have hcolumn : o.propertyColumn lowered (o.modules (o.groups m) m') ∈
      o.columns (o.groups m) lowered (o.modules (o.groups m) m') := by
    rw [columns, if_pos ho]
    exact List.mem_cons_of_mem _ (List.mem_append_left _ List.mem_cons_self)
  obtain ⟨hcells, hlength⟩ := hrun.columns _ hcolumn
  refine ⟨bytes, m, m', lowered, t, _, hread, hm, hl, hrun.read_table hfs hs, hcells, hlength,
    ?_, ?_⟩
  · rw [← hlength]
    simp [propertyColumn, Column.ofArtifacts, numbered]
  · intro i p hp
    refine ⟨propertyFile (if lowered then p.specIds else .empty), ?_, ?_, ?_, ?_⟩
    · have hi : i < (propertyFiles lowered (o.modules (o.groups m) m')).contents.length := by
        rw [length_propertyFiles]
        exact (List.getElem?_eq_some_iff.mp hp).1
      exact getElem?_cells_numbered hi
    · have hfile := hrun.read_file hfs hs (List.mem_append_left _ (property_mem_files ho hp))
      dsimp only at hfile
      exact hfile (resultPath_ne_dash isExtension_prop o i)
    · rw [hlowered]
    · rw [← hlowered]
      cases lowered with
      | true => simp
      | false =>
          simp [propertyFile_empty_iff, specIds_entries_eq_nil_iff]

/-- A module with a call that was lowered before, and nothing left to lower. -/
def alreadyLowered : Module where
  sourceName := none
  globals := []
  functions := [
    .declaration "__spirv_SpecConstant_i32" .i32 [],
    { Function.declaration "f" .void [] with
      body := some [⟨"entry", [
        ⟨none, .call .i32 (.direct "__spirv_SpecConstant_i32")
          [.constant .i32 (.int 0), .constant .i32 (.int 0)],
          [⟨"sycl.spec_const", .string "A"⟩]⟩]⟩] }]
  debugRecords := []

def alreadyLoweredText : String :=
  "declare i32 @__spirv_SpecConstant_i32()\n\ndefine void @f() \x7b\nentry:\n" ++
    "  call i32 @__spirv_SpecConstant_i32(i32 0, i32 0) !sycl.spec_const \"A\"\n\x7d\n"

def alreadyLoweredSession : Session where
  tree := ⟨[(["in.ll"], .file (utf8 alreadyLoweredText))], []⟩
  input := []
  output := []

def runtimeOptions : Options := { standard with input := "in.ll", specConstants := some .runtime }

/-- The property file of such a module does not tell the number of its call. -/
theorem property_file_of_alreadyLowered :
    ∃ s' content,
      runtimeOptions.run Session.store alreadyLoweredSession = (s', .ok (.table "in.files" 1)) ∧
      Module.ofContent runtimeOptions.input (utf8 alreadyLoweredText) = .ok alreadyLowered ∧
      Session.store.read s' "in_0.prop" = .ok content ∧
      content ≠ propertyFile alreadyLowered.specIds := by
  have hs : alreadyLoweredSession.tree.HasWorkingDirectory := by
    intro l hl
    rw [List.prefix_nil.mp hl]
    exact FileTree.node?_nil _
  have hin : Session.store.read alreadyLoweredSession runtimeOptions.input =
      .ok (utf8 alreadyLoweredText) := by decide +kernel
  have hcontent : Module.ofContent runtimeOptions.input (utf8 alreadyLoweredText) =
      .ok alreadyLowered := by decide +kernel
  have hrun : runtimeOptions.run Session.store alreadyLoweredSession =
      ((runtimeOptions.run Session.store alreadyLoweredSession).1, .ok (.table "in.files" 1)) := by
    rw [run_eq_perform rfl hin hcontent]
    exact eq_mk_of_snd_eq (by decide +kernel)
  obtain ⟨bytes, m, m', lowered, t, files, hread, hm, hl, _, _, _, _, hall⟩ :=
    property_files_of_run Session.keepsFiles_store hs rfl hrun
  rw [hin, Except.ok.injEq] at hread
  rw [← hread] at hm
  obtain rfl := Except.ok.inj (hcontent.symm.trans hm)
  have hnone : alreadyLowered.hasSymbolicCall = false := by decide +kernel
  obtain ⟨hchanged, hsame⟩ := Module.lowerSpecConstants_changed hl
  obtain rfl := hsame (hchanged.trans hnone)
  obtain ⟨content, _, hfile, _, hiff⟩ := hall 0 _ rfl
  have hpath : runtimeOptions.resultPath ".prop" 0 = "in_0.prop" := by decide +kernel
  rw [hpath] at hfile
  refine ⟨_, content, hrun, hcontent, hfile, fun he => ?_⟩
  rcases hiff.mp he with h | h
  · rw [hnone] at h
    cases h
  · exact absurd h (by decide +kernel)

end Options

end DeviceCode
