import DeviceCode.Proofs.Run.Content
import DeviceCode.Proofs.Run.Rows
import DeviceCode.Proofs.SpecConstant.Exhaustion

/-!
# The order of writing

A run makes up its mind before it writes: reading and lowering the input tell either why the run
fails or all the files that it has to write, in order.  What stops it later is a file that cannot be
opened; the files in front of that one are written then, and no others.  Only if its one file is a
binary module for a terminal may a run be refused (`run_writes`).
-/

namespace DeviceCode

/-! ## Writing in order -/

namespace FileStore

variable {σ : Type} {fs : FileStore σ} {s s' : σ}

/-- The files that are written come in front of the first one that is not. -/
theorem exists_written (fs : FileStore σ) (s : σ) (as : List Artifact) :
    ∃ s' written rest, as = written ++ rest ∧ fs.writeAll s written = (s', .ok ()) ∧
      (rest = [] ∧ fs.writeAll s as = (s', .ok ()) ∨
        ∃ a later e, rest = a :: later ∧ fs.save s' a = .error e ∧
          fs.writeAll s as = (s', .error e)) := by
  induction as generalizing s with
  | nil => exact ⟨s, [], [], rfl, rfl, .inl ⟨rfl, rfl⟩⟩
  | cons a as ih =>
      cases h : fs.save s a with
      | error e =>
          exact ⟨s, [], a :: as, rfl, rfl, .inr ⟨a, as, e, rfl, h, writeAll_cons_of_error h⟩⟩
      | ok s₁ =>
          obtain ⟨s', written, rest, rfl, hw, hstop⟩ := ih s₁
          rw [← writeAll_cons_of_ok h] at hw hstop
          exact ⟨s', a :: written, rest, rfl, hw, hstop⟩

/-- What a store has in the state `s'` when, of some files in order, those in front were written to
the state `s`, and the rest were not: every file that was written, and otherwise what it had. -/
structure Wrote (fs : FileStore σ) (s s' : σ) (written rest : List Artifact) : Prop where
  content : ∀ a ∈ written, a.path ≠ "-" → fs.read s' a.path = .ok a.content
  unwritten : ∀ a ∈ rest, a.path ≠ "-" →
    ∀ content, fs.read s' a.path = .ok content ↔ fs.read s a.path = .ok content
  others : ∀ path, path ≠ "-" → (∀ a ∈ written, Path.fileName? a.path ≠ Path.fileName? path) →
    ∀ content, fs.read s' path = .ok content ↔ fs.read s path = .ok content

/-- Files of different names are written side by side, so all that were written are there, and the
others are not touched. -/
theorem KeepsApart.wrote {Sound : σ → Prop} (hfs : fs.KeepsApart Sound) (hs : Sound s)
    {written rest : List Artifact} (h : fs.writeAll s written = (s', .ok ()))
    (hnames : ((written ++ rest).map (Path.fileName? ·.path)).Nodup) :
    fs.Wrote s s' written rest := by
  rw [List.map_append, List.nodup_append] at hnames
  obtain ⟨hwritten, -, hapart⟩ := hnames
  have hothers : ∀ path, path ≠ "-" →
      (∀ a ∈ written, Path.fileName? a.path ≠ Path.fileName? path) →
      ∀ content, fs.read s' path = .ok content ↔ fs.read s path = .ok content :=
    fun path hp hne content => hfs.read_writeAll_iff hs h hp hne
  refine ⟨fun a ha hp => ?_, fun a ha hp => ?_, hothers⟩
  · exact hfs.read_writeAll hs h ha hp fun b hb hne he =>
      hne (List.inj_on_of_nodup_map hwritten hb ha he)
  · exact hothers a.path hp fun b hb =>
      hapart _ (List.mem_map_of_mem hb) _ (List.mem_map_of_mem ha)

end FileStore

namespace Options

variable {σ : Type} {o : Options} {fs : FileStore σ} {s : σ} {m m' : Module} {lowered : Bool}

/-! ## What a run does -/

/-- What a run does before it writes: the module of the input and, if that can be had, the module
with its specialization constants lowered. -/
def prepare (o : Options) (fs : FileStore σ) (s : σ) :
    Except RunError (Module × Module × Bool) := do
  o.validate.mapError .usage
  let bytes ← (fs.read s o.input).mapError (.file o.input)
  let m ← Module.ofContent o.input bytes
  let (m', lowered) ← o.lower m
  pure (m, m', lowered)

/-- A run with an input that can be read is prepared by lowering it. -/
theorem prepare_of_ofContent (hv : o.validate = .ok ()) {bytes : List UInt8}
    (hread : fs.read s o.input = .ok bytes) (hm : Module.ofContent o.input bytes = .ok m) :
    o.prepare fs s = (o.lower m).map (m, ·) := by
  rw [prepare, hv, hread]
  dsimp only [bind, Except.bind, Except.mapError]
  rw [hm]
  dsimp only
  cases o.lower m with
  | error e => rfl
  | ok r => rfl

/-- A run whose input can be read and lowered is prepared. -/
theorem prepare_of_lower (hv : o.validate = .ok ()) {bytes : List UInt8}
    (hread : fs.read s o.input = .ok bytes) (hm : Module.ofContent o.input bytes = .ok m)
    (hl : o.lower m = .ok (m', lowered)) : o.prepare fs s = .ok (m, m', lowered) := by
  rw [prepare_of_ofContent hv hread hm, hl]
  rfl

/-- The files a run has to write, in order: the code files of all rows if they are written, the
property files and the symbol files if there are such columns, and the table; or one module. -/
def sequence (o : Options) (m m' : Module) (lowered : Bool) : List Artifact :=
  if o.singleModule then [⟨o.outputPath, o.encode m', o.isGuarded⟩]
  else o.tableFiles (o.artifactKinds (o.groups m) lowered (o.modules (o.groups m) m'))
    (o.fileTable (o.groups m) lowered)

/-- What a run leaves that has written them all. -/
def outcome (o : Options) (m : Module) : Outcome :=
  if o.singleModule then .module o.outputPath
  else .table o.outputPath (o.rowCount (o.groups m))

/-- The plan of a run is its sequence, followed by its outcome. -/
theorem plan_eq_sequence (hl : o.lower m = .ok (m', lowered)) :
    o.plan m = ⟨o.sequence m m' lowered, .ok (o.outcome m)⟩ := by
  cases hsingle : o.singleModule with
  | true =>
      rw [plan, hl]
      dsimp only
      rw [sequence, outcome, hsingle, if_pos rfl, if_pos rfl, if_pos rfl]
  | false =>
      rw [plan_eq hsingle hl, sequence, outcome, hsingle, if_neg Bool.false_ne_true,
        if_neg Bool.false_ne_true]

/-- A run prepares, and then writes. -/
theorem run_eq (o : Options) (fs : FileStore σ) (s : σ) :
    o.run fs s =
      match o.prepare fs s with
      | .error e => (s, .error e)
      | .ok (m, m', lowered) => fs.perform s ⟨o.sequence m m' lowered, .ok (o.outcome m)⟩ := by
  rw [prepare]
  cases hv : o.validate with
  | error e => exact run_of_invalid hv
  | ok =>
      rw [run_of_valid hv]
      cases fs.read s o.input with
      | error fault => exact fs.perform_eq _
      | ok bytes =>
          dsimp only [bind, Except.bind, Except.mapError, planContent]
          cases Module.ofContent o.input bytes with
          | error e => exact fs.perform_eq _
          | ok m =>
              dsimp only
              cases hl : o.lower m with
              | error e =>
                  rw [plan, hl]
                  exact fs.perform_eq _
              | ok r => rw [plan_eq_sequence hl]; rfl

/-- A prepared run writes its sequence, and ends well if all of it is written. -/
theorem run_of_prepare (h : o.prepare fs s = .ok (m, m', lowered)) :
    o.run fs s =
      ((fs.writeAll s (o.sequence m m' lowered)).1,
        (fs.writeAll s (o.sequence m m' lowered)).2.bind fun _ => .ok (o.outcome m)) := by
  rw [run_eq, h]
  exact fs.perform_eq _

/-! ## Refusal -/

/-- Whether a run is refused where the standard output is a terminal: its one module would go there
in binary form, and not by force. -/
def isRefused (o : Options) : Bool := o.singleModule && o.isGuarded && o.outputPath == "-"

/-- What is refused is a single file. -/
theorem sequence_of_isRefused (h : o.isRefused) (m m' : Module) (lowered : Bool) :
    ∃ a, o.sequence m m' lowered = [a] := by
  rw [isRefused, Bool.and_eq_true, Bool.and_eq_true] at h
  exact ⟨_, by rw [sequence, if_pos h.1.1]⟩

/-- The files of a table are never refused: only the table itself may go to the standard output, and
it is a text. -/
theorem refuses_of_mem_sequence {a : Artifact} (ha : a ∈ o.sequence m m' lowered) :
    fs.refuses a = (o.isRefused && fs.isTerminal) := by
  rw [sequence] at ha
  rw [FileStore.refuses, isRefused]
  split at ha
  case isTrue hsingle =>
    obtain rfl := List.mem_singleton.mp ha
    rw [hsingle, Bool.true_and]
  case isFalse hsingle =>
    rw [eq_false_of_ne_true hsingle, Bool.false_and, Bool.false_and, Bool.false_and]
    rcases List.mem_append.mp ha with ha | ha
    · obtain ⟨kind, hk, i, content, -, rfl⟩ := mem_files.mp ha
      have hdash := resultPath_ne_dash (isExtension_artifactKinds kind hk) o i
      rw [beq_false_of_ne hdash, Bool.and_false, Bool.false_and]
    · obtain rfl := List.mem_singleton.mp ha
      rfl

/-- No two files of a run have one name, so none of them is written over. -/
theorem nodup_fileNames_sequence :
    ((o.sequence m m' lowered).map (Path.fileName? ·.path)).Nodup := by
  rw [sequence]
  split
  · exact List.nodup_singleton _
  · exact nodup_fileNames_tableFiles isExtension_artifactKinds nodup_artifactKinds _

/-! ## The table comes last -/

variable {groups : KernelGroups} {i : Nat}

/-- Each number that a kind has contents for has a file. -/
theorem exists_file {kinds : List FileKind} {kind : FileKind} {extension : String}
    (hk : kind ∈ kinds) (he : kind.extension = extension) (hi : i < kind.contents.length) :
    ∃ a ∈ o.files kinds, a.path = o.resultPath extension i :=
  ⟨_, mem_files.mpr ⟨_, hk, i, _, List.getElem?_eq_getElem hi, rfl⟩, by rw [he]⟩

/-- A path in the table is that of a file of the run, or the input listed in place of a code
file. -/
theorem exists_file_of_mem_rowPaths (hi : i < o.rowCount groups) {cell : String}
    (hcell : cell ∈ o.rowPaths groups lowered i) :
    cell = o.input ∧ o.writesCode groups lowered = false ∨
      ∃ a ∈ o.files (o.artifactKinds groups lowered (o.modules groups m)), a.path = cell := by
  have hmodules : i < (o.modules groups m).length := by rwa [length_modules]
  rw [rowPaths, List.mem_cons, List.mem_append] at hcell
  rcases hcell with rfl | hcell | hcell
  · split
    case isTrue hcode =>
      have hwrites : lowered || 1 < (o.modules groups m).length := by rwa [length_modules]
      have hkind : o.codeFiles (o.modules groups m) ∈
          o.artifactKinds groups lowered (o.modules groups m) := by
        rw [artifactKinds, if_pos hwrites]
        exact List.mem_cons_self
      exact .inr (exists_file hkind rfl (by rwa [length_codeFiles]))
    case isFalse hcode => exact .inl ⟨rfl, eq_false_of_ne_true hcode⟩
  · split at hcell
    case isTrue hruntime =>
      obtain rfl := List.mem_singleton.mp hcell
      have hkind : propertyFiles lowered (o.modules groups m) ∈
          o.artifactKinds groups lowered (o.modules groups m) := by
        rw [artifactKinds, if_pos hruntime]
        exact List.mem_cons_of_mem _ List.mem_cons_self
      exact .inr (exists_file hkind rfl (by rwa [length_propertyFiles]))
    case isFalse => cases hcell
  · split at hcell
    case isTrue hsymbols =>
      obtain rfl := List.mem_singleton.mp hcell
      have hkind : o.symbolFiles groups ∈
          o.artifactKinds groups lowered (o.modules groups m) := by
        rw [artifactKinds, if_pos hsymbols]
        exact List.mem_cons_of_mem _ (List.mem_append_right _ List.mem_cons_self)
      exact .inr (exists_file hkind rfl (by rwa [length_symbolFiles]))
    case isFalse => cases hcell

/-- Nothing is left to write behind the table. -/
theorem eq_nil_of_table_mem {kinds : List FileKind} {t : Table} {written rest : List Artifact}
    (he : ∀ kind ∈ kinds, Path.IsExtension kind.extension) (hn : (kinds.map (·.extension)).Nodup)
    (h : o.tableFiles kinds t = written ++ rest)
    (ht : ⟨o.outputPath, utf8 t.text, false⟩ ∈ written) : rest = [] := by
  rcases List.eq_nil_or_concat rest with rfl | ⟨init, last, rfl⟩
  · rfl
  · exfalso
    have hnodup := (nodup_fileNames_tableFiles (o := o) he hn t).of_map
    rw [h, List.nodup_append] at hnodup
    rw [tableFiles, List.concat_eq_append, ← List.append_assoc] at h
    obtain ⟨_, hlast⟩ := List.append_inj' h rfl
    refine hnodup.2.2 _ ht last ?_ (List.singleton_inj.mp hlast)
    rw [List.concat_eq_append]
    exact List.mem_append_right _ (List.mem_singleton_self _)

/-- If the table is written, all files of the run are, and a path in the table is that of one of
them or of the input. -/
theorem exists_written_of_mem_row (hsingle : o.singleModule = false)
    {written rest : List Artifact} (hsequence : o.sequence m m' lowered = written ++ rest)
    (htable : ⟨o.outputPath, utf8 (o.fileTable (o.groups m) lowered).text, false⟩ ∈ written) :
    rest = [] ∧ ∀ row ∈ (o.fileTable (o.groups m) lowered).rows, ∀ cell ∈ row,
      cell = o.input ∧ o.writesCode (o.groups m) lowered = false ∨
        ∃ a ∈ written, a.path = cell := by
  rw [sequence, hsingle, if_neg Bool.false_ne_true] at hsequence
  obtain rfl :=
    eq_nil_of_table_mem isExtension_artifactKinds nodup_artifactKinds hsequence htable
  refine ⟨rfl, ?_⟩
  intro row hrow cell hcell
  obtain ⟨i, hi, rfl⟩ := List.mem_map.mp hrow
  rcases exists_file_of_mem_rowPaths (List.mem_range.mp hi) hcell with hinput | ⟨a, ha, hpath⟩
  · exact .inl hinput
  · refine .inr ⟨a, ?_, hpath⟩
    rw [← List.append_nil written, ← hsequence]
    exact List.mem_append_left _ ha

/-! ## Where a run stops -/

/-- A run that is refused writes nothing. -/
theorem run_of_isRefused (h : o.prepare fs s = .ok (m, m', lowered)) (hrefused : o.isRefused)
    (hterminal : fs.isTerminal) : o.run fs s = (s, .error .binaryToTerminal) := by
  obtain ⟨a, hsequence⟩ := sequence_of_isRefused hrefused m m' lowered
  have hsave : fs.save s a = .error .binaryToTerminal := by
    have ha : a ∈ o.sequence m m' lowered := by rw [hsequence]; exact List.mem_singleton_self a
    rw [FileStore.save, refuses_of_mem_sequence ha, hrefused, hterminal]
    rfl
  rw [run_of_prepare h, hsequence, FileStore.writeAll_cons_of_error hsave]
  rfl

/-- A run that is not refused stops only in front of a file that cannot be opened. -/
theorem exists_written_of_not_isRefused (h : o.prepare fs s = .ok (m, m', lowered))
    (hopen : ¬ (o.isRefused ∧ fs.isTerminal)) :
    ∃ s' written rest, o.sequence m m' lowered = written ++ rest ∧
      fs.writeAll s written = (s', .ok ()) ∧
      (rest = [] ∧ o.run fs s = (s', .ok (o.outcome m)) ∨
        ∃ a later fault, rest = a :: later ∧ fs.write s' a.path a.content = .error fault ∧
          o.run fs s = (s', .error (.file a.path fault))) := by
  rw [run_of_prepare h]
  obtain ⟨s', written, rest, hsequence, hwritten, hstop⟩ :=
    fs.exists_written s (o.sequence m m' lowered)
  refine ⟨s', written, rest, hsequence, hwritten, ?_⟩
  rcases hstop with ⟨hrest, hok⟩ | ⟨a, later, e, hrest, hsave, herror⟩
  · rw [hok]
    exact .inl ⟨hrest, rfl⟩
  · have ha : a ∈ o.sequence m m' lowered := by
      rw [hsequence, hrest]
      exact List.mem_append_right _ List.mem_cons_self
    have hrefuses : fs.refuses a = false := by
      rw [refuses_of_mem_sequence ha]
      simpa using hopen
    rw [FileStore.save_of_not_refuses hrefuses] at hsave
    obtain ⟨fault, hfault, rfl⟩ := Except.mapError_eq_error.mp hsave
    rw [herror]
    exact .inr ⟨a, later, fault, hrest, hfault, rfl⟩

/-- If a run fails before it has a module to write, nothing is written.  If its one file would be a
binary module on a terminal, and not by force, it is refused and nothing is written.  Else the run
writes the files of its sequence in order, all of them exactly if it ends well; it stops in front of
the first one that cannot be opened, and fails with the path of that file.  Where files are kept
apart, those that were written are there then, and all others are what they were.  So when the table
is written, everything is, and all files that it lists besides the input. -/
theorem run_writes (o : Options) (fs : FileStore σ) (s : σ) :
    (∀ e, o.prepare fs s = .error e → o.run fs s = (s, .error e)) ∧
      ∀ m m' lowered, o.prepare fs s = .ok (m, m', lowered) →
        (o.isRefused ∧ fs.isTerminal → o.run fs s = (s, .error .binaryToTerminal)) ∧
        (¬ (o.isRefused ∧ fs.isTerminal) →
          ∃ s' written rest, o.sequence m m' lowered = written ++ rest ∧
            fs.writeAll s written = (s', .ok ()) ∧
            (rest = [] ∧ o.run fs s = (s', .ok (o.outcome m)) ∨
              ∃ a later fault, rest = a :: later ∧ fs.write s' a.path a.content = .error fault ∧
                o.run fs s = (s', .error (.file a.path fault))) ∧
            (∀ Sound, fs.KeepsApart Sound → Sound s → fs.Wrote s s' written rest) ∧
            (o.singleModule = false →
              ⟨o.outputPath, utf8 (o.fileTable (o.groups m) lowered).text, false⟩ ∈ written →
              rest = [] ∧ ∀ row ∈ (o.fileTable (o.groups m) lowered).rows, ∀ cell ∈ row,
                cell = o.input ∧ o.writesCode (o.groups m) lowered = false ∨
                  ∃ a ∈ written, a.path = cell)) := by
  refine ⟨fun e he => by rw [run_eq, he], fun m m' lowered h => ⟨?_, fun hopen => ?_⟩⟩
  · rintro ⟨hrefused, hterminal⟩
    exact run_of_isRefused h hrefused hterminal
  · obtain ⟨s', written, rest, hsequence, hwritten, hstop⟩ :=
      exists_written_of_not_isRefused h hopen
    refine ⟨s', written, rest, hsequence, hwritten, hstop, fun Sound hfs hs => ?_,
      fun hsingle htable => exists_written_of_mem_row hsingle hsequence htable⟩
    refine hfs.wrote hs hwritten ?_
    rw [← hsequence]
    exact nodup_fileNames_sequence

def listOptions : Options :=
  { standard with input := "in.bc", symbols := true, specConstants := some .runtime }

/-- A directory is in the place of the symbol list. -/
def blockedSession : Session :=
  { twoSourcesSession with
    tree := ⟨[(["in.bc"], .file twoSources.toBytes), (["in_0.sym"], .directory)], []⟩ }

/-- The run stops at the directory: it has written the files in front of it, and not the table. -/
theorem blocked_writes :
    ∃ m' s' written rest,
      listOptions.prepare Session.store blockedSession = .ok (twoSources, m', true) ∧
      listOptions.sequence twoSources m' true = written ++ rest ∧
      written.map (·.path) = ["in_0.bc", "in_0.prop"] ∧
      rest.map (·.path) = ["in_0.sym", "in.files"] ∧
      Session.store.Wrote blockedSession s' written rest ∧
      listOptions.run Session.store blockedSession =
        (s', .error (.file "in_0.sym" .isADirectory)) := by
  have hm : Module.ofContent listOptions.input twoSources.toBytes = .ok twoSources :=
    ofContent_toBytes (by decide +kernel) _
  have hl : listOptions.lower twoSources =
      .ok ((twoSources.lowerSpecConstants .runtime).1, true) := by decide +kernel
  have hread : Session.store.read blockedSession listOptions.input = .ok twoSources.toBytes := rfl
  have hprepare : listOptions.prepare Session.store blockedSession =
      .ok (twoSources, (twoSources.lowerSpecConstants .runtime).1, true) :=
    prepare_of_lower rfl hread hm hl
  have hresult : (listOptions.run Session.store blockedSession).2 =
      .error (.file "in_0.sym" .isADirectory) := by
    rw [run_eq_perform rfl hread hm]
    decide +kernel
  have hs : blockedSession.tree.HasWorkingDirectory := by
    intro l hl
    rw [List.prefix_nil.mp hl]
    exact FileTree.node?_nil _
  obtain ⟨s', written, rest, hsequence, _, hstop, hwrote, _⟩ :=
    ((run_writes listOptions Session.store blockedSession).2 _ _ _ hprepare).2 (by decide)
  have hpaths :
      (written ++ rest).map (·.path) = ["in_0.bc", "in_0.prop", "in_0.sym", "in.files"] := by
    rw [← hsequence]
    decide +kernel
  rcases hstop with ⟨_, hok⟩ | ⟨a, later, fault, rfl, hfault, herror⟩
  · rw [hok] at hresult
    cases hresult
  · rw [herror] at hresult
    obtain ⟨hpath, hisdir⟩ := RunError.file.inj (Except.error.inj hresult)
    rw [List.map_append, List.map_cons, hpath] at hpaths
    have hsplit : written.map (·.path) = ["in_0.bc", "in_0.prop"] ∧
        later.map (·.path) = ["in.files"] := by
      simpa [List.append_eq_cons_iff, List.cons_eq_append_iff] using hpaths
    refine ⟨_, s', written, a :: later, hprepare, hsequence, hsplit.1, ?_,
      hwrote _ (Session.keepsApart_storeOn false) hs, ?_⟩
    · rw [List.map_cons, hpath, hsplit.2]
    · rw [herror, hpath, hisdir]

def streamOptions : Options :=
  { standard with
    input := "in.bc", output := some "-", singleModule := true, specConstants := some .default }

def zeroOptions : Options := { standard with input := "in.ll", specConstants := some .default }

def greatestNumberText : String :=
  "declare i1 @__spirv_SpecConstant()\ndefine void @f() \x7b\na:\n" ++
    "call i1 @__spirv_SpecConstant(i32 4294967295) !sycl.spec_const \"A\"\n\x7d\n"

def greatestNumberSession : Session where
  tree := ⟨[(["in.ll"], .file (utf8 greatestNumberText))], []⟩
  input := []
  output := []

/-- Two runs fail although no file is in the way.  The first has a module that could be written, but
the standard output is a terminal; the second finds no number behind the greatest one. -/
theorem fail_without_fault :
    (∃ m' a s', streamOptions.prepare (Session.storeOn true) twoSourcesSession =
        .ok (twoSources, m', true) ∧
      streamOptions.sequence twoSources m' true = [a] ∧
      (Session.storeOn true).write twoSourcesSession a.path a.content = .ok s' ∧
      streamOptions.run (Session.storeOn true) twoSourcesSession =
        (twoSourcesSession, .error .binaryToTerminal)) ∧
    zeroOptions.validate = .ok () ∧
      Module.ofContent zeroOptions.input (utf8 greatestNumberText) = .ok Module.greatestNumber ∧
      Module.greatestNumber.hasSymbolicCall = false ∧
      zeroOptions.run Session.store greatestNumberSession =
        (greatestNumberSession, .error (.specConstant .idsExhausted)) := by
  constructor
  · have hm : Module.ofContent streamOptions.input twoSources.toBytes = .ok twoSources :=
      ofContent_toBytes (by decide +kernel) _
    have hl : streamOptions.lower twoSources =
        .ok ((twoSources.lowerSpecConstants .default).1, true) := by decide +kernel
    have hread : (Session.storeOn true).read twoSourcesSession streamOptions.input =
        .ok twoSources.toBytes := rfl
    have hprepare : streamOptions.prepare (Session.storeOn true) twoSourcesSession =
        .ok (twoSources, (twoSources.lowerSpecConstants .default).1, true) :=
      prepare_of_lower rfl hread hm hl
    refine ⟨_, _, _, hprepare, rfl, rfl, ?_⟩
    rw [run_eq, hprepare]
    rfl
  · have hm : Module.ofContent zeroOptions.input (utf8 greatestNumberText) =
        .ok Module.greatestNumber := by decide +kernel
    have hread : Session.store.read greatestNumberSession zeroOptions.input =
        .ok (utf8 greatestNumberText) := by decide +kernel
    have hl : zeroOptions.lower Module.greatestNumber = .error (.specConstant .idsExhausted) := by
      decide +kernel
    refine ⟨rfl, hm, by decide +kernel, ?_⟩
    rw [run_eq, prepare_of_ofContent rfl hread hm, hl]
    rfl

end Options

end DeviceCode
