import DeviceCode.Proofs.Assembly.Writable
import DeviceCode.Proofs.Partition.Definitions
import DeviceCode.Proofs.Run.Content
import DeviceCode.Proofs.Run.Readback
import DeviceCode.Proofs.SpecConstant.Writable

/-!
# What code files define

A run that splits a module lists a code file for each group of kernels.  Where it writes that file,
what is read from it defines only what the kernels of the group need.  But a run with a single group
and nothing lowered lists the input, which defines whatever it does (`definitions_of_run`).
-/

namespace DeviceCode

/-! ## Modules in files -/

namespace Module

variable {m p q : Module} {path : String}

/-- What is not taken for binary was read as a text. -/
theorem exists_text_of_ofContent {bytes : List UInt8} (hb : ¬ Binary.isBinary bytes)
    (h : Module.ofContent path bytes = .ok m) : ∃ text, Module.read text = .ok m := by
  rw [Module.ofContent, if_neg hb] at h
  split at h
  case h_1 text _ _ => exact ⟨text, Except.mapError_eq_ok.mp h⟩
  case h_2 => cases h
  case h_3 => cases h

/-- The text of a module is no binary module, since no entity begins like one. -/
theorem ofContent_text_eq (m : Module) (path : String) :
    Module.ofContent path (utf8 m.text) = (Module.read m.text).mapError (.syntaxError path) := by
  refine ofContent_utf8 (fun hd => ?_) path
  exact absurd (m.head?_text _ hd) (by decide)

/-- A module that can be written is read back from its text. -/
theorem ofContent_text (hw : m.WellFormed) (hn : m.WellNamed) (path : String) :
    Module.ofContent path (utf8 m.text) = .ok m.canonical := by
  rw [ofContent_text_eq, Module.read, readChars_text hw hn]
  rfl

end Module

namespace Options

variable {o : Options} {m m' p q : Module} {path : String}

/-- What is left of a module in a file. -/
def readBack (o : Options) (p : Module) : Module := if o.assembly then p.canonical else p

/-- A module that fits in a file: its names can be written, or its length in 64 bits. -/
def Fits (o : Options) (p : Module) : Prop :=
  if o.assembly then p.IsWritable else p.toBytes.length < 2 ^ 64

/-- A module that is good to read: a binary one that fits, or a text that keeps the laws. -/
def IsGood (o : Options) (p : Module) : Prop :=
  if o.assembly then p.WellFormed ∧ p.WellNamed else p.toBytes.length < 2 ^ 64

/-- Nothing else is read from the file of a module that fits. -/
theorem eq_readBack (hp : o.Fits p) (h : Module.ofContent path (o.encode p) = .ok q) :
    q = o.readBack p := by
  unfold Fits at hp
  unfold encode at h
  unfold readBack
  split at hp
  case isTrue ha =>
    rw [if_pos ha, Module.ofContent_text_eq] at h
    rw [if_pos ha]
    exact Module.eq_canonical_of_read hp (Except.mapError_eq_ok.mp h)
  case isFalse ha =>
    rw [if_neg ha, ofContent_toBytes hp, Except.ok.injEq] at h
    rw [if_neg ha, h]

theorem ofContent_encode (hp : o.IsGood p) (path : String) :
    Module.ofContent path (o.encode p) = .ok (o.readBack p) := by
  unfold IsGood at hp
  unfold encode readBack
  split at hp
  case isTrue ha =>
    rw [if_pos ha, if_pos ha, Module.ofContent_text hp.1 hp.2]
  case isFalse ha => rw [if_neg ha, if_neg ha, ofContent_toBytes hp]

/-- What is read back defines what the module does. -/
theorem definesOnly_readBack {P : String → Prop} (h : p.DefinesOnly P) :
    (o.readBack p).DefinesOnly P := by
  rw [readBack]
  split
  · exact h.canonical
  · exact h

/-! ## Lowered modules -/

variable {lowered : Bool}

/-- A module is lowered in one of the modes, or left as it is. -/
theorem lower_eq_ok (h : o.lower m = .ok (m', lowered)) :
    m' = m ∧ lowered = false ∨ ∃ mode, m.lowerSpecConstants mode = (m', .ok lowered) := by
  unfold lower at h
  split at h
  case h_1 =>
    obtain ⟨rfl, rfl⟩ := Prod.mk.inj (Except.ok.inj h)
    exact .inl ⟨rfl, rfl⟩
  case h_2 mode _ =>
    split at h
    case h_1 => cases h
    case h_2 hl =>
      obtain ⟨rfl, rfl⟩ := Prod.mk.inj (Except.ok.inj h)
      exact .inr ⟨mode, hl⟩

/-- If nothing was lowered, the module is the same. -/
theorem lower_same (h : o.lower m = .ok (m', false)) : m' = m := by
  rcases lower_eq_ok h with ⟨rfl, _⟩ | ⟨mode, hl⟩
  · rfl
  · exact (Module.lowerSpecConstants_changed hl).2 rfl

theorem isWritable_lower (h : o.lower m = .ok (m', lowered)) (hm : m.IsWritable) :
    m'.IsWritable := by
  rcases lower_eq_ok h with ⟨rfl, _⟩ | ⟨mode, hl⟩
  · exact hm
  · exact hm.lowerSpecConstants hl

/-- Lowering leaves variables alone. -/
theorem globals_lower (h : o.lower m = .ok (m', lowered)) : m'.globals = m.globals := by
  rcases lower_eq_ok h with ⟨rfl, _⟩ | ⟨mode, hl⟩
  · rfl
  · exact (Module.lowerSpecConstants_parts hl).1

/-- A lowering defines no function anew. -/
theorem definesApart_lower (h : o.lower m = .ok (m', lowered)) (hm : m.DefinesApart) :
    m'.DefinesApart := by
  rcases lower_eq_ok h with ⟨rfl, _⟩ | ⟨mode, hl⟩
  · exact hm
  · obtain ⟨hglobals, hfunctions⟩ := Module.lowerSpecConstants_parts hl
    intro f' hf' hb g hg
    rw [hglobals] at hg
    rcases hfunctions f' hf' with ⟨f, hf, hlowers⟩ | ⟨type, rfl⟩
    · rw [hlowers.name]
      exact hm f hf (fun hnone => hb (hlowers.body.mpr hnone)) g hg
    · exact absurd rfl hb

/-! ## Runs -/

theorem rowCount_of_split {groups : KernelGroups} (hsplit : o.split.isSome)
    (hpos : 0 < groups.size) : o.rowCount groups = groups.size := if_pos ⟨hsplit, hpos⟩

theorem size_pos_of_getElem? {groups : KernelGroups} {i : Nat} {kernels : List String}
    (h : groups.values[i]? = some kernels) : 0 < groups.size := by
  refine Nat.pos_of_ne_zero fun h0 => ?_
  rw [size_eq_zero_iff.mp h0] at h
  cases h

/-- The module of a row is the partition of the group of that number. -/
theorem getElem?_modules_of_split {groups : KernelGroups} {i : Nat} {kernels : List String}
    (hsplit : o.split.isSome) (h : groups.values[i]? = some kernels) :
    (o.modules groups m)[i]? = some (m.partition kernels) := by
  rw [modules_eq, if_pos ⟨hsplit, size_pos_of_getElem? h⟩, Module.split, List.getElem?_map, h,
    Option.map_some]

theorem singleModule_of_split (hv : o.validate = .ok ()) (hsplit : o.split.isSome) :
    o.singleModule = false := by
  unfold validate at hv
  split at hv
  · cases hv
  · split at hv
    case isTrue => cases hv
    case isFalse hn => simpa [hsplit] using hn

variable {σ : Type} {fs : FileStore σ} {Sound : σ → Prop} {s s' : σ}

/-- A partition fits if its module can be written. -/
theorem fits_partition (hl : o.lower m = .ok (m', lowered)) (hm : m.IsWritable)
    (ha : o.assembly) (kernels : List String) : o.Fits (m'.partition kernels) := by
  rw [Fits, if_pos ha]
  exact (isWritable_lower hl hm).partition kernels

/-- A partition of the lowered module defines what its kernels need, or a function that shares its
name with a variable. -/
theorem definesOnly_lower (hl : o.lower m = .ok (m', lowered)) (kernels : List String) :
    (m'.partition kernels).DefinesOnly (fun name =>
        m'.Needed kernels name ∨ ∃ g ∈ m.globals, g.name = name) ∧
      (m.names.Nodup → (m'.partition kernels).DefinesOnly (m'.Needed kernels)) := by
  refine ⟨?_, fun hnames => ?_⟩
  · rw [← globals_lower hl]
    exact m'.definesOnly_partition kernels
  · have hapart := definesApart_lower hl (Module.definesApart_of_nodup hnames)
    exact Module.definesOnly_partition_of_apart hapart kernels

/-- A run that splits a module lists a code file for each kernel group.  It writes them if there is
more than one group or anything was lowered.  Then the file of a group has its partition, and if
that fits, what is read from it defines only functions that the kernels of the group need, and
perhaps one that has the name of a global variable.  For a module that was read from a text, names
are apart and the texts of partitions fit.  But for a single group and nothing lowered, the run
lists the input, which has all of the module unless the run has written over it. -/
theorem definitions_of_run (hfs : fs.KeepsFiles Sound) (hs : Sound s) (hsplit : o.split.isSome)
    {outcome : Outcome} (h : o.run fs s = (s', .ok outcome)) :
    ∃ (bytes : List UInt8) (m m' : Module) (lowered : Bool) (t : Table),
      fs.read s o.input = .ok bytes ∧ Module.ofContent o.input bytes = .ok m ∧
      o.lower m = .ok (m', lowered) ∧ outcome = .table o.outputPath t.rows.length ∧
      ⟨o.outputPath, utf8 t.text, false⟩ ∈ (o.plan m).writes ∧
      (¬ Binary.isBinary bytes →
        m.names.Nodup ∧ (o.assembly → ∀ kernels, o.Fits (m'.partition kernels))) ∧
      (0 < (o.groups m).size →
        t.rows.length = (o.groups m).size ∧
        ∃ codes, t.column? "Code" = some codes ∧ codes.length = t.rows.length ∧
          (lowered ∨ 1 < (o.groups m).size →
            ∀ i kernels, (o.groups m).values[i]? = some kernels →
              codes[i]? = some (o.resultPath o.codeExtension i) ∧
              ∃ content, fs.read s' (o.resultPath o.codeExtension i) = .ok content ∧
                (o.IsGood (m'.partition kernels) →
                  Module.ofContent (o.resultPath o.codeExtension i) content =
                    .ok (o.readBack (m'.partition kernels))) ∧
                (o.Fits (m'.partition kernels) →
                  ∀ q, Module.ofContent (o.resultPath o.codeExtension i) content = .ok q →
                    (q.DefinesOnly fun name =>
                      m'.Needed kernels name ∨ ∃ g ∈ m.globals, g.name = name) ∧
                    (m.names.Nodup → q.DefinesOnly (m'.Needed kernels)))) ∧
          (lowered = false → (o.groups m).size = 1 →
            codes = [o.input] ∧ m' = m ∧
            (o.input ≠ "-" →
              (∀ a ∈ (o.plan m).writes, Path.fileName? a.path ≠ Path.fileName? o.input) →
              fs.read s' o.input = .ok bytes))) := by
  have hsingle := singleModule_of_split (plan_of_run h).1 hsplit
  obtain ⟨m, m', lowered, t, hrun, houtcome, hrows, hwrites⟩ := exists_ranToTable hsingle h
  obtain ⟨bytes, hread, hm⟩ := hrun.read
  have hl := hrun.lower
  refine ⟨bytes, m, m', lowered, t, hread, hm, hl, houtcome, ?_, fun hb => ?_, fun hpos => ?_⟩
  · rw [hwrites]
    exact List.mem_append_right _ List.mem_cons_self
  · obtain ⟨text, ht⟩ := Module.exists_text_of_ofContent hb hm
    exact ⟨(wellFormed_of_read ht).names, fits_partition hl (Module.isWritable_of_read ht)⟩
  have hcount := rowCount_of_split hsplit hpos
  have hlength := (length_modules o (o.groups m) m').trans hcount
  obtain ⟨hcolumn, hcells⟩ := hrun.columns _ List.mem_cons_self
  rw [name_codeColumn] at hcolumn
  refine ⟨?_, _, hcolumn, hcells, fun hcode i kernels hi => ?_, fun hlowered hone => ?_⟩
  · rw [hrows, hcount]
  · -- the partitions are written
    rw [← hlength] at hcode
    have hp := getElem?_modules_of_split (m := m') hsplit hi
    obtain ⟨codes, hcolumn', _, hpaths⟩ := hrun.column?_code hcode
    obtain rfl := Option.some.inj (hcolumn.symm.trans hcolumn')
    refine ⟨hpaths i _ hp, _, hrun.read_code hfs hs hcode hp, fun hgood => ofContent_encode hgood _,
      fun hfits q hq => ?_⟩
    obtain ⟨hany, hapart⟩ := definesOnly_lower hl kernels
    rw [eq_readBack hfits hq]
    exact ⟨definesOnly_readBack hany, fun hnames => definesOnly_readBack (hapart hnames)⟩
  · -- the input is listed
    subst hlowered
    refine ⟨?_, lower_same hl, fun hinput hnames => ?_⟩
    · rw [codeColumn, hlength, hone, if_neg (by decide)]
    · rw [hwrites] at hnames
      exact hfs.read_writeAll_of_ne hs hrun.writes hinput hnames hread

/-! ## Kernels and strays -/

/-- A kernel of a source that does nothing. -/
def kernelOf (source name : String) : Function :=
  { Function.declaration name .void [] with
    convention := .kernel
    attributes := [⟨"sycl-module-id", source⟩]
    body := some [⟨"entry", [⟨none, .operation "ret" [], []⟩]⟩] }

/-- A function that no kernel calls. -/
def stray : Function :=
  { Function.declaration "other" .void [] with
    body := some [⟨"entry", [⟨none, .operation "ret" [], []⟩]⟩] }

/-- A tree with one file in it. -/
def sessionOf (path : String) (content : List UInt8) : Session where
  tree := ⟨[([path], .file content)], []⟩
  input := []
  output := []

theorem hasWorkingDirectory_sessionOf (path : String) (content : List UInt8) :
    (sessionOf path content).tree.HasWorkingDirectory := .root _

def splitText : Options :=
  { standard with input := "in.ll", assembly := true, split := some .source }

def twoKernels : Module := ⟨none, [], [kernelOf "a" "k", kernelOf "b" "l", stray], []⟩

/-- The file of the first of two kernels is read back as a module of this kernel alone. -/
theorem twoKernels_definitions :
    ∃ s' content,
      splitText.run Session.store (sessionOf "in.ll" (utf8 twoKernels.text)) =
        (s', .ok (.table "in.files" 2)) ∧
      Session.store.read s' "in_0.ll" = .ok content ∧
      Module.ofContent "in_0.ll" content = .ok ⟨none, [], [kernelOf "a" "k"], []⟩ ∧
      Module.DefinesOnly ⟨none, [], [kernelOf "a" "k"], []⟩ (twoKernels.Needed ["k"]) := by
  have hin : Session.store.read (sessionOf "in.ll" (utf8 twoKernels.text)) splitText.input =
      .ok (utf8 twoKernels.text) := by decide +kernel
  have hcontent : Module.ofContent splitText.input (utf8 twoKernels.text) = .ok twoKernels := by
    rw [Module.ofContent_text (by decide +kernel) (by decide +kernel)]
    rfl
  have hresult : (splitText.run Session.store (sessionOf "in.ll" (utf8 twoKernels.text))).2 =
      .ok (.table "in.files" 2) := by
    rw [run_eq_perform rfl hin hcontent]
    decide +kernel
  have hrun : splitText.run Session.store (sessionOf "in.ll" (utf8 twoKernels.text)) =
      (_, .ok (.table "in.files" 2)) := eq_mk_of_snd_eq hresult
  have hpartition : twoKernels.partition ["k"] = ⟨none, [], [kernelOf "a" "k"], []⟩ := by
    rw [Module.partition_of_quiet ["k"] (by decide) (by decide) (by decide +kernel) rfl
      (by decide +kernel) (by decide) (by decide +kernel) (by decide +kernel)]
    decide +kernel
  obtain ⟨bytes, m, m', lowered, t, hread, hm, hl, _, _, htext, hrows⟩ :=
    definitions_of_run Session.keepsFiles_store (hasWorkingDirectory_sessionOf _ _) rfl hrun
  obtain rfl := Except.ok.inj (hin.symm.trans hread)
  obtain rfl := Except.ok.inj (hcontent.symm.trans hm)
  obtain ⟨rfl, rfl⟩ := Prod.mk.inj (Except.ok.inj hl)
  obtain ⟨hnames, hfits⟩ := htext (by decide +kernel)
  obtain ⟨_, _, _, _, hwritten, _⟩ := hrows (by decide +kernel)
  obtain ⟨_, content, hfile, hback, honly⟩ :=
    hwritten (.inr (by decide +kernel)) 0 ["k"] (by decide +kernel)
  have hpath : splitText.resultPath splitText.codeExtension 0 = "in_0.ll" := by decide +kernel
  rw [hpath] at hfile hback honly
  have hgood : splitText.IsGood (twoKernels.partition ["k"]) := by
    rw [hpartition]
    change Module.WellFormed _ ∧ Module.WellNamed _
    decide +kernel
  have hq := hback hgood
  rw [hpartition] at hq
  exact ⟨_, content, hrun, hfile, hq, (honly (hfits rfl _) _ hq).2 hnames⟩

/-- A row of the table that the run of a session ends with, and the module in the file it lists. -/
structure ListedRow (o : Options) (s : Session) where
  (bytes content : List UInt8)
  (source split listed : Module)
  lowered : Bool
  final : Session
  table : Table
  (codes kernels : List String)
  row : Nat
  path : String
  read_input : Session.store.read s o.input = .ok bytes
  ofContent_input : Module.ofContent o.input bytes = .ok source
  lower : o.lower source = .ok (split, lowered)
  run : o.run Session.store s = (final, .ok (.table o.outputPath table.rows.length))
  read_table : Session.store.read final o.outputPath = .ok (utf8 table.text)
  column : table.column? "Code" = some codes
  group : (o.groups source).values[row]? = some kernels
  code : codes[row]? = some path
  read_code : Session.store.read final path = .ok content
  ofContent_code : Module.ofContent path content = .ok listed

/-- A module that a run lists defines a function that the kernels of its row do not need. -/
def DefinesMore (o : Options) (s : Session) : Prop :=
  ∃ r : ListedRow o s, ¬ r.listed.DefinesOnly (r.split.Needed r.kernels)

/-- A run has more in a code file than the group needs if the file is written and read back so. -/
theorem definesMore_of_written {bytes : List UInt8} {s : Session} {path : String} {rows i : Nat}
    {kernels : List String} (hs : s.tree.HasWorkingDirectory) (hsplit : o.split.isSome)
    (hread : Session.store.read s o.input = .ok bytes)
    (hm : Module.ofContent o.input bytes = .ok m) (hl : o.lower m = .ok (m', lowered))
    (hrun : (o.run Session.store s).2 = .ok (.table path rows)) (houtput : o.outputPath ≠ "-")
    (hcode : lowered ∨ 1 < (o.groups m).size) (hi : (o.groups m).values[i]? = some kernels)
    (hp : m'.partition kernels = p)
    (hq : Module.ofContent (o.resultPath o.codeExtension i) (o.encode p) = .ok q)
    (hmore : ¬ q.DefinesOnly (m'.Needed kernels)) : o.DefinesMore s := by
  have hrun : o.run Session.store s = (_, .ok (.table path rows)) := eq_mk_of_snd_eq hrun
  obtain ⟨m₁, m₁', lowered₁, t, hdone, rfl, rfl⟩ := ranToTable_of_run hrun
  obtain ⟨bytes₁, hread₁, hm₁⟩ := hdone.read
  obtain rfl := Except.ok.inj (hread.symm.trans hread₁)
  obtain rfl := Except.ok.inj (hm.symm.trans hm₁)
  obtain ⟨rfl, rfl⟩ := Prod.mk.inj (Except.ok.inj (hl.symm.trans hdone.lower))
  rw [← rowCount_of_split hsplit (size_pos_of_getElem? hi), ← length_modules _ _ m'] at hcode
  have hp' := getElem?_modules_of_split (m := m') hsplit hi
  rw [hp] at hp'
  obtain ⟨codes, hcolumn, _, hpaths⟩ := hdone.column?_code hcode
  let r : ListedRow o s := {
    read_input := hread
    ofContent_input := hm
    lower := hl
    run := hrun
    read_table := hdone.read_table Session.keepsFiles_store hs houtput
    column := hcolumn
    group := hi
    code := hpaths i p hp'
    read_code := hdone.read_code Session.keepsFiles_store hs hcode hp'
    ofContent_code := hq
    .. }
  exact ⟨r, hmore⟩

def strayKernel : Module := ⟨none, [], [kernelOf "a" "k", stray], []⟩

/-- A file for one group of kernels lists the input, with whatever else it defines. -/
theorem strayKernel_listed : splitText.DefinesMore (sessionOf "in.ll" (utf8 strayKernel.text)) := by
  have hin : Session.store.read (sessionOf "in.ll" (utf8 strayKernel.text)) splitText.input =
      .ok (utf8 strayKernel.text) := by decide +kernel
  have hcontent : Module.ofContent splitText.input (utf8 strayKernel.text) = .ok strayKernel := by
    rw [Module.ofContent_text (by decide +kernel) (by decide +kernel)]
    rfl
  have hrun := run_eq_perform (o := splitText) rfl hin hcontent
  have hresult : (splitText.run Session.store (sessionOf "in.ll" (utf8 strayKernel.text))).2 =
      .ok (.table splitText.outputPath 1) := by
    rw [hrun]
    decide +kernel
  have htable : Session.store.read
      (splitText.run Session.store (sessionOf "in.ll" (utf8 strayKernel.text))).1
        splitText.outputPath = .ok (utf8 (Table.text ⟨["Code"], [["in.ll"]]⟩)) := by
    rw [hrun]
    decide +kernel
  have hkept : Session.store.read
      (splitText.run Session.store (sessionOf "in.ll" (utf8 strayKernel.text))).1 "in.ll" =
        .ok (utf8 strayKernel.text) := by
    rw [hrun]
    decide +kernel
  have hend : splitText.run Session.store (sessionOf "in.ll" (utf8 strayKernel.text)) =
      (_, .ok (.table splitText.outputPath 1)) := eq_mk_of_snd_eq hresult
  have hgroup : (splitText.groups strayKernel).values[0]? = some ["k"] := by decide +kernel
  have hmore : ¬ strayKernel.DefinesOnly (strayKernel.Needed ["k"]) := fun h => by
    have hother := Module.mem_kernels_of_needed (by decide)
      (h stray (List.mem_cons_of_mem _ List.mem_cons_self) nofun)
    exact absurd hother (by decide)
  let r : ListedRow splitText (sessionOf "in.ll" (utf8 strayKernel.text)) := {
    read_input := hin
    ofContent_input := hcontent
    lower := rfl
    table := ⟨["Code"], [["in.ll"]]⟩
    run := hend
    read_table := htable
    codes := ["in.ll"]
    column := rfl
    group := hgroup
    code := rfl
    read_code := hkept
    ofContent_code := hcontent
    .. }
  exact ⟨r, hmore⟩

/-- Two kernels, one of which has the name of a global variable. -/
def kernelLikeGlobal : Module :=
  ⟨none, [⟨"l", .external, false, none⟩], [kernelOf "a" "k", kernelOf "b" "l"], []⟩

def splitBinary : Options := { standard with input := "in.bc", split := some .source }

/-- A kernel that has the name of a variable stays in the partition of another one. -/
theorem kernelLikeGlobal_written :
    splitBinary.DefinesMore (sessionOf "in.bc" kernelLikeGlobal.toBytes) := by
  have hin : Session.store.read (sessionOf "in.bc" kernelLikeGlobal.toBytes) splitBinary.input =
      .ok kernelLikeGlobal.toBytes := by decide +kernel
  have hcontent :
      Module.ofContent splitBinary.input kernelLikeGlobal.toBytes = .ok kernelLikeGlobal :=
    ofContent_toBytes (by decide +kernel) _
  have hresult : (splitBinary.run Session.store (sessionOf "in.bc" kernelLikeGlobal.toBytes)).2 =
      .ok (.table "in.files" 2) := by
    rw [run_eq_perform rfl hin hcontent]
    decide +kernel
  have hpartition : kernelLikeGlobal.partition ["k"] = kernelLikeGlobal := by
    rw [Module.partition_of_quiet ["k", "l"] (by decide) (by decide) (by decide +kernel) rfl
      (by decide +kernel) (by decide) (by decide +kernel) (by decide +kernel)]
    decide +kernel
  have hgroup : (splitBinary.groups kernelLikeGlobal).values[0]? = some ["k"] := by decide +kernel
  refine definesMore_of_written (hasWorkingDirectory_sessionOf _ _) rfl hin hcontent rfl hresult
    (by decide) (.inr (by decide +kernel)) hgroup hpartition
    (ofContent_toBytes (by decide +kernel) _) fun h => ?_
  have hother := Module.mem_kernels_of_needed (by decide)
    (h (kernelOf "b" "l") (List.mem_cons_of_mem _ List.mem_cons_self) nofun)
  exact absurd hother (by decide)

/-- The name of a kernel that is the text of another kernel and of the head of a function. -/
def wideName : String := "k() \x7b\nentry:\n  ret\n\x7d\n\ndefine spir_func void @other"

def wideKernel : Module := ⟨none, [], [kernelOf "a" wideName, kernelOf "b" "l"], []⟩

def splitDisassembly : Options := { splitBinary with assembly := true }

/-- A name that is no word may hold a whole definition. -/
theorem wideKernel_written :
    splitDisassembly.DefinesMore (sessionOf "in.bc" wideKernel.toBytes) := by
  have hin : Session.store.read (sessionOf "in.bc" wideKernel.toBytes) splitDisassembly.input =
      .ok wideKernel.toBytes := by decide +kernel
  have hcontent : Module.ofContent splitDisassembly.input wideKernel.toBytes = .ok wideKernel :=
    ofContent_toBytes (by decide +kernel) _
  have hresult : (splitDisassembly.run Session.store (sessionOf "in.bc" wideKernel.toBytes)).2 =
      .ok (.table "in.files" 2) := by
    rw [run_eq_perform rfl hin hcontent]
    decide +kernel
  have hpartition : wideKernel.partition [wideName] = ⟨none, [], [kernelOf "a" wideName], []⟩ := by
    rw [Module.partition_of_quiet [wideName] (by decide) (by decide) (by decide +kernel) rfl
      (by decide +kernel) (by decide) (by decide +kernel) (by decide +kernel)]
    decide +kernel
  have hgroup : (splitDisassembly.groups wideKernel).values[0]? = some [wideName] := by
    decide +kernel
  -- the name ends in the head of a function, which gets the attribute and the body of the kernel
  let head : Function := { kernelOf "a" "k" with attributes := [] }
  let rest : Function := { stray with attributes := [⟨"sycl-module-id", "a"⟩] }
  have htext : Module.text ⟨none, [], [kernelOf "a" wideName], []⟩ =
      Module.text ⟨none, [], [head, rest], []⟩ := by decide +kernel
  have hread : Module.ofContent (splitDisassembly.resultPath splitDisassembly.codeExtension 0)
      (splitDisassembly.encode ⟨none, [], [kernelOf "a" wideName], []⟩) =
        .ok ⟨none, [], [head, rest], []⟩ := by
    rw [encode, if_pos (by rfl), htext,
      Module.ofContent_text (by decide +kernel) (by decide +kernel)]
    rfl
  refine definesMore_of_written (hasWorkingDirectory_sessionOf _ _) rfl hin hcontent rfl hresult
    (by decide) (.inr (by decide +kernel)) hgroup hpartition hread fun h => ?_
  have hother := Module.mem_kernels_of_needed (by decide) (h head List.mem_cons_self nofun)
  exact absurd hother (by decide)

/-- A single kernel has the input for its file, with all functions.  A kernel has its body in the
file of another if it has the name of a global variable.  And a kernel with a name that is no word
is not read back from a text, but what this name says. -/
theorem definesMore_of_kernels :
    splitText.DefinesMore (sessionOf "in.ll" (utf8 strayKernel.text)) ∧
      splitBinary.DefinesMore (sessionOf "in.bc" kernelLikeGlobal.toBytes) ∧
      splitDisassembly.DefinesMore (sessionOf "in.bc" wideKernel.toBytes) :=
  ⟨strayKernel_listed, kernelLikeGlobal_written, wideKernel_written⟩

end Options

end DeviceCode
