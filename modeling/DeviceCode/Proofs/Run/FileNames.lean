import DeviceCode.Proofs.Basic
import DeviceCode.Proofs.File.Path
import DeviceCode.Run.Plan

/-!
# The names of the files of a run

The files of a run are in one directory, and their names are told apart by extension and number, and
from the name of the output, on whose stem they are built (`resultPath_distinct`).
-/

namespace DeviceCode

namespace Options

open DeviceCode.Path

variable {o : Options} {extension extension' : String} {i j : Nat}

/-- The name of the output without its extension; the names of the other files are built on it. -/
def stem (o : Options) : String := (fileStem? o.outputPath).getD ""

/-- The name of a file with a number, but for its extension. -/
def numberedStem (o : Options) (i : Nat) : String := o.stem ++ "_" ++ i.repr

/-- The extensions of the files that are numbered: of code, properties and symbols. -/
def artifactExtensions : List String := [".ll", ".bc", ".prop", ".sym"]

/-- All extensions of files are a dot and letters. -/
theorem isExtension_of_mem_artifactExtensions (h : extension ∈ artifactExtensions) :
    IsExtension extension := by
  simp only [artifactExtensions, List.mem_cons, List.not_mem_nil, or_false] at h
  rcases h with rfl | rfl | rfl | rfl
  · exact ⟨['l', 'l'], by decide, by decide, by decide⟩
  · exact ⟨['b', 'c'], by decide, by decide, by decide⟩
  · exact ⟨['p', 'r', 'o', 'p'], by decide, by decide, by decide⟩
  · exact ⟨['s', 'y', 'm'], by decide, by decide, by decide⟩

theorem isExtension_codeExtension (o : Options) : IsExtension o.codeExtension := by
  refine isExtension_of_mem_artifactExtensions ?_
  rw [codeExtension]
  split
  · decide
  · decide

theorem isExtension_prop : IsExtension ".prop" := isExtension_of_mem_artifactExtensions (by decide)

theorem isExtension_sym : IsExtension ".sym" := isExtension_of_mem_artifactExtensions (by decide)

/-- A stem is part of a name, so it has no slash. -/
theorem slash_not_mem_stem (o : Options) : '/' ∉ o.stem.toList := by
  rw [stem, fileStem?]
  cases hn : fileName? o.outputPath with
  | none => simp
  | some name =>
      rw [Option.map_some, Option.getD_some, String.toList_ofList]
      exact fun h => not_mem_of_fileName? hn (mem_of_mem_stemOf h)

theorem slash_not_mem_numberedStem (o : Options) (i : Nat) : '/' ∉ (o.numberedStem i).toList := by
  have hdigits : '/' ∉ Nat.toDigits 10 i := by
    intro h
    exact absurd (Nat.isDigit_of_mem_toDigits (by omega) (by omega) h) (by decide)
  simp [numberedStem, slash_not_mem_stem, hdigits]

theorem underscore_mem_numberedStem (o : Options) (i : Nat) : '_' ∈ (o.numberedStem i).toList := by
  simp [numberedStem]

/-- Numbers are told from the digits behind the last underscore of a stem. -/
theorem numberedStem_inj (h : o.numberedStem i = o.numberedStem j) : i = j := by
  have hi : (o.stem ++ "_").toList ++ i.repr.toList = (o.stem ++ "_").toList ++ j.repr.toList := by
    rw [← String.toList_append, ← String.toList_append]
    exact congrArg String.toList h
  exact toList_repr_inj.mp (List.append_cancel_left hi)

/-- A stem, a number and an extension make a name. -/
theorem isName_result (h : IsExtension extension) (o : Options) (i : Nat) :
    IsName (o.numberedStem i ++ extension).toList := by
  obtain ⟨rest, he, _, hs⟩ := h
  have hmem : '_' ∈ (o.numberedStem i ++ extension).toList := by
    rw [String.toList_append]
    exact List.mem_append_left _ (underscore_mem_numberedStem o i)
  constructor
  · simp [he, slash_not_mem_numberedStem, hs]
  · rw [isTrivial, Bool.or_eq_false_iff, beq_eq_false_iff_ne, beq_eq_false_iff_ne]
    constructor
    · intro hn
      rw [hn] at hmem
      cases hmem
    · intro hn
      rw [hn] at hmem
      exact absurd hmem (by decide)
  · intro hn
    rw [hn] at hmem
    exact absurd hmem (by decide)

/-- The name of a file does not depend on its directory. -/
theorem fileName?_resultPath (h : IsExtension extension) (o : Options) (i : Nat) :
    fileName? (o.resultPath extension i) = some (o.numberedStem i ++ extension).toList :=
  fileName?_join (isName_result h o i) _

theorem stemOf_result (h : IsExtension extension) (o : Options) (i : Nat) :
    stemOf (o.numberedStem i ++ extension).toList = (o.numberedStem i).toList := by
  obtain ⟨rest, he, hd, _⟩ := h
  rw [String.toList_append, he]
  exact stemOf_append (List.ne_nil_of_mem (underscore_mem_numberedStem o i)) hd

/-- Files with one name have one extension and one number. -/
theorem fileName?_resultPath_inj (h : IsExtension extension) (h' : IsExtension extension')
    (he : fileName? (o.resultPath extension i) = fileName? (o.resultPath extension' j)) :
    extension = extension' ∧ i = j := by
  rw [fileName?_resultPath h, fileName?_resultPath h', Option.some.injEq] at he
  have hstem : (o.numberedStem i).toList = (o.numberedStem j).toList := by
    rw [← stemOf_result h, he, stemOf_result h']
  obtain rfl := numberedStem_inj (String.toList_inj.mp hstem)
  rw [String.toList_append, String.toList_append] at he
  exact ⟨String.toList_inj.mp (List.append_cancel_left he), rfl⟩

/-- No file has the name of the output. -/
theorem fileName?_resultPath_ne_output (h : IsExtension extension) (o : Options) (i : Nat) :
    fileName? (o.resultPath extension i) ≠ fileName? o.outputPath := by
  rw [fileName?_resultPath h]
  intro he
  have hstem : o.stem.toList = (o.numberedStem i).toList := by
    rw [stem, fileStem?, ← he, Option.map_some, Option.getD_some, String.toList_ofList,
      stemOf_result h]
  have hlength := congrArg List.length hstem
  simp [numberedStem] at hlength

/-- No file is the standard output. -/
theorem resultPath_ne_dash (h : IsExtension extension) (o : Options) (i : Nat) :
    o.resultPath extension i ≠ "-" := by
  intro he
  have hname := fileName?_resultPath h o i
  rw [he] at hname
  have hdash : fileName? "-" = some ['-'] := by decide
  have hmem : '_' ∈ (o.numberedStem i ++ extension).toList := by
    rw [String.toList_append]
    exact List.mem_append_left _ (underscore_mem_numberedStem o i)
  rw [hdash, Option.some.injEq] at hname
  rw [← hname] at hmem
  exact absurd hmem (by decide)

/-! ## Names in any directory -/

/-- The directory has no part in the name. -/
theorem fileName?_resultPath_outDir (h : IsExtension extension) (o : Options)
    (directory : Option String) (i : Nat) :
    fileName? ({ o with outDir := directory }.resultPath extension i) =
      fileName? (o.resultPath extension i) := by
  rw [fileName?_resultPath h, fileName?_resultPath h]
  rfl

/-- Whatever the options are, two files have one path only if they have one extension and one
number.  Otherwise already their names differ, in whatever directories they are, and each of them
differs from the name of the output. -/
theorem resultPath_distinct (o : Options) (h : extension ∈ artifactExtensions)
    (h' : extension' ∈ artifactExtensions) (i j : Nat) :
    (o.resultPath extension i = o.resultPath extension' j ↔ extension = extension' ∧ i = j) ∧
      ∀ directory directory' : Option String,
        fileName? ({ o with outDir := directory }.resultPath extension i) =
            some (o.stem ++ "_" ++ i.repr ++ extension).toList ∧
          (fileName? ({ o with outDir := directory }.resultPath extension i) =
              fileName? ({ o with outDir := directory' }.resultPath extension' j) ↔
            extension = extension' ∧ i = j) ∧
          fileName? ({ o with outDir := directory }.resultPath extension i) ≠
            fileName? o.outputPath := by
  have hext := isExtension_of_mem_artifactExtensions h
  have hext' := isExtension_of_mem_artifactExtensions h'
  refine ⟨⟨fun he => ?_, ?_⟩, fun directory directory' => ?_⟩
  · exact fileName?_resultPath_inj hext hext' (congrArg fileName? he)
  · rintro ⟨rfl, rfl⟩
    rfl
  · rw [fileName?_resultPath_outDir hext, fileName?_resultPath_outDir hext']
    refine ⟨fileName?_resultPath hext o i, ⟨fileName?_resultPath_inj hext hext', ?_⟩,
      fileName?_resultPath_ne_output hext o i⟩
    rintro ⟨rfl, rfl⟩
    rfl

/-- Options with an output that has a number and an extension itself. -/
def numberedOutput : Options := { standard with output := some "gen/out_1.sym" }

/-- Two of its symbol lists, one of which is also put into a directory of its own. -/
theorem numberedOutput_distinct :
    ".sym" ∈ artifactExtensions ∧ numberedOutput.resultPath ".sym" 1 = "gen/out_1_1.sym" ∧
      numberedOutput.resultPath ".sym" 11 = "gen/out_1_11.sym" ∧
      numberedOutput.resultPath ".sym" 1 ≠ numberedOutput.resultPath ".sym" 11 ∧
      fileName? ({ numberedOutput with outDir := some "lists/" }.resultPath ".sym" 1) ≠
        fileName? "gen/out_1.sym" := by
  have hsym : ".sym" ∈ artifactExtensions := by decide
  obtain ⟨hpath, hname⟩ := resultPath_distinct numberedOutput hsym hsym 1 11
  exact ⟨hsym, by decide +kernel, by decide +kernel,
    fun he => absurd (hpath.mp he).2 (by decide), (hname (some "lists/") none).2.2⟩

end Options

end DeviceCode
