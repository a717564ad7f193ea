import Mathlib.Data.List.Lex
import DeviceCode.Proofs.Run.Properties
import DeviceCode.Proofs.SpecConstant.Telling
import DeviceCode.Proofs.Text.Lines

/-!
# What a property file tells

The names of specialization constants are written into a property file as they are.  A name may hold
line ends, and then it may hold whole entries.  So the entries of a file can be taken for one entry
with a long name, and a name for entries (`exists_ne_propertyText_eq_iff`): a file with two numbers
in it never tells which constants there are.  Names without line ends are told
(`eq_of_propertyText_eq`), since a file is then divided into its entries by its lines.
-/

namespace DeviceCode

namespace SpecIds

variable {ids ids' : SpecIds} {e e' : String × UInt32} {entries entries' : List (String × UInt32)}

/-! ## Entries in writing -/

/-- The text of a property file. -/
def propertyText (ids : SpecIds) : String :=
  PropertyRegistry.text (PropertyRegistry.addSpecIds .empty ids)

/-- A number in writing, with the type in front of it. -/
def numberText (id : UInt32) : List Char := '1' :: '|' :: id.toNat.repr.toList

/-- An entry in writing, but for its line end. -/
def entryText (e : String × UInt32) : List Char := e.1.toList ++ '=' :: numberText e.2

/-- Entries in writing. -/
def entriesText (entries : List (String × UInt32)) : List Char :=
  entries.flatMap fun e => entryText e ++ ['\n']

theorem entries_properties (ids : SpecIds) :
    ids.properties.entries = ids.entries.map fun e => (e.1, .uint32 e.2) :=
  SortedMap.entries_foldl_insert ids.ascending nofun

theorem toList_propertyText_entry (e : String × UInt32) :
    (PropertyRegistry.propertyText (e.1, .uint32 e.2)).toList = entryText e ++ ['\n'] := by
  have htag : Nat.repr 1 = "1" := rfl
  rw [PropertyRegistry.propertyText, PropertyValue.text, PropertyValue.typeTag, htag]
  simp only [String.toList_append, List.append_assoc, entryText]
  rfl

theorem propertyText_inj :
    ids.propertyText = ids'.propertyText ↔ entriesText ids.entries = entriesText ids'.entries := by
  have hlines (ids : SpecIds) :
      (ids.properties.entries.map PropertyRegistry.propertyText).flatMap String.toList =
        entriesText ids.entries := by
    rw [entries_properties, List.map_map, List.flatMap_map, entriesText]
    simp only [Function.comp_apply, toList_propertyText_entry]
  rw [String.ext_iff, propertyText, propertyText, toList_text_addSpecIds, toList_text_addSpecIds,
    List.append_cancel_left_eq, hlines, hlines]

/-- Behind the name of an entry there are a one, a bar and digits. -/
theorem notMem_numberText {c : Char} (hone : c ≠ '1') (hbar : c ≠ '|') (hdigit : ¬ c.isDigit)
    (id : UInt32) : c ∉ numberText id := by
  rw [numberText, List.mem_cons, List.mem_cons, not_or, not_or]
  refine ⟨hone, hbar, fun h => hdigit ?_⟩
  rw [Nat.toList_repr] at h
  exact isDigit_toDigits h

@[simp] theorem numberText_inj {id id' : UInt32} : numberText id = numberText id' ↔ id = id' := by
  rw [numberText, numberText, List.cons_inj_right, List.cons_inj_right, toList_repr_inj,
    UInt32.toNat_inj]

/-- A character stands in one place only behind which there is no other. -/
theorem append_cons_inj {c : Char} {s s' t t' : List Char} (ht : c ∉ t) (ht' : c ∉ t') :
    s ++ c :: t = s' ++ c :: t' ↔ s = s' ∧ t = t' := by
  have hsplit {a t t' : List Char} (ht : c ∉ t) (h : c :: t = a ++ c :: t') : a = [] ∧ t = t' := by
    cases a with
    | nil => exact ⟨rfl, (List.cons.inj h).2⟩
    | cons d a =>
        refine absurd ?_ ht
        rw [(List.cons.inj h).2]
        exact List.mem_append_right _ List.mem_cons_self
  constructor
  · intro h
    rcases List.append_eq_append_iff.mp h with ⟨a, rfl, ha⟩ | ⟨a, rfl, ha⟩
    · obtain ⟨rfl, rfl⟩ := hsplit ht ha
      exact ⟨(List.append_nil s).symm, rfl⟩
    · obtain ⟨rfl, rfl⟩ := hsplit ht' ha
      exact ⟨List.append_nil s', rfl⟩
  · rintro ⟨rfl, rfl⟩
    rfl

/-- Entries that end texts are told from behind: their numbers are the same, and so is what stands
in front of these. -/
theorem append_entryText_inj (s s' : List Char) :
    s ++ entryText e = s' ++ entryText e' ↔ s ++ e.1.toList = s' ++ e'.1.toList ∧ e.2 = e'.2 := by
  have hnumber (id : UInt32) : '=' ∉ numberText id :=
    notMem_numberText (by decide) (by decide) (by decide) id
  rw [entryText, entryText, ← List.append_assoc, ← List.append_assoc,
    append_cons_inj (hnumber _) (hnumber _), numberText_inj]

/-- The last number of a text is told, and what stands in front of it. -/
theorem entriesText_concat_inj (entries entries' : List (String × UInt32)) :
    entriesText (entries ++ [e]) = entriesText (entries' ++ [e']) ↔
      entriesText entries ++ e.1.toList = entriesText entries' ++ e'.1.toList ∧ e.2 = e'.2 := by
  rw [entriesText, entriesText, List.flatMap_append, List.flatMap_append, List.flatMap_singleton,
    List.flatMap_singleton, ← List.append_assoc, ← List.append_assoc, List.append_left_inj,
    append_entryText_inj]
  rfl

/-! ## Entries in one -/

def single (e : String × UInt32) : SpecIds := ⟨[e], List.pairwise_singleton _ _⟩

/-- Entries with another one behind them, taken for a single entry. -/
def joined (entries : List (String × UInt32)) (e : String × UInt32) : String × UInt32 :=
  (String.ofList (entriesText entries ++ e.1.toList), e.2)

theorem entriesText_joined (entries : List (String × UInt32)) (e : String × UInt32) :
    entriesText [joined entries e] = entriesText (entries ++ [e]) := by
  refine (entriesText_concat_inj [] entries).mpr ⟨?_, rfl⟩
  rw [joined, String.toList_ofList]
  rfl

/-- What begins with the names of entries in order comes behind the name of one in front of them. -/
theorem lt_joined {e₀ : String × UInt32}
    (h : ((e₀ :: entries) ++ [e]).Pairwise fun a b => a.1 < b.1) : e₀.1 < (joined entries e).1 := by
  have hfirst : ∃ e₁ : String × UInt32, e₀.1 < e₁.1 ∧
      e₁.1.toList <+: entriesText entries ++ e.1.toList := by
    cases entries with
    | nil => exact ⟨e, List.rel_of_pairwise_cons h List.mem_cons_self, List.prefix_rfl⟩
    | cons e₁ rest =>
        refine ⟨e₁, List.rel_of_pairwise_cons h List.mem_cons_self, ?_⟩
        rw [entriesText, List.flatMap_cons, entryText]
        simp only [List.append_assoc]
        exact List.prefix_append _ _
  obtain ⟨e₁, hlt, rest, hrest⟩ := hfirst
  rw [String.lt_iff, joined, String.toList_ofList, ← hrest]
  exact List.Lex.append_right _ rest (String.lt_iff.mp hlt)

@[simp] theorem entriesText_eq_nil_iff : entriesText entries = [] ↔ entries = [] := by
  cases entries with
  | nil => exact iff_of_true rfl rfl
  | cons e rest => exact iff_of_false (by simp [entriesText]) (List.cons_ne_nil _ _)

/-- Two numbers or more have the text of only one. -/
theorem exists_ne_of_two_le (h : 2 ≤ ids.size) :
    ∃ ids' : SpecIds, ids' ≠ ids ∧ ids'.propertyText = ids.propertyText := by
  rcases List.eq_nil_or_concat ids.entries with he | ⟨init, e, he⟩
  · rw [SortedMap.size, he] at h
    cases h
  rw [List.concat_eq_append] at he
  refine ⟨single (joined init e), ?_, ?_⟩
  · rintro rfl
    exact Nat.not_succ_le_self 1 h
  · rw [propertyText_inj, he]
    exact entriesText_joined init e

/-- A name that begins with an entry can be divided, if its entries are in order then. -/
theorem exists_ne_of_begins {x y : String} {n v : UInt32}
    (h : ids.entries = [(PropertyRegistry.propertyText (x, .uint32 n) ++ y, v)]) (hlt : x < y) :
    ∃ ids' : SpecIds, ids' ≠ ids ∧ ids'.propertyText = ids.propertyText := by
  refine ⟨⟨[(x, n), (y, v)], by simpa using hlt⟩, fun heq => ?_, ?_⟩
  · have hlength := congrArg List.length (congrArg SortedMap.entries heq)
    rw [h] at hlength
    cases hlength
  · rw [propertyText_inj, h]
    refine (entriesText_concat_inj [(x, n)] []).mpr ⟨?_, rfl⟩
    rw [String.toList_append, toList_propertyText_entry (x, n), entriesText, List.flatMap_singleton]
    rfl

/-- If the text of one entry is also that of others, its name begins with the first of these. -/
theorem begins_of_propertyText_eq (h : ids.entries = [e]) (hne : ids' ≠ ids)
    (htext : ids'.propertyText = ids.propertyText) :
    ∃ x n y, e.1 = PropertyRegistry.propertyText (x, .uint32 n) ++ y ∧ x < y := by
  rw [propertyText_inj, h] at htext
  -- the last entries agree in their numbers, so what is left stands in front of the last name
  rcases List.eq_nil_or_concat ids'.entries with h' | ⟨init, e', h'⟩
  · rw [h'] at htext
    exact absurd (entriesText_eq_nil_iff.mp htext.symm) (List.cons_ne_nil _ _)
  rw [List.concat_eq_append] at h'
  rw [h'] at htext
  obtain ⟨hname, hvalue⟩ := (entriesText_concat_inj init []).mp htext
  cases init with
  | nil =>
      have he : e' = e := Prod.ext (String.ext hname) hvalue
      exact absurd (SortedMap.ext (h'.trans (he ▸ h.symm))) hne
  | cons e₀ init =>
      refine ⟨e₀.1, e₀.2, (joined init e').1, String.ext ?_, lt_joined (h' ▸ ids'.ascending)⟩
      rw [String.toList_append, toList_propertyText_entry, joined, String.toList_ofList]
      rw [entriesText, List.flatMap_cons, List.append_assoc] at hname
      exact hname.symm

/-- There are other numbers with the same text exactly if there are two numbers or more, or there is
only one and its name begins with an entry in writing and goes on with a greater name. -/
theorem exists_ne_propertyText_eq_iff :
    (∃ ids' : SpecIds, ids' ≠ ids ∧ ids'.propertyText = ids.propertyText) ↔
      2 ≤ ids.size ∨ ∃ x n y v,
        ids.entries = [(PropertyRegistry.propertyText (x, .uint32 n) ++ y, v)] ∧ x < y := by
  constructor
  · rintro ⟨ids', hne, htext⟩
    rcases h : ids.entries with _ | ⟨e, _ | ⟨e₂, rest⟩⟩
    · rw [propertyText_inj, h] at htext
      exact absurd (SortedMap.ext ((entriesText_eq_nil_iff.mp htext).trans h.symm)) hne
    · obtain ⟨x, n, y, he, hlt⟩ := begins_of_propertyText_eq h hne htext
      exact .inr ⟨x, n, y, e.2, by rw [← he], hlt⟩
    · left
      rw [SortedMap.size, h]
      exact Nat.le_add_left _ _
  · rintro (h | ⟨x, n, y, v, h, hlt⟩)
    · exact exists_ne_of_two_le h
    · exact exists_ne_of_begins h hlt

/-! ## Names without line ends -/

/-- Without line ends in names each entry has a line of its own. -/
theorem lines_entriesText (h : ∀ e ∈ entries, '\n' ∉ e.1.toList) :
    Text.lines (entriesText entries) = entries.map entryText := by
  have hnumber (id : UInt32) : '\n' ∉ numberText id ∧ '\r' ∉ numberText id :=
    ⟨notMem_numberText (by decide) (by decide) (by decide) id,
      notMem_numberText (by decide) (by decide) (by decide) id⟩
  have hlines : ∀ l ∈ entries.map entryText, '\n' ∉ l := by
    intro l hl
    obtain ⟨e, he, rfl⟩ := List.mem_map.mp hl
    simp [entryText, h e he, (hnumber e.2).1]
  have hmap : entriesText entries = (entries.map entryText).flatMap (· ++ ['\n']) :=
    (List.flatMap_map entryText (· ++ ['\n']) entries).symm
  rw [hmap, Text.lines_flatMap hlines, List.map_map]
  refine List.map_congr_left fun e _ => Text.endedLine_reverse_eq_iff.mpr fun hlast => ?_
  rw [entryText, List.getLast?_append_of_ne_nil _ (List.cons_ne_nil _ _)] at hlast
  rcases List.mem_cons.mp (List.mem_of_getLast? hlast) with heq | hmem
  · exact absurd heq (by decide)
  · exact (hnumber e.2).2 hmem

/-- An entry is told from its line. -/
theorem entryText_injective : Function.Injective entryText := by
  intro e e' h
  obtain ⟨hname, hvalue⟩ := (append_entryText_inj [] []).mp h
  exact Prod.ext (String.ext hname) hvalue

/-- A text whose names have no line ends tells all names and their numbers. -/
theorem eq_of_propertyText_eq (h : ∀ name ∈ ids.keys, '\n' ∉ name.toList)
    (h' : ∀ name ∈ ids'.keys, '\n' ∉ name.toList) (htext : ids.propertyText = ids'.propertyText) :
    ids = ids' := by
  have hlines := congrArg Text.lines (propertyText_inj.mp htext)
  rw [lines_entriesText fun e he => h e.1 (List.mem_map_of_mem he),
    lines_entriesText fun e he => h' e.1 (List.mem_map_of_mem he)] at hlines
  exact SortedMap.ext (List.map_injective_iff.mpr entryText_injective hlines)

/-! ## What is told -/

/-- Numbers that are recovered from a module that was read. -/
def IsRecovered (ids : SpecIds) : Prop := ∃ text m, Module.read text = .ok m ∧ m.specIds = ids

/-- Any numbers can be recovered from a module.  Their text is also that of others exactly if there
are two numbers or more, or there is only one and its name begins with an entry in writing and goes
on with a greater name.  If no name has a line end, then different numbers have different texts. -/
theorem exists_recovered_ne_iff (ids : SpecIds) :
    ids.IsRecovered ∧
      ((∃ ids' : SpecIds, ids'.IsRecovered ∧ ids' ≠ ids ∧ ids'.propertyText = ids.propertyText) ↔
        2 ≤ ids.size ∨ ∃ x n y v,
          ids.entries = [(PropertyRegistry.propertyText (x, .uint32 n) ++ y, v)] ∧ x < y) ∧
      ((∀ name ∈ ids.keys, '\n' ∉ name.toList) →
        ∀ ids' : SpecIds, ids'.IsRecovered → (∀ name ∈ ids'.keys, '\n' ∉ name.toList) →
          (ids'.propertyText = ids.propertyText ↔ ids' = ids)) := by
  refine ⟨Module.exists_read_specIds ids, ?_, fun h ids' _ h' => ⟨eq_of_propertyText_eq h' h, ?_⟩⟩
  · rw [← exists_ne_propertyText_eq_iff]
    exact exists_congr fun ids' => and_iff_right (Module.exists_read_specIds ids')
  · exact congrArg propertyText

/-- Two constants. -/
def twoIds : SpecIds := ⟨[("A", 0), ("B", 1)], by decide⟩

/-- One constant, whose name holds what is written of another one. -/
def nestedId : SpecIds := ⟨[("A=1|0\nB", 1)], by decide⟩

/-- Both have the same text: two numbers always share theirs with others, though not with others
whose names have no line ends. -/
theorem propertyText_nestedId :
    twoIds.IsRecovered ∧ nestedId.IsRecovered ∧ nestedId ≠ twoIds ∧
      twoIds.propertyText = "[SYCL/specialization constants]\nA=1|0\nB=1|1\n" ∧
      nestedId.propertyText = twoIds.propertyText ∧
      (∃ ids' : SpecIds, ids'.IsRecovered ∧ ids' ≠ twoIds ∧
        ids'.propertyText = twoIds.propertyText) ∧
      ¬ ∀ name ∈ nestedId.keys, '\n' ∉ name.toList := by
  obtain ⟨htwo, hiff, hplain⟩ := exists_recovered_ne_iff twoIds
  obtain ⟨hnested, -, -⟩ := exists_recovered_ne_iff nestedId
  have hne : nestedId ≠ twoIds := fun h => absurd (congrArg SortedMap.size h) (by decide)
  have htext : nestedId.propertyText = twoIds.propertyText := by decide +kernel
  refine ⟨htwo, hnested, hne, by decide +kernel, htext, hiff.mpr (.inl (by decide)), fun h => ?_⟩
  exact hne ((hplain (by decide) nestedId hnested h).mp htext)

end SpecIds

end DeviceCode
