import DeviceCode.Proofs.Assembly.Checks
import DeviceCode.Proofs.Assembly.CoupledEntity
import DeviceCode.Proofs.Module.Equality

/-!
# Texts one behind the other

A text that ends with a line end is like every text that goes on behind it (`likeness_seam`), so its
entities are read in front of those of the other one.  No blank, comment or name reaches across the
seam: two modules with no name in common are read from the concatenation of their texts as one
(`read_append`).
-/

namespace DeviceCode

namespace Assembly

open Text (isBlank)

/-! ## Seams -/

/-- Each text is like itself. -/
theorem likeness_eq : Likeness Eq [] where
  nil h := ⟨h.symm, rfl⟩
  cons h _ := ⟨_, h.symm, rfl⟩
  newline h := ⟨'\n', _, h.symm, by decide⟩
  skip h := by simp [h]
  across h := .inl (by rw [h])

/-- The text `s` ends with a line end, and `s'` goes on behind it. -/
def Seam (behind s s' : List Char) : Prop := s.getLast? = some '\n' ∧ s' = s ++ behind

section Seam

variable {s : List Char}

/-- The last character of a text with one more in front. -/
theorem getLast?_tail {c d : Char} (h : (c :: s).getLast? = some d) :
    s = [] ∧ c = d ∨ s.getLast? = some d := by
  cases s with
  | nil => exact .inl ⟨rfl, by simpa using h⟩
  | cons e r => exact .inr (by rwa [List.getLast?_cons_cons] at h)

/-- Passing over blanks stays in front of the seam, or comes to it and goes on behind it. -/
theorem dropBlanks_append (behind : List Char) (across inComment : Bool)
    (h : s.getLast? = some '\n') :
    Seam behind (dropBlanks across inComment s) (dropBlanks across inComment (s ++ behind)) ∨
      across ∧ dropBlanks across inComment s = [] ∧
        dropBlanks across inComment (s ++ behind) = dropBlanks across false behind := by
  induction s generalizing inComment with
  | nil => cases h
  | cons c r ih =>
      rw [List.cons_append, dropBlanks, dropBlanks]
      by_cases hc : c = '\n'
      · subst hc
        cases across with
        | false => exact .inl ⟨h, rfl⟩
        | true =>
            rcases getLast?_tail h with ⟨rfl, -⟩ | h
            · exact .inr ⟨rfl, rfl, rfl⟩
            · exact ih false h
      · have h := (getLast?_tail h).resolve_left fun hr => hc hr.2
        rw [if_neg hc, if_neg hc]
        split
        · exact ih true h
        · split
          · exact ih false h
          · refine .inl ⟨?_, rfl⟩
            obtain ⟨d, r', rfl⟩ := List.exists_cons_of_ne_nil (l := r) (by rintro rfl; cases h)
            rwa [List.getLast?_cons_cons]

/-- Up to its seam a text is like the longer one, and no comment reaches across, as it ends with its
line. -/
theorem likeness_seam (behind : List Char) :
    Likeness (Seam behind) (dropBlanks true false behind) where
  nil h := nomatch h.1
  cons := by
    rintro c r _ ⟨h, rfl⟩ hc
    exact ⟨_, rfl, (getLast?_tail h).resolve_left fun hr => hc hr.2, rfl⟩
  newline := by
    rintro r _ ⟨-, rfl⟩
    exact ⟨'\n', _, rfl, by decide⟩
  skip := by
    rintro s _ ⟨h, rfl⟩
    have hskip := (dropBlanks_append behind false false h).resolve_right fun hr =>
      Bool.false_ne_true hr.1
    refine ⟨hskip, ?_⟩
    rw [skip, hskip.2]
    exact List.head?_append_of_ne_nil _ fun hnil => by
      rw [hnil] at hskip
      cases hskip.1
  across := by
    rintro s _ ⟨h, rfl⟩
    exact (dropBlanks_append behind true false h).imp_right fun hr => hr.2

end Seam

end Assembly

/-! ## Modules -/

open Assembly

namespace Module

variable {m n : Module}

/-- The definitions of two modules, with the source name that was given last. -/
def append (m n : Module) : Module where
  sourceName := n.sourceName.or m.sourceName
  globals := m.globals ++ n.globals
  functions := m.functions ++ n.functions
  debugRecords := m.debugRecords ++ n.debugRecords

/-- Of two texts in a row the entities of each kind are those of the first and then those of the
second. -/
theorem ofEntities_append (es es' : List Entity) :
    ofEntities (es ++ es') = (ofEntities es).append (ofEntities es') := by
  simp [ofEntities, append, List.getLast?_append]

theorem names_append_perm (m n : Module) : (m.append n).names.Perm (m.names ++ n.names) := by
  simp only [names, append, List.map_append, List.append_assoc]
  exact (List.perm_append_comm_assoc _ _ _).append_left _

/-- Two modules without a common name are well-formed together: what one resolves, both do. -/
theorem WellFormed.append (hm : m.WellFormed) (hn : n.WellFormed)
    (names : ∀ x ∈ m.names, x ∉ n.names) (records : ∀ id ∈ m.recordIds, id ∉ n.recordIds) :
    (m.append n).WellFormed := by
  have hperm := names_append_perm m n
  have hrecords : (m.append n).recordIds = m.recordIds ++ n.recordIds := List.map_append
  have left : ∀ x ∈ m.names, x ∈ (m.append n).names := fun x hx =>
    hperm.mem_iff.mpr (List.mem_append_left _ hx)
  have right : ∀ x ∈ n.names, x ∈ (m.append n).names := fun x hx =>
    hperm.mem_iff.mpr (List.mem_append_right _ hx)
  have leftRecords : ∀ id ∈ m.recordIds, id ∈ (m.append n).recordIds := fun id hid =>
    hrecords ▸ List.mem_append_left _ hid
  have rightRecords : ∀ id ∈ n.recordIds, id ∈ (m.append n).recordIds := fun id hid =>
    hrecords ▸ List.mem_append_right _ hid
  constructor
  case names =>
    exact hperm.nodup_iff.mpr (List.nodup_append.mpr ⟨hm.names, hn.names,
      fun x hx y hy hxy => names x hx (hxy ▸ hy)⟩)
  case records =>
    exact hrecords ▸ List.nodup_append.mpr ⟨hm.records, hn.records,
      fun x hx y hy hxy => records x hx (hxy ▸ hy)⟩
  case functions => exact List.forall_mem_append.mpr ⟨hm.functions, hn.functions⟩
  case globals => exact List.forall_mem_append.mpr ⟨hm.globals, hn.globals⟩
  case functionSymbols =>
    exact List.forall_mem_append.mpr ⟨fun f hf s hs => left s (hm.functionSymbols f hf s hs),
      fun f hf s hs => right s (hn.functionSymbols f hf s hs)⟩
  case globalSymbols =>
    exact List.forall_mem_append.mpr ⟨fun g hg s hs => left s (hm.globalSymbols g hg s hs),
      fun g hg s hs => right s (hn.globalSymbols g hg s hs)⟩
  case debug =>
    exact List.forall_mem_append.mpr ⟨fun f hf id hid => leftRecords id (hm.debug f hf id hid),
      fun f hf id hid => rightRecords id (hn.debug f hf id hid)⟩
  case metadata =>
    exact List.forall_mem_append.mpr ⟨fun f hf id hid => leftRecords id (hm.metadata f hf id hid),
      fun f hf id hid => rightRecords id (hn.metadata f hf id hid)⟩
  case units =>
    exact List.forall_mem_append.mpr ⟨fun r hr id hid => leftRecords id (hm.units r hr id hid),
      fun r hr id hid => rightRecords id (hn.units r hr id hid)⟩

/-- If two texts are read, the first one ends with a line end and no name or record is in both, then
the one behind the other is read as what is in the first and then what is in the second. -/
theorem read_append {s t : String} (hs : Module.read s = .ok m) (ht : Module.read t = .ok n)
    (hend : s.toList.getLast? = some '\n') (names : ∀ x ∈ m.names, x ∉ n.names)
    (records : ∀ id ∈ m.recordIds, id ∉ n.recordIds) :
    Module.read (s ++ t) = .ok (m.append n) := by
  have hw := (wellFormed_of_read hs).append (wellFormed_of_read ht) names records
  obtain ⟨es, c, -, he, -, -, rfl⟩ := readChars_eq_ok_iff.mp (Except.mapError_eq_ok.mp hs)
  obtain ⟨es', c', -, he', -, -, rfl⟩ := readChars_eq_ok_iff.mp (Except.mapError_eq_ok.mp ht)
  rw [← ofEntities_append] at hw ⊢
  -- the second text is read alike whatever is on the trace
  have hbehind : Scan.Reads Scan.entities t.toList (es' ++ []) [] :=
    Scan.reads_entities_append likeness_eq rfl he'
      (Scan.reads_many_nil (Scan.reads_place.bind .pure))
  rw [List.append_nil] at hbehind
  have hread : Scan.Reads Scan.entities (s ++ t).toList (es ++ es') [] := by
    rw [String.toList_append]
    exact Scan.reads_entities_append (likeness_seam t.toList) ⟨hend, rfl⟩ he hbehind
  rw [Module.read, readChars_of_reads hread hw]
  rfl

/-- A kernel with a comment behind it. -/
def firstText : String :=
  "source_filename = \"a.cpp\"\n\ndefine spir_kernel void @f(%x) !dbg !0 \x7b\nentry:\n" ++
    "  br ^entry ; again\n\x7d\n!0 = compile_unit \"a.cpp\" ; \"\n; \x7b\n\n"

/-- A function with the same values and labels, in front of its global variable. -/
def secondText : String :=
  " ; the rest\n\n  source_filename = \"b.cpp\"\ndefine void @g(%x) \x7b\nentry:\n" ++
    "  ret %x, @h !dbg !1\n\x7d\n!1 = compile_unit \"b.cpp\"\n@h = global i32 0"

def firstModule : Module where
  sourceName := some "a.cpp"
  globals := []
  functions := [
    { Function.declaration "f" .void ["x"] with
      convention := .kernel
      debug := some 0
      body := some [⟨"entry", [⟨none, .operation "br" [.block "entry"], []⟩]⟩] }]
  debugRecords := [⟨0, .compileUnit "a.cpp"⟩]

def secondModule : Module where
  sourceName := some "b.cpp"
  globals := [⟨"h", .external, false, some (.scalar .i32 (.int 0))⟩]
  functions := [
    { Function.declaration "g" .void ["x"] with
      body := some [⟨"entry", [
        ⟨none, .operation "ret" [.value "x", .symbol "h"], [⟨"dbg", .metadata 1⟩]⟩]⟩] }]
  debugRecords := [⟨1, .compileUnit "b.cpp"⟩]

/-- Two texts that use their own names only are read as one behind each other. -/
theorem firstText_append_secondText :
    Module.read firstText = .ok firstModule ∧ Module.read secondText = .ok secondModule ∧
      Module.read (firstText ++ secondText) = .ok (firstModule.append secondModule) := by
  have hfirst : Module.read firstText = .ok firstModule := by decide +kernel
  have hsecond : Module.read secondText = .ok secondModule := by decide +kernel
  have hrecords : ∀ id ∈ firstModule.recordIds, id ∉ secondModule.recordIds := by
    simp [recordIds, firstModule, secondModule]
  exact ⟨hfirst, hsecond, read_append hfirst hsecond (by decide +kernel) (by decide) hrecords⟩

end Module

end DeviceCode
