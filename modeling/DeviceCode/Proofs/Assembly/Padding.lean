import DeviceCode.Proofs.Assembly.Concatenation

/-!
# Comments and blank lines

Nothing but line ends divides a text, and blanks and comments in front of a line end or in lines of
their own are passed over wherever a line may end.  So a text is like every text with more of them
at its line ends (`likeness_padded`), and is read as the same module (`read_of_padded`).
-/

namespace DeviceCode

namespace Assembly

open Text (isBlank)

/-! ## Lines without tokens -/

/-- A line of blanks, and perhaps a comment behind them. -/
structure IsBare (line : List Char) : Prop where
  newline : '\n' ∉ line
  comment : ∀ c ∈ (line.dropWhile isBlank).head?, c = ';'

instance (line : List Char) : Decidable (IsBare line) :=
  decidable_of_iff ('\n' ∉ line ∧ (line.dropWhile isBlank).head?.all (· == ';'))
    ⟨fun ⟨newline, comment⟩ =>
      ⟨newline, fun c hc => beq_iff_eq.mp ((Option.all_eq_true _ _).mp comment c hc)⟩,
      fun h =>
        ⟨h.newline, (Option.all_eq_true _ _).mpr fun c hc => beq_iff_eq.mpr (h.comment c hc)⟩⟩

section Lines

variable {across : Bool} {c : Char} {line s : List Char}

theorem isBare_nil : IsBare [] := ⟨List.not_mem_nil, nofun⟩

/-- A line that begins with a blank is bare if the rest of it is. -/
theorem isBare_cons (hc : isBlank c) :
    IsBare (c :: line) ↔ c ≠ '\n' ∧ IsBare line := by
  constructor
  · rintro ⟨newline, comment⟩
    rw [List.mem_cons, not_or] at newline
    rw [List.dropWhile_cons_of_pos hc] at comment
    exact ⟨Ne.symm newline.1, newline.2, comment⟩
  · rintro ⟨hne, newline, comment⟩
    refine ⟨?_, by rwa [List.dropWhile_cons_of_pos hc]⟩
    rw [List.mem_cons, not_or]
    exact ⟨Ne.symm hne, newline⟩

/-- What is no blank in a line without tokens begins a comment. -/
theorem IsBare.isBlank_or (h : IsBare (c :: line)) : isBlank c ∨ c = ';' := by
  by_cases hc : isBlank c
  · exact .inl hc
  · refine .inr (h.comment c ?_)
    rw [List.dropWhile_cons_of_neg hc]
    rfl

/-- A blank and a comment make a bare line. -/
theorem isBare_comment (h : '\n' ∉ line) : IsBare (' ' :: ';' :: line) := by
  refine (isBare_cons (by decide)).mpr ⟨by decide, ?_, fun c hc => ?_⟩
  · simpa using h
  · rw [List.dropWhile_cons_of_neg (by decide)] at hc
    exact (Option.some.inj hc).symm

/-- A comment is dropped up to the end of its line, whatever is in it. -/
theorem dropBlanks_comment (h : '\n' ∉ line) :
    dropBlanks across true (line ++ '\n' :: s) = dropBlanks across false ('\n' :: s) := by
  induction line with
  | nil => rfl
  | cons c line ih =>
      rw [List.mem_cons, not_or] at h
      rw [List.cons_append, dropBlanks, if_neg (Ne.symm h.1), Bool.true_or, if_pos rfl]
      exact ih h.2

/-- In a comment or not, a line without tokens is passed over up to its end. -/
theorem IsBare.dropBlanks (h : IsBare line) (inComment : Bool) :
    dropBlanks across inComment (line ++ '\n' :: s) = dropBlanks across false ('\n' :: s) := by
  cases inComment with
  | true => exact dropBlanks_comment h.newline
  | false =>
      induction line with
      | nil => rfl
      | cons c line ih =>
          have hnewline := h.newline
          rw [List.mem_cons, not_or] at hnewline
          rw [List.cons_append, Assembly.dropBlanks, if_neg (Ne.symm hnewline.1), Bool.false_or]
          by_cases hc : c = ';'
          · rw [if_pos (decide_eq_true hc)]
            exact dropBlanks_comment hnewline.2
          · have hblank := h.isBlank_or.resolve_right hc
            rw [if_neg (by simpa using hc), if_pos hblank]
            exact ih ((isBare_cons hblank).mp h).2

/-- Any number of bare lines is dropped between tokens. -/
theorem dropBlanks_bareLines {ls : List (List Char)} (h : ∀ l ∈ ls, IsBare l) :
    dropBlanks true false (ls.flatMap (· ++ ['\n']) ++ s) = dropBlanks true false s := by
  induction ls with
  | nil => rfl
  | cons l ls ih =>
      obtain ⟨hl, hls⟩ := List.forall_mem_cons.mp h
      rw [List.flatMap_cons, List.append_assoc, List.append_assoc, List.singleton_append,
        hl.dropBlanks, dropBlanks_newline]
      exact ih hls

end Lines

/-! ## Padded texts -/

/-- The second text is the first one with blanks and comments in front of some of its line ends, and
lines without tokens behind them.  What is put in front of a line end begins with a blank, so that
it does not run on from a token. -/
inductive Padded : List Char → List Char → Prop where
  | nil : Padded [] []
  | cons (c : Char) {s s' : List Char} : Padded s s' → Padded (c :: s) (c :: s')
  | line {padding : List Char} {ls : List (List Char)} {s s' : List Char} (front : IsBare padding)
    (apart : padding.head? ≠ some ';') (behind : ∀ l ∈ ls, IsBare l) : Padded s s' →
    Padded ('\n' :: s) (padding ++ '\n' :: (ls.flatMap (· ++ ['\n']) ++ s'))

namespace Padded

variable {s s' : List Char}

theorem refl (s : List Char) : Padded s s := by
  induction s with
  | nil => exact .nil
  | cons c s ih => exact .cons c ih

theorem append_left (h : Padded s s') (before : List Char) :
    Padded (before ++ s) (before ++ s') := by
  induction before with
  | nil => exact h
  | cons c before ih => exact .cons c ih

/-- The padding at the line ends is passed over with the blanks there. -/
theorem dropBlanks (h : Padded s s') (across inComment : Bool) :
    Padded (dropBlanks across inComment s) (dropBlanks across inComment s') ∧
      (Assembly.dropBlanks across inComment s').head? =
        (Assembly.dropBlanks across inComment s).head? := by
  induction h generalizing inComment with
  | nil => exact ⟨.nil, rfl⟩
  | cons c h ih =>
      rw [Assembly.dropBlanks, Assembly.dropBlanks]
      split
      · cases across with
        | true => exact ih false
        | false => exact ⟨.cons c h, rfl⟩
      · split
        · exact ih true
        · split
          · exact ih false
          · exact ⟨.cons c h, rfl⟩
  | line front apart behind h ih =>
      rw [front.dropBlanks]
      cases across with
      | true =>
          have hnewline (s : List Char) : Assembly.dropBlanks true inComment ('\n' :: s) =
              Assembly.dropBlanks true false s := rfl
          rw [hnewline, dropBlanks_newline, dropBlanks_bareLines behind]
          exact ih false
      | false => exact ⟨.line isBare_nil (Option.some_ne_none ';').symm behind h, rfl⟩

end Padded

/-- Scans cannot tell a padded text from the text, as they drop blanks and comments before they read
a token. -/
theorem likeness_padded : Likeness Padded [] where
  nil h := by
    cases h
    exact ⟨rfl, rfl⟩
  cons h hc := by
    cases h with
    | cons _ h => exact ⟨_, rfl, h⟩
    | line => exact absurd rfl hc
  newline h := by
    cases h with
    | cons _ h => exact ⟨'\n', _, rfl, by decide⟩
    | @line padding _ _ _ front apart _ _ =>
        cases padding with
        | nil => exact ⟨'\n', _, rfl, by decide⟩
        | cons c padding =>
            exact ⟨c, _, rfl, front.isBlank_or.resolve_right fun hc => apart (by rw [hc]; rfl)⟩
  skip h := h.dropBlanks false false
  across h := .inl (h.dropBlanks true false).1

end Assembly

/-! ## Modules -/

open Assembly

namespace Module

variable {m : Module}

/-- A padded text is read as the text that it pads. -/
theorem read_of_padded {text padded : String} (hp : Padded text.toList padded.toList)
    (h : Module.read text = .ok m) : Module.read padded = .ok m := by
  have hw := wellFormed_of_read h
  obtain ⟨es, c, -, he, -, -, rfl⟩ := readChars_eq_ok_iff.mp (Except.mapError_eq_ok.mp h)
  have hread : Scan.Reads Scan.entities padded.toList (es ++ []) [] :=
    Scan.reads_entities_append likeness_padded hp he
      (Scan.reads_many_nil (Scan.reads_place.bind .pure))
  rw [List.append_nil] at hread
  rw [Module.read, readChars_of_reads hread hw]
  rfl

/-- A comment in front of a line end, or lines of blanks and comments behind it, do not change what
is read. -/
theorem read_commented {before comment after : String} {blankLines : List String}
    (h : Module.read (before ++ "\n" ++ after) = .ok m) (hcomment : '\n' ∉ comment.toList)
    (hlines : ∀ l ∈ blankLines, IsBare l.toList) :
    Module.read (before ++ " ;" ++ comment ++ "\n" ++ after) = .ok m ∧
      Module.read (before ++ "\n" ++ lines blankLines ++ after) = .ok m := by
  have htext : (before ++ "\n" ++ after).toList = before.toList ++ '\n' :: after.toList := by simp
  constructor
  · refine read_of_padded ?_ h
    have hpadded := (Padded.line (isBare_comment hcomment) nofun (List.forall_mem_nil _)
      (.refl after.toList)).append_left before.toList
    rw [htext]
    simpa using hpadded
  · refine read_of_padded ?_ h
    have hbare : ∀ l ∈ blankLines.map String.toList, IsBare l := List.forall_mem_map.mpr hlines
    have hpadded := (Padded.line isBare_nil nofun hbare (.refl after.toList)).append_left
      before.toList
    rw [htext]
    simpa [lines, List.flatMap_map] using hpadded

/-- A function up to its label, with a quote in a comment. -/
def labelText : String := "define void @f(%x) \x7b ; \"\nentry:"

/-- The rest of the function, with a comment in front of a carriage return, and a global variable
without a line end. -/
def returnText : String := "  ret %x ; done\r\n\x7d\n@g = global i32 0"

/-- What stands in the two texts. -/
def returningModule : Module where
  sourceName := none
  globals := [⟨"g", .external, false, some (.scalar .i32 (.int 0))⟩]
  functions := [
    { Function.declaration "f" .void ["x"] with
      body := some [⟨"entry", [⟨none, .operation "ret" [.value "x"], []⟩]⟩] }]
  debugRecords := []

/-- The same module with comments behind a line end, and with bare lines of other blanks in
between. -/
theorem returnText_commented :
    Module.read (labelText ++ "\n" ++ returnText) = .ok returningModule ∧
      Module.read (labelText ++ " ;" ++ " \x7d @g \"" ++ "\n" ++ returnText) =
        .ok returningModule ∧
      Module.read (labelText ++ "\n" ++ lines ["", " \t\r", "; exit:", "\u00a0;;"] ++ returnText) =
        .ok returningModule := by
  have hread : Module.read (labelText ++ "\n" ++ returnText) = .ok returningModule := by
    decide +kernel
  exact ⟨hread, read_commented hread (by decide) (by decide)⟩

end Module

end DeviceCode
