import DeviceCode.Proofs.Assembly.Faithful

/-!
# Names where they are written: bodies and initializers

Most names stand behind a sigil, and the scan has read it.  The label of a block has none: it begins
its line, or follows the brace of its body, and only blanks and comments come in between.  Hence the
scans of blocks ensure that behind them no sigil announces a name.
-/

namespace DeviceCode.Assembly.Scan

variable {α : Type} {text : List Char}

/-! ## Lists -/

section Lists

variable {x : Scan α} (hx : Faithful text x)
include hx

/-- A character in front takes nothing from a scan that is faithful wherever it begins. -/
theorem faithful_behind (ch : Char) : Faithful text (behind ch x) :=
  Faithful.tryChar (Faithful.map hx.anywhere _) Faithful.pure

/-- A list in parentheses or brackets notes what its elements note. -/
theorem faithful_commaList (h : Shrinks (fun _ => 0) x) : Faithful text (commaList x h) :=
  hx.bind fun _ => (ensures_many (faithful_behind hx ',')).bind fun _ => Faithful.pure

/-- The elements of a list may end where it is closed, so the closing character is looked for
first. -/
theorem faithful_listUntil (close : Char) (h : Shrinks (fun _ => 0) x) :
    Faithful text (listUntil close x h) :=
  Faithful.tryChar (Ensures.pure fun _ _ => trivial) <|
    (faithful_commaList hx h).bind fun _ => faithful_expect.bind fun _ => Faithful.pure

end Lists

/-! ## Instructions -/

section Instructions

/-- An operand is announced by its first character: every sigil stands directly in front of the name
that is noted. -/
theorem faithful_operand : Faithful text operand := by
  refine Faithful.tryChar (Faithful.map (ensures_noted fun _ => rfl) _) <|
    Faithful.tryChar (Faithful.map (ensures_noted fun _ => rfl) _) <|
      Faithful.tryChar (Faithful.map (ensures_noted fun _ => rfl) _) <|
        faithful_peek?.bind fun c => ?_
  split
  · exact Faithful.map faithful_string _
  · exact Faithful.map faithful_metadataUse _
  · exact faithful_valueType.bind fun type => Faithful.map (faithful_literal type) _
  · exact ensures_fail rfl

/-- A callee is a symbol or a value, and each has its sigil. -/
theorem faithful_callee : Faithful text callee :=
  Faithful.tryChar (Faithful.map (ensures_noted fun _ => rfl) _) <|
    Faithful.tryChar (Faithful.map (ensures_noted fun _ => rfl) _) <|
      ensures_next?_fail fun _ => rfl

theorem faithful_call : Faithful text call :=
  faithful_valueType.bind fun _ => faithful_callee.bind fun _ => faithful_expect.bind fun _ =>
    (faithful_listUntil faithful_operand ')' _).bind fun _ => Faithful.pure

theorem faithful_operation (opcode : String) : Faithful text (operation opcode) :=
  faithful_isAtLineEnd.bind fun _ => faithful_next?.bind fun _ =>
    Ensures.ite (fun _ => Faithful.pure) fun _ =>
      Faithful.map (faithful_commaList faithful_operand _) _

theorem faithful_attachment : Faithful text attachment :=
  faithful_keyword.bind fun _ => faithful_operand.bind fun _ => Faithful.pure

/-- The result stands in front of the equals sign; without a sigil there is none. -/
theorem faithful_result? : Faithful text result? := by
  refine ensures_next?.bind fun c => Ensures.ite (fun hc => ?_) fun _ =>
    Ensures.pure fun _ _ => trivial
  have hadvance : Ensures text (fun r => r.head? = some '%') advance
      fun _ => Announced text (some '%') := ensures_advance
  refine Ensures.bind (hadvance.mono (fun _ h => h.1 ▸ hc) fun _ _ h => h) fun _ => ?_
  exact (ensures_noted fun _ => rfl).bind fun _ => faithful_expect.bind fun _ => Faithful.pure

theorem faithful_action : Faithful text action :=
  faithful_keyword.bind fun opcode =>
    Ensures.ite (fun _ => faithful_call) fun _ => faithful_operation opcode

theorem faithful_instruction : Faithful text instruction :=
  faithful_result?.bind fun _ => faithful_action.bind fun _ =>
    (ensures_many (faithful_behind faithful_attachment '!')).bind fun _ => Faithful.pure

end Instructions

/-! ## Blocks -/

section Blocks

/-- An instruction of a block ends with its line, so behind it no sigil announces a name; a label
stays unread. -/
theorem ensures_blockItem :
    Ensures text (Announced text none) blockItem fun _ => Announced text none :=
  (ensures_blanks true).bind fun _ => ensures_place.bind fun _ =>
    Ensures.ite (fun _ => Ensures.pure fun _ h => h.2) fun _ =>
      faithful_instruction.anywhere.bind fun _ => ensures_expectLineEnd.bind fun _ =>
        Ensures.pure fun _ h => h

/-- The label of a block is noted where nothing announces a name, as it should have no sigil. -/
theorem ensures_block : Ensures text (Announced text none) block fun _ => Announced text none := by
  refine ensures_place.bind fun start => ensures_name.bind fun label =>
    Ensures.of_forall (fun _ h => h) fun hlabel => faithful_expect.anywhere.bind fun _ =>
      (ensures_note_true ?_).bind fun _ => ensures_expectLineEnd.bind fun _ =>
        (ensures_many ensures_blockItem).bind fun _ => Ensures.pure fun _ h => h
  rintro _ ⟨⟩
  exact hlabel

/-- The labels of all blocks stand where no sigil announces them: behind the brace, or behind a
line. -/
theorem ensures_bodyItem (function : String) :
    Ensures text (Announced text none) (bodyItem function) fun _ => Announced text none :=
  ensures_tryChar_ite (Ensures.pure fun _ h => h)
    (ensures_place.bind fun _ => Ensures.ite (fun _ => ensures_fail rfl) fun _ =>
      (ensures_block.mono (fun _ h => h.2) fun _ _ h => h).bind fun _ =>
        (ensures_blanks true).bind fun _ => Ensures.pure fun _ h => h)
    fun _ h hsuffix => h.dropBlanks hsuffix false

theorem faithful_body (function : String) : Faithful text (body function) :=
  -- the brace is no sigil, so none is announced behind it
  ensures_expect.bind fun _ => (ensures_blanks true).bind fun _ =>
    (ensures_many (ensures_bodyItem function)).bind fun _ => ensures_place.bind fun _ =>
      (ensures_note rfl _).bind fun _ => Ensures.pure fun _ _ => trivial

end Blocks

/-! ## Initializers -/

section Initializers

/-- A piece of an initializer is a leaf or the beginning of an array; a symbol among the leaves has
its sigil. -/
theorem faithful_piece : Faithful text piece := by
  refine Faithful.tryChar (Faithful.map (ensures_noted fun _ => rfl) _) <|
    Faithful.tryChar ?_ <| faithful_peek?.bind fun _ =>
      Ensures.ite (fun _ => Faithful.map faithful_string _) fun _ =>
        faithful_place.bind fun _ => faithful_keyword.bind fun word =>
          Ensures.ite (fun _ => Faithful.pure) fun _ => ?_
  · exact Faithful.anywhere (Faithful.tryChar (Ensures.pure fun _ _ => trivial) Faithful.pure)
  · cases ValueType.ofName? word with
    | none => exact ensures_failAt rfl
    | some type => exact Faithful.map (faithful_literal type) _

theorem faithful_separator : Faithful text separator :=
  Faithful.tryChar (Ensures.pure fun _ _ => trivial) <|
    faithful_expect.bind fun _ => Faithful.pure

mutual

/-- An initializer is read with the arrays around it on a stack.  Reading on inside of them keeps
the cursor sound, by induction on the text that is left. -/
theorem outcome_readWithin (outer : List (List Initializer)) {c : Cursor} (hc : c.Sound text) :
    Outcome text (fun _ _ => True) (readWithin outer c) := by
  have hpiece := faithful_piece c hc trivial
  rw [readWithin]
  split
  case h_1 e =>
      rw [e] at hpiece
      exact hpiece
  case h_2 e =>
      have := shrinks_piece _ _ _ e
      rw [e] at hpiece
      exact outcome_readWithin ([] :: outer) hpiece.1
  case h_3 value _ e =>
      have := shrinks_piece _ _ _ e
      rw [e] at hpiece
      exact outcome_resumeWithin outer value hpiece.1
termination_by c.rest.length

/-- The same of reading on behind a value that is complete. -/
theorem outcome_resumeWithin (outer : List (List Initializer)) (value : Initializer) {c : Cursor}
    (hc : c.Sound text) : Outcome text (fun _ _ => True) (resumeWithin outer value c) := by
  cases outer with
  | nil =>
      rw [resumeWithin]
      exact ⟨hc, trivial⟩
  | cons elements outer =>
      have hseparator := faithful_separator c hc trivial
      rw [resumeWithin]
      split
      case h_1 e =>
          rw [e] at hseparator
          exact hseparator
      case h_2 e =>
          have := shrinks_separator _ _ _ e
          rw [e] at hseparator
          exact outcome_readWithin ((value :: elements) :: outer) hseparator.1
      case h_3 e =>
          have := shrinks_separator _ _ _ e
          rw [e] at hseparator
          exact outcome_resumeWithin outer (.array (value :: elements).reverse) hseparator.1
termination_by c.rest.length

end

theorem faithful_initializer : Faithful text initializer :=
  fun _ hc _ => outcome_readWithin [] hc

end Initializers

end DeviceCode.Assembly.Scan
