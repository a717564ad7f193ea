import DeviceCode.Proofs.Assembly.Reads

/-!
# Reading instructions and blocks

`IsWritable` says of each part of a function body that its names, opcodes and literals can be
written down, each by itself.  The scan of every phrase reads what is writable from its written
form, in front of any text that ends the phrase.
-/

namespace DeviceCode

open Assembly

open Text (quoted)

/-! ## What can be written -/

/-- A name that is written behind a sigil has to be a word, and a literal has to fit its type, as
the type is written in front of it. -/
def Operand.IsWritable : Operand → Prop
  | value name | symbol name | block name => IsIdentifier name
  | constant type literal => literal.HasType type
  | string _ | metadata _ => True

def Callee.IsWritable : Callee → Prop
  | direct name | indirect name => IsIdentifier name

/-- The first operand of an operation must not begin like an attachment. -/
def Action.IsWritable : Action → Prop
  | call _ callee arguments => callee.IsWritable ∧ ∀ o ∈ arguments, o.IsWritable
  | operation opcode operands =>
    IsKeyword opcode ∧ opcode ≠ "call" ∧ (∀ id rest, operands ≠ .metadata id :: rest) ∧
      ∀ o ∈ operands, o.IsWritable

structure Attachment.IsWritable (a : Attachment) : Prop where
  kind : IsKeyword a.kind
  value : a.value.IsWritable

structure Instruction.IsWritable (i : Instruction) : Prop where
  result : ∀ n ∈ i.result, IsIdentifier n
  action : i.action.IsWritable
  attachments : ∀ a ∈ i.attachments, a.IsWritable

structure Block.IsWritable (b : Block) : Prop where
  label : IsIdentifier b.label
  instructions : ∀ i ∈ b.instructions, i.IsWritable

namespace Assembly.Scan

variable {α β : Type}

/-! ## Lists -/

/-- The text begins with a token. -/
def StartsToken (s : List Char) : Prop := ∃ c cs, s = c :: cs ∧ IsPlain c

theorem StartsToken.append {s : List Char} (h : StartsToken s) (r : List Char) :
    StartsToken (s ++ r) := by
  obtain ⟨c, cs, rfl, hc⟩ := h
  exact ⟨c, cs ++ r, rfl, hc⟩

theorem StartsToken.head?_append {s : List Char} (h : StartsToken s) (r : List Char) :
    (s ++ r).head? = s.head? := by
  obtain ⟨c, cs, rfl, hc⟩ := h
  rfl

theorem StartsToken.skip_append {s : List Char} (h : StartsToken s) (r : List Char) :
    skip (s ++ r) = s ++ r := by
  obtain ⟨c, cs, rfl, hc⟩ := h
  exact skip_of_plain hc

/-- The scan reads `a` from the text of a phrase, in front of any text that ends a word. -/
structure ReadsPhrase (x : Scan α) (text : List Char) (a : α) : Prop where
  starts : StartsToken text
  reads : ∀ {s r : List Char}, EndsWord r → skip s = text ++ r → Reads x s a r

theorem ReadsPhrase.behind_space {x : Scan α} {text : List Char} {a : α} (h : ReadsPhrase x text a)
    {r : List Char} (hr : EndsWord r) : Reads x (' ' :: (text ++ r)) a r :=
  h.reads hr (by rw [skip_space]; exact h.starts.skip_append r)

section Lists

variable {item : Scan α} (h : Shrinks (fun _ => 0) item) {value : β → α} {bs : List β}

/-- Items that each stand behind a blank or comma, and the character that announces them. -/
theorem reads_many_behind {ch : Char} {piece body : β → List Char}
    (hpiece : ∀ b r, EndsWord (piece b ++ r) ∧ skip (piece b ++ r) = ch :: (body b ++ r))
    (hi : ∀ b ∈ bs, ∀ r, EndsWord r → Reads item (body b ++ r) (value b) r) {s r : List Char}
    (hr : EndsWord r) (hc : (skip r).head? ≠ some ch) (hs : skip s = skip (bs.flatMap piece ++ r)) :
    Reads (many (behind ch item) (shrinks_behind ch h)) s (bs.map value) (skip r) := by
  induction bs generalizing s with
  | nil =>
      have hs : skip s = skip r := hs
      refine reads_many_nil ?_
      rw [← hs] at hc ⊢
      exact (reads_tryChar_false hc).bind .pure
  | cons b bs ih =>
      rw [List.flatMap_cons, List.append_assoc, (hpiece b _).2] at hs
      have hends : EndsWord (bs.flatMap piece ++ r) := by
        cases bs with
        | nil => exact hr
        | cons b' bs => rw [List.flatMap_cons, List.append_assoc]; exact (hpiece b' _).1
      refine reads_many_cons ?_ (ih (fun b' hb => hi b' (List.mem_cons_of_mem _ hb)) rfl)
      exact (reads_tryChar hs).bind (hi b List.mem_cons_self _ hends).map

/-- A list of texts is the first of them, and each other one behind a separator. -/
theorem toList_intercalate_cons (sep t : String) (ts : List String) :
    (sep.intercalate (t :: ts)).toList =
      t.toList ++ ts.flatMap fun u => sep.toList ++ u.toList := by
  rw [intercalate_cons, String.toList_append, String.toList_join, List.flatMap_map]
  simp only [String.toList_append]

/-- A list is read from its elements with commas between them, if no further comma follows. -/
theorem reads_commaList {text : β → String} {b : β}
    (hi : ∀ b' ∈ b :: bs, ReadsPhrase item (text b').toList (value b')) {s r : List Char}
    (hr : EndsWord r) (hc : (skip r).head? ≠ some ',')
    (hs : skip s = (commaSeparated ((b :: bs).map text)).toList ++ r) :
    Reads (commaList item h) s ((b :: bs).map value) (skip r) := by
  let piece (b' : β) : List Char := ',' :: ' ' :: (text b').toList
  let body (b' : β) : List Char := ' ' :: (text b').toList
  have hpiece : ∀ b' r, EndsWord (piece b' ++ r) ∧ skip (piece b' ++ r) = ',' :: (body b' ++ r) :=
    fun b' r => ⟨by rintro _ ⟨⟩; decide, skip_of_plain (by decide)⟩
  have hends : EndsWord (bs.flatMap piece ++ r) := by
    cases bs with
    | nil => exact hr
    | cons b' bs => rw [List.flatMap_cons, List.append_assoc]; exact (hpiece b' _).1
  rw [commaSeparated, List.map_cons, toList_intercalate_cons, List.flatMap_map, List.append_assoc]
    at hs
  refine ((hi b List.mem_cons_self).reads hends hs).bind
    ((reads_many_behind h hpiece ?_ hr hc rfl).bind .pure)
  exact fun b' hb r hr => (hi b' (List.mem_cons_of_mem _ hb)).behind_space hr

/-- A list that is closed is read up to its end, also if it is empty: no element begins with the
character that closes it. -/
theorem reads_listUntil {text : β → String}
    (hi : ∀ b ∈ bs, ReadsPhrase item (text b).toList (value b))
    (hfirst : ∀ b ∈ bs, (text b).toList.head? ≠ some ')') (r : List Char) :
    Reads (listUntil ')' item h) ((commaSeparated (bs.map text)).toList ++ ')' :: r) (bs.map value)
      r := by
  have hclose : skip (')' :: r) = ')' :: r := skip_of_plain (by decide)
  cases bs with
  | nil =>
      refine (reads_tryChar ?_).bind .pure
      exact hclose
  | cons b bs =>
      have hstart := (hi b List.mem_cons_self).starts
      have hcons : (commaSeparated ((b :: bs).map text)).toList = (text b).toList ++ _ :=
        toList_intercalate_cons _ _ _
      have hskip : skip ((commaSeparated ((b :: bs).map text)).toList ++ ')' :: r) =
          (commaSeparated ((b :: bs).map text)).toList ++ ')' :: r := by
        rw [hcons]
        exact (hstart.append _).skip_append _
      refine (reads_tryChar_false ?_).bind ?_
      · rw [hskip, hcons, List.append_assoc, hstart.head?_append]
        exact hfirst b List.mem_cons_self
      · rw [hskip]
        refine (reads_commaList h hi (by rintro _ ⟨⟩; decide) (by rw [hclose]; simp) hskip).bind
          ((reads_expect ?_).bind .pure)
        rw [skip_skip, hclose]

end Lists

/-! ## Operands -/

section Operands

variable {s r : List Char}

/-- A character that belongs to no word ends words. -/
theorem endsWord_cons {c : Char} (h : isNameChar c = false) (h' : isLiteralChar c = false) :
    EndsWord (c :: r) := by
  rintro _ ⟨⟩
  exact ⟨h, h'⟩

theorem endsWord_space : EndsWord (' ' :: r) := endsWord_cons (by decide) (by decide)

theorem endsWord_newline : EndsWord ('\n' :: r) := endsWord_cons (by decide) (by decide)

theorem isDigit_eq_false_of_endsWord (hr : EndsWord r) : ∀ c ∈ r.head?, c.isDigit = false := by
  intro c hc
  have h := (hr c hc).1
  simp only [isNameChar, Char.isAlphanum, Bool.or_eq_false_iff] at h
  exact h.1.1.1.2

/-- A scan that tries another character than the next one goes on with the other branch. -/
theorem reads_pass {c d : Char} {cs : List Char} {k : Bool → Scan α} {a : α}
    (hs : skip s = d :: cs) (hne : d ≠ c) (hk : Reads (k false) (d :: cs) a r) :
    Reads (tryChar c >>= k) s a r := by
  refine Reads.bind (r := d :: cs) ?_ hk
  have h := reads_tryChar_false (s := s) (c := c) (by rw [hs]; simpa using hne)
  rwa [hs] at h

/-- A string is read as an operand, since its quote announces it. -/
theorem reads_quoted {content : String} (hs : skip s = (quoted content).toList ++ r) :
    Reads operand s (.string content) r := by
  obtain ⟨cs, hq⟩ := exists_quoted_cons content
  rw [hq, List.cons_append] at hs
  have hself : skip ('"' :: (cs ++ r)) = '"' :: (cs ++ r) := skip_of_plain (by decide)
  refine reads_pass hs (by decide) (reads_pass hself (by decide) (reads_pass hself (by decide) ?_))
  refine reads_peek?.bind ?_
  rw [hself]
  refine (reads_string ?_).map
  rw [hself, hq, List.cons_append]

/-- A reference to a debug record is announced by its exclamation mark. -/
theorem reads_record {id : UInt32} (hr : ∀ c ∈ r.head?, c.isDigit = false)
    (hs : skip s = '!' :: (id.toNat.repr.toList ++ r)) : Reads operand s (.metadata id) r := by
  have hself : skip ('!' :: (id.toNat.repr.toList ++ r)) = '!' :: (id.toNat.repr.toList ++ r) :=
    skip_of_plain (by decide)
  refine reads_pass hs (by decide) (reads_pass hself (by decide) (reads_pass hself (by decide) ?_))
  refine reads_peek?.bind ?_
  rw [hself]
  exact (reads_metadataUse hr hself).map

theorem ne_of_isKeywordStart {c d : Char} (hc : isKeywordStart c) (hd : isKeywordStart d = false) :
    c ≠ d := by
  rintro rfl
  rw [hc] at hd
  cases hd

/-- A literal is read behind its type. -/
theorem reads_constant {type : ValueType} {l : Literal} (hl : l.HasType type) (hr : EndsWord r)
    (hs : skip s = (typedText type l).toList ++ r) :
    Reads operand s (.constant type l.canonical) r := by
  have hs : skip s = type.name.toList ++ ' ' :: (l.text.toList ++ r) := by
    simpa [typedText] using hs
  have hself := (isKeyword_typeName type).skip_append (' ' :: (l.text.toList ++ r))
  obtain ⟨c, cs, hc, hstart⟩ := (isKeyword_typeName type).exists_cons_start
  have hne : ∀ d, isKeywordStart d = false → c ≠ d := fun d => ne_of_isKeywordStart hstart
  have htype := reads_valueType (endsWord_space (r := l.text.toList ++ r)) hself
  rw [hc, List.cons_append] at hs hself htype
  refine reads_pass hs (hne _ (by decide)) (reads_pass hself (hne _ (by decide))
    (reads_pass hself (hne _ (by decide)) ?_))
  refine reads_peek?.bind ?_
  rw [hself]
  have hliteral : Reads (literal type) (' ' :: (l.text.toList ++ r)) l.canonical r :=
    reads_literal hl hr (by rw [skip_space]; exact skip_literal hl r)
  split
  case h_1 he => exact absurd (Option.some.inj he) (hne _ (by decide))
  case h_2 he => exact absurd (Option.some.inj he) (hne _ (by decide))
  case h_3 => exact htype.bind hliteral.map
  case h_4 he => cases he

/-- Each operand is read from its written form, by the sigil, quote or word that it begins with. -/
theorem reads_operand {o : Operand} (ho : o.IsWritable) :
    ReadsPhrase operand o.text.toList o.canonical := by
  cases o with
  | value n =>
      have ht : (Operand.value n).text.toList = '%' :: n.toList := by simp [Operand.text]
      rw [ht]
      exact ⟨⟨_, _, rfl, by decide⟩, fun hr hs => (reads_tryChar hs).bind (reads_noted ho hr _).map⟩
  | symbol n =>
      have ht : (Operand.symbol n).text.toList = '@' :: n.toList := by simp [Operand.text]
      rw [ht]
      refine ⟨⟨_, _, rfl, by decide⟩, fun hr hs => reads_pass hs (by decide) ?_⟩
      exact (reads_tryChar (skip_of_plain (by decide))).bind (reads_noted ho hr _).map
  | block n =>
      have ht : (Operand.block n).text.toList = '^' :: n.toList := by simp [Operand.text]
      rw [ht]
      refine ⟨⟨_, _, rfl, by decide⟩, fun hr hs => reads_pass hs (by decide)
        (reads_pass (skip_of_plain (by decide)) (by decide) ?_)⟩
      exact (reads_tryChar (skip_of_plain (by decide))).bind (reads_noted ho hr _).map
  | string content =>
      exact ⟨⟨'"', _, String.toList_ofList, by decide⟩, fun _ hs => reads_quoted hs⟩
  | metadata id =>
      have ht : (Operand.metadata id).text.toList = '!' :: id.toNat.repr.toList := by
        simp [Operand.text]
      rw [ht]
      exact ⟨⟨_, _, rfl, by decide⟩,
        fun hr hs => reads_record (isDigit_eq_false_of_endsWord hr) hs⟩
  | constant type l =>
      have ht : (Operand.constant type l).text.toList =
          type.name.toList ++ ' ' :: l.text.toList := by
        simp [Operand.text, typedText]
      refine ⟨?_, fun hr hs => reads_constant ho hr hs⟩
      rw [ht]
      exact StartsToken.append (isKeyword_typeName type).exists_cons _

theorem head?_operand_ne {o : Operand} (ho : o.IsWritable) : o.text.toList.head? ≠ some ')' := by
  cases o with
  | value | symbol | block | metadata => simp [Operand.text]
  | string content => simp [Operand.text, quoted]
  | constant type l => cases type <;> simp [Operand.text, typedText, ValueType.name]

/-- Of the operands only references to debug records begin like an attachment. -/
theorem head?_operand_eq {o : Operand} (ho : o.IsWritable) (h : o.text.toList.head? = some '!') :
    ∃ id, o = .metadata id := by
  cases o with
  | value | symbol | block => simp [Operand.text] at h
  | string content => simp [Operand.text, quoted] at h
  | constant type l => cases type <;> simp [Operand.text, typedText, ValueType.name] at h
  | metadata id => exact ⟨id, rfl⟩

end Operands

/-! ## Actions -/

section Actions

variable {s r : List Char}

/-- A callee is read by its sigil. -/
theorem reads_callee {c : Callee} (hc : c.IsWritable) : ReadsPhrase callee c.text.toList c := by
  cases c with
  | direct n =>
      have ht : (Callee.direct n).text.toList = '@' :: n.toList := by simp [Callee.text]
      rw [ht]
      exact ⟨⟨_, _, rfl, by decide⟩, fun hr hs => (reads_tryChar hs).bind (reads_noted hc hr _).map⟩
  | indirect n =>
      have ht : (Callee.indirect n).text.toList = '%' :: n.toList := by simp [Callee.text]
      rw [ht]
      refine ⟨⟨_, _, rfl, by decide⟩, fun hr hs => reads_pass hs (by decide) ?_⟩
      exact (reads_tryChar (skip_of_plain (by decide))).bind (reads_noted hc hr _).map

/-- A call is read with its type, its callee and its arguments. -/
theorem reads_call {type : ValueType} {c : Callee} {arguments : List Operand} (hc : c.IsWritable)
    (ha : ∀ o ∈ arguments, o.IsWritable)
    (hs : skip s = type.name.toList ++ ' ' :: (c.text.toList ++
      '(' :: ((commaSeparated (arguments.map Operand.text)).toList ++ ')' :: r))) :
    Reads call s (.call type c (arguments.map Operand.canonical)) r := by
  have hlist := reads_listUntil shrinks_anyOperand (fun o ho => reads_operand (ha o ho))
    (fun o ho => head?_operand_ne (ha o ho)) r
  exact (reads_valueType endsWord_space hs).bind
    (((reads_callee hc).behind_space (endsWord_cons (by decide) (by decide))).bind
      ((reads_expect (skip_of_plain (by decide))).bind (hlist.bind .pure)))

/-- An operation without operands is followed by the end of its line or by an attachment. -/
theorem reads_operation_nil {opcode : String}
    (hnext : (skip r).head? = some '\n' ∨ (skip r).head? = some '!') :
    Reads (operation opcode) r (.operation opcode []) (skip r) := by
  refine reads_isAtLineEnd.bind (reads_next?.bind ?_)
  rw [if_pos]
  · exact .pure
  · rcases hnext with hnext | hnext <;> simp [hnext]

/-- The operands of an operation are read up to the end of the line or the first attachment. -/
theorem reads_operation_cons {opcode : String} {o : Operand} {os : List Operand}
    (hfirst : ∀ id, o ≠ .metadata id) (ho : ∀ o' ∈ o :: os, o'.IsWritable) (hr : EndsWord r)
    (hnext : (skip r).head? = some '\n' ∨ (skip r).head? = some '!') :
    Reads (operation opcode) (' ' :: ((commaSeparated ((o :: os).map Operand.text)).toList ++ r))
      (.operation opcode ((o :: os).map Operand.canonical)) (skip r) := by
  have hstart := (reads_operand (ho o List.mem_cons_self)).starts
  have hcons : (commaSeparated ((o :: os).map Operand.text)).toList = o.text.toList ++ _ :=
    toList_intercalate_cons _ _ _
  have hskip : skip (' ' :: ((commaSeparated ((o :: os).map Operand.text)).toList ++ r)) =
      (commaSeparated ((o :: os).map Operand.text)).toList ++ r := by
    rw [skip_space, hcons]
    exact (hstart.append _).skip_append r
  have hhead : ((commaSeparated ((o :: os).map Operand.text)).toList ++ r).head? =
      o.text.toList.head? := by
    rw [hcons, List.append_assoc, hstart.head?_append]
  -- the first operand begins neither like an attachment nor like the end of the line
  have hrecord : o.text.toList.head? ≠ some '!' := fun he =>
    (head?_operand_eq (ho o List.mem_cons_self) he).elim hfirst
  obtain ⟨c, cs, hc, hplain⟩ := hstart
  refine reads_isAtLineEnd.bind (reads_next?.bind ?_)
  rw [if_neg]
  · refine (reads_commaList shrinks_anyOperand
      (fun o' ho' => reads_operand (ho o' ho')) hr ?_ ?_).map
    · rcases hnext with hnext | hnext <;> simp [hnext]
    · rw [hskip, ← hskip, skip_skip]
  · rw [hskip, hhead]
    rw [hc] at hrecord ⊢
    simpa [hplain.ne_newline] using hrecord

theorem isKeyword_call : IsKeyword "call" := by decide

/-- An action is read up to what follows it; blanks there may have been passed over. -/
theorem reads_action {a : Action} (ha : a.IsWritable) (hr : EndsWord r)
    (hnext : (skip r).head? = some '\n' ∨ (skip r).head? = some '!')
    (hs : skip s = a.text.toList ++ r) :
    ∃ r', skip r' = skip r ∧ Reads action s (a.mapOperands Operand.canonical) r' := by
  cases a with
  | call type c arguments =>
      obtain ⟨hc, ha⟩ := ha
      have hs : skip s = "call".toList ++ ' ' :: (type.name.toList ++ ' ' :: (c.text.toList ++
          '(' :: ((commaSeparated (arguments.map Operand.text)).toList ++ ')' :: r))) := by
        simpa [Action.text] using hs
      refine ⟨r, rfl, (reads_keyword isKeyword_call endsWord_space hs).bind ?_⟩
      rw [if_pos rfl]
      refine reads_call hc ha ?_
      rw [skip_space]
      exact (isKeyword_typeName type).skip_append _
  | operation opcode operands =>
      obtain ⟨hop, hcall, hfirst, ho⟩ := ha
      cases operands with
      | nil =>
          refine ⟨skip r, skip_skip r, (reads_keyword hop hr hs).bind ?_⟩
          rw [if_neg hcall]
          exact reads_operation_nil hnext
      | cons o os =>
          have hs : skip s = opcode.toList ++
              ' ' :: ((commaSeparated ((o :: os).map Operand.text)).toList ++ r) := by
            simpa [Action.text] using hs
          refine ⟨skip r, skip_skip r, (reads_keyword hop endsWord_space hs).bind ?_⟩
          rw [if_neg hcall]
          exact reads_operation_cons (fun id he => hfirst id os (by rw [he])) ho hr hnext

theorem reads_attachment {a : Attachment} (ha : a.IsWritable) (hr : EndsWord r) :
    Reads attachment (a.kind.toList ++ ' ' :: (a.value.text.toList ++ r)) a.canonical r :=
  (reads_keyword ha.kind endsWord_space (ha.kind.skip_append _)).bind
    (((reads_operand ha.value).behind_space hr).bind .pure)

end Actions

/-! ## Instructions -/

section Instructions

variable {s r : List Char}

theorem toList_join_map (text : β → String) (bs : List β) :
    (String.join (bs.map text)).toList = bs.flatMap fun b => (text b).toList := by
  rw [String.toList_join, List.flatMap_map]

/-- The attachments of an instruction are read as long as an exclamation mark follows. -/
theorem reads_attachments {as : List Attachment} (ha : ∀ a ∈ as, a.IsWritable) (hr : EndsWord r)
    (hnext : (skip r).head? ≠ some '!')
    (hs : skip s = skip ((String.join (as.map Attachment.text)).toList ++ r)) :
    Reads (many (behind '!' attachment) (shrinks_behind '!' shrinks_attachment)) s
      (as.map Attachment.canonical) (skip r) := by
  let body (a : Attachment) : List Char := a.kind.toList ++ ' ' :: a.value.text.toList
  let piece (a : Attachment) : List Char := ' ' :: '!' :: body a
  have hpiece : ∀ a r, EndsWord (piece a ++ r) ∧ skip (piece a ++ r) = '!' :: (body a ++ r) := by
    intro a r
    refine ⟨endsWord_space, ?_⟩
    rw [List.cons_append, skip_space]
    exact skip_of_plain (by decide)
  have htext : as.flatMap (fun a => a.text.toList) = as.flatMap piece := by
    simp [piece, body, Attachment.text]
  rw [toList_join_map, htext] at hs
  refine reads_many_behind shrinks_attachment hpiece ?_ hr hnext hs
  intro a ha' r hr
  have h := reads_attachment (ha a ha') hr
  simpa [body] using h

/-- An action begins with a word. -/
theorem exists_word_action {a : Action} (ha : a.IsWritable) :
    ∃ w rest, IsKeyword w ∧ a.text.toList = w.toList ++ rest ∧ ∀ c ∈ rest.head?, c = ' ' := by
  cases a with
  | call type c arguments =>
      exact ⟨"call", _, isKeyword_call, by simp [Action.text]; rfl, by simp⟩
  | operation opcode operands =>
      cases operands with
      | nil => exact ⟨opcode, [], ha.1, by simp [Action.text], by simp⟩
      | cons o os => exact ⟨opcode, _, ha.1, by simp [Action.text]; rfl, by simp⟩

/-- An action begins with its opcode, so it is not taken for a result. -/
theorem startsToken_action {a : Action} (ha : a.IsWritable) :
    StartsToken a.text.toList ∧ a.text.toList.head? ≠ some '%' := by
  obtain ⟨w, rest, hw, ht, -⟩ := exists_word_action ha
  obtain ⟨c, cs, hc, hstart⟩ := hw.exists_cons_start
  rw [ht]
  refine ⟨StartsToken.append hw.exists_cons rest, ?_⟩
  rw [hc, List.cons_append, List.head?_cons]
  exact fun he => ne_of_isKeywordStart hstart (by decide) (Option.some.inj he)

/-- A result is read if one is written; without one, only blanks are passed over. -/
theorem reads_result? {result : Option String} (hn : ∀ n ∈ result, IsIdentifier n)
    (hr : r.head? ≠ some '%') :
    ∃ r', Reads result? ((match result with | some n => "%" ++ n ++ " = " | none => "").toList ++ r)
      result r' ∧ (skip r' = skip r) := by
  cases result with
  | none =>
      refine ⟨r, ?_, rfl⟩
      change Reads result? r none r
      refine reads_next?.bind ?_
      rw [if_neg hr]
      exact .pure
  | some n =>
      have ht : ("%" ++ n ++ " = ").toList ++ r = '%' :: (n.toList ++ ' ' :: '=' :: ' ' :: r) := by
        simp
      refine ⟨' ' :: r, ?_, by rw [skip_space]⟩
      dsimp only
      rw [ht]
      refine reads_next?.bind ?_
      rw [List.head?_cons, if_pos rfl]
      refine reads_advance.bind ((reads_noted (hn n rfl) endsWord_space _).bind
        ((reads_expect ?_).bind .pure))
      rw [skip_space]
      exact skip_of_plain (by decide)

/-- An instruction is read from its written form, in front of the end of its line. -/
theorem reads_instruction {i : Instruction} (hi : i.IsWritable) :
    Reads instruction (i.text.toList ++ '\n' :: r) i.canonical ('\n' :: r) := by
  obtain ⟨result, action, attachments⟩ := i
  obtain ⟨hresult, haction, hattachments⟩ := hi
  dsimp only at hresult haction hattachments
  let tail := (String.join (attachments.map Attachment.text)).toList ++ '\n' :: r
  have htail : EndsWord tail ∧ ((skip tail).head? = some '\n' ∨ (skip tail).head? = some '!') := by
    cases attachments with
    | nil => exact ⟨endsWord_newline, .inl (by simp [tail])⟩
    | cons a as =>
        obtain ⟨rest, ht⟩ : ∃ rest, tail = ' ' :: '!' :: rest :=
          ⟨_, by simp [tail, Attachment.text]; rfl⟩
        rw [ht, skip_space, skip_of_plain (by decide)]
        exact ⟨endsWord_space, .inr rfl⟩
  have ht : (Instruction.mk result action attachments).text.toList ++ '\n' :: r =
      (match result with | some n => "%" ++ n ++ " = " | none => "").toList ++
        (action.text.toList ++ tail) := by
    simp only [Instruction.text, String.toList_append, List.append_assoc]
    rfl
  obtain ⟨hstart, hne⟩ := startsToken_action haction
  obtain ⟨r₁, h₁, hr₁⟩ := reads_result? (r := action.text.toList ++ tail) hresult
    (by rwa [hstart.head?_append])
  obtain ⟨r₂, hr₂, h₂⟩ := reads_action haction htail.1 htail.2
    (hr₁.trans (hstart.skip_append tail))
  have h₃ := reads_attachments hattachments endsWord_newline (by rw [skip_newline]; simp) hr₂
  rw [skip_newline] at h₃
  rw [ht]
  exact h₁.bind (h₂.bind (h₃.bind .pure))

end Instructions

/-! ## Blocks -/

section Blocks

variable {r : List Char}

/-- The text goes on with the end of a body or a label, at once. -/
structure EndsBlock (r : List Char) : Prop where
  starts : StartsToken r
  ends : r.head? = some '\x7d' ∨ startsWithLabel r

theorem StartsToken.dropBlanks {s : List Char} (h : StartsToken s) (across : Bool) :
    dropBlanks across false s = s := by
  obtain ⟨c, cs, rfl, hc⟩ := h
  exact dropBlanks_of_plain hc

theorem startsWithLabel_of_isIdentifier {n : String} (hn : IsIdentifier n) {r : List Char}
    (hr : ∀ c ∈ r.head?, isNameChar c = false) :
    startsWithLabel (n.toList ++ r) = (r.head? == some ':') := by
  obtain ⟨htake, hdrop⟩ := span_append hn.chars hr
  rw [startsWithLabel, htake, hdrop]
  simp [hn.nonempty]

/-- The line of an instruction is neither the end of a block nor a label. -/
theorem not_endsBlock_instruction {i : Instruction} (hi : i.IsWritable) :
    StartsToken (i.text.toList ++ '\n' :: r) ∧ (i.text.toList ++ '\n' :: r).head? ≠ some '\x7d' ∧
      startsWithLabel (i.text.toList ++ '\n' :: r) = false := by
  obtain ⟨result, action, attachments⟩ := i
  obtain ⟨hresult, haction, hattachments⟩ := hi
  cases result with
  | some n =>
      obtain ⟨rest, ht⟩ : ∃ rest, (Instruction.mk (some n) action attachments).text.toList ++
          '\n' :: r = '%' :: rest := ⟨_, by simp [Instruction.text]; rfl⟩
      rw [ht]
      exact ⟨⟨_, _, rfl, by decide⟩, by simp, rfl⟩
  | none =>
      obtain ⟨w, rest, hw, ht, hrest⟩ := exists_word_action haction
      have htext : (Instruction.mk none action attachments).text.toList ++ '\n' :: r =
          w.toList ++ (rest ++ (String.join (attachments.map Attachment.text)).toList ++
            '\n' :: r) := by
        simp [Instruction.text, ht]
      have hhead : ∀ c ∈ (rest ++ (String.join (attachments.map Attachment.text)).toList ++
          '\n' :: r).head?, c = ' ' ∨ c = '\n' := by
        cases rest with
        | cons c cs => exact fun d hd => .inl (hrest d hd)
        | nil =>
            cases attachments with
            | nil => simp
            | cons a as => simp [Attachment.text]
      obtain ⟨c, cs, hc, hstart⟩ := hw.exists_cons_start
      rw [htext]
      refine ⟨StartsToken.append hw.exists_cons _, ?_, ?_⟩
      · rw [hc, List.cons_append, List.head?_cons]
        exact fun he => ne_of_isKeywordStart hstart (by decide) (Option.some.inj he)
      · rw [startsWithLabel_of_isIdentifier hw.toIsIdentifier, beq_eq_false_iff_ne]
        · intro he
          rcases hhead ':' he with h | h <;> cases h
        · intro d hd
          rcases hhead d hd with rfl | rfl <;> decide

/-- An instruction is read as an item of its block, as nothing in front of it is a label or a
brace. -/
theorem reads_blockItem {i : Instruction} (hi : i.IsWritable) {s : List Char}
    (hs : dropBlanks true false s = i.text.toList ++ '\n' :: r) :
    Reads blockItem s (some i.canonical) ('\n' :: r) := by
  have hb := reads_blanks true (s := s)
  rw [hs] at hb
  obtain ⟨⟨c, cs, hc, -⟩, hbrace, hlabel⟩ := not_endsBlock_instruction (r := r) hi
  refine hb.bind (reads_place.bind ?_)
  rw [if_neg]
  · exact (reads_instruction hi).bind (reads_expectLineEnd.bind .pure)
  · rw [hc] at hbrace
    rw [hlabel]
    simpa [hc] using hbrace

/-- The items of a block end in front of a label, a brace or the end of the text. -/
theorem reads_blockItem_none {s : List Char} (hr : EndsBlock r)
    (hs : dropBlanks true false s = r) : Reads blockItem s none r := by
  have hb := reads_blanks true (s := s)
  rw [hs] at hb
  refine hb.bind (reads_place.bind ?_)
  rw [if_pos]
  · exact .pure
  · exact .inr hr.ends

/-- The instructions of a block are read line by line. -/
theorem reads_blockItems {is : List Instruction} (hi : ∀ i ∈ is, i.IsWritable) (hr : EndsBlock r) :
    Reads (many blockItem shrinks_blockItem)
      ('\n' :: (is.flatMap (fun i => ("  " ++ i.text ++ "\n").toList) ++ r))
      (is.map Instruction.canonical) r := by
  induction is with
  | nil =>
      refine reads_many_nil (reads_blockItem_none hr ?_)
      rw [dropBlanks_newline]
      exact hr.starts.dropBlanks true
  | cons i is ih =>
      refine reads_many_cons (reads_blockItem (hi i List.mem_cons_self) ?_)
        (ih fun j hj => hi j (List.mem_cons_of_mem _ hj))
      have hline := (not_endsBlock_instruction (hi i List.mem_cons_self)
        (r := is.flatMap (fun i => ("  " ++ i.text ++ "\n").toList) ++ r)).1
      simp only [List.flatMap_cons, String.toList_append, List.append_assoc] at hline ⊢
      exact hline.dropBlanks true

/-- A block is read from its label to the last of its instructions. -/
theorem reads_block {b : Block} (hb : b.IsWritable) (hr : EndsBlock r) :
    Reads block (b.text.toList ++ r) b.canonical r := by
  have ht : b.text.toList ++ r = b.label.toList ++ ':' ::
      '\n' :: (b.instructions.flatMap (fun i => ("  " ++ i.text ++ "\n").toList) ++ r) := by
    simp only [Block.text, String.toList_append, toList_join_map, List.append_assoc]
    rfl
  rw [ht]
  refine reads_place.bind ((reads_name hb.label (endsWord_cons (by decide) (by decide))).bind ?_)
  exact (reads_expect (skip_of_plain (by decide))).bind ((reads_note _ _).bind
    (reads_expectLineEnd.bind ((reads_blockItems hb.instructions hr).bind .pure)))

end Blocks

end Assembly.Scan

end DeviceCode
