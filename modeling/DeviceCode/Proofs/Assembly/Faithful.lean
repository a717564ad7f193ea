import DeviceCode.Proofs.Assembly.Reads

/-!
# Names where they are written

A scan notes names with their places.  It is `Faithful` to a text if every name it notes, be it that
it succeeds or fails in the end, stands at its place in the text, behind its sigil; and what it
fails with is no fault of a name.  `Ensures P x Q` says the same of runs that begin where `P` holds,
and that `Q` holds where they succeed.  The condition in between is `Announced`: which sigil a name
would have if it began here.

This file has the rules of composition and the scans of single tokens.
-/

namespace DeviceCode.Assembly

open Text (isBlank)

/-! ## Names in texts -/

/-- The characters that announce a name. -/
def isSigil (c : Char) : Bool := c == '@' || c == '%' || c == '^'

/-- The name an act is about, with the sigil in front of it; the label of a block has none. -/
def Act.name? : Act → Option (Option Char × String)
  | defineSymbol name | useSymbol name => some (some '@', name)
  | defineParameter name | defineValue name | useValue name => some (some '%', name)
  | useBlock label => some (some '^', label)
  | defineBlock label => some (none, label)
  | defineMetadata _ | useMetadata _ | beginFunction | endBody => none

/-- The name that is at fault, with the sigil in front of it. -/
def Cause.name? : Cause → Option (Option Char × String)
  | redefinedSymbol name | undefinedSymbol name => some (some '@', name)
  | redefinedValue name | duplicateParameter name | undefinedValue name => some (some '%', name)
  | undefinedBlock label => some (some '^', label)
  | redefinedBlock label => some (none, label)
  | _ => none

/-- Just this name stands at a place of a text, behind its sigil; or behind no sigil if it has
none. -/
def IsWrittenAt (text : List Char) (place : Place) (sigil : Option Char) (name : String) : Prop :=
  IsIdentifier name ∧ ∃ front back, text = front ++ place ∧ front.getLast?.filter isSigil = sigil ∧
    place = name.toList ++ back ∧ ∀ c ∈ back.head?, isNameChar c = false

/-- The name of an occurrence is written at its place. -/
def Occurrence.IsTrue (text : List Char) (o : Occurrence) : Prop :=
  ∀ n ∈ o.act.name?, IsWrittenAt text o.place n.1 n.2

/-- The cursor is in the text, and the trace is true of it. -/
structure Cursor.Sound (text : List Char) (c : Cursor) : Prop where
  rest : c.rest <:+ text
  trace : ∀ o ∈ c.trace, o.IsTrue text

/-- A name that began at the place would have this sigil in front of it. -/
def Announced (text : List Char) (sigil : Option Char) (place : Place) : Prop :=
  (∃ c ∈ place.head?, isNameChar c) →
    ∃ front, text = front ++ place ∧ front.getLast?.filter isSigil = sigil

section Places

variable {text s r : List Char} {c : Char}

theorem isSigil_of_isBlank (h : isBlank c) : isSigil c = false := by
  simp only [isSigil, Bool.or_eq_false_iff, beq_eq_false_iff_ne]
  refine ⟨⟨?_, ?_⟩, ?_⟩
  all_goals
    rintro rfl
    exact absurd h (by decide)

/-- A name that begins right behind a character has this as its sigil, or it has none. -/
theorem announced_of_suffix (h : c :: r <:+ text) :
    Announced text ((some c).filter isSigil) r := by
  obtain ⟨front, rfl⟩ := h
  refine fun _ => ⟨front ++ [c], by simp, ?_⟩
  rw [List.getLast?_concat]

/-- At the end of a line there is no name. -/
theorem announced_of_head? (h : s.head? = none ∨ s.head? = some '\n') (sigil : Option Char) :
    Announced text sigil s := by
  rintro ⟨c, hc, hname⟩
  rcases h with h | h
  · rw [h] at hc
    cases hc
  · rw [h] at hc
    obtain rfl := Option.some.inj hc
    exact absurd hname (by decide)

/-- Blanks and comments are dropped from the front of a text. -/
theorem dropBlanks_suffix (across inComment : Bool) (s : List Char) :
    dropBlanks across inComment s <:+ s := by
  induction s generalizing inComment with
  | nil => exact List.suffix_rfl
  | cons c s ih =>
      rw [dropBlanks]
      split
      · split
        · exact (ih false).trans (List.suffix_cons c s)
        · exact List.suffix_rfl
      · split
        · exact (ih true).trans (List.suffix_cons c s)
        · split
          · exact (ih false).trans (List.suffix_cons c s)
          · exact List.suffix_rfl

/-- A token behind blanks and comments has a blank in front of it, for a comment goes on up to the
end of its line. -/
theorem exists_blank_of_dropBlanks {across inComment : Bool}
    (h : dropBlanks across inComment s = c :: r) (hc : c ≠ '\n') :
    inComment = false ∧ s = c :: r ∨ ∃ front b, isBlank b ∧ s = front ++ b :: c :: r := by
  induction s generalizing inComment with
  | nil => cases h
  | cons d s ih =>
      have behind {comment : Bool} (h : dropBlanks across comment s = c :: r)
          (hd : comment = false → isBlank d) :
          ∃ front b, isBlank b ∧ d :: s = front ++ b :: c :: r := by
        rcases ih h with ⟨hcomment, hs⟩ | ⟨front, b, hb, hs⟩
        · exact ⟨[], d, hd hcomment, by rw [hs]; rfl⟩
        · exact ⟨d :: front, b, hb, by rw [hs]; rfl⟩
      rw [dropBlanks] at h
      split at h
      case isTrue hd =>
        split at h
        case isTrue => exact .inr (behind h fun _ => by rw [hd]; decide)
        case isFalse =>
          obtain ⟨rfl, -⟩ := List.cons.inj h
          exact absurd hd hc
      case isFalse =>
        split at h
        case isTrue => exact .inr (behind h Bool.noConfusion)
        case isFalse hcomment =>
          rw [Bool.not_eq_true, Bool.or_eq_false_iff] at hcomment
          split at h
          case isTrue hd => exact .inr (behind h fun _ => hd)
          case isFalse => exact .inl ⟨hcomment.1, h⟩

/-- Behind blanks and comments a name has no sigil if it has none in front of them. -/
theorem Announced.dropBlanks (h : Announced text none s) (hs : s <:+ text) (across : Bool) :
    Announced text none (dropBlanks across false s) := by
  rintro ⟨c, hc, hname⟩
  obtain ⟨r, hr⟩ := List.head?_eq_some_iff.mp hc
  rw [hr]
  rcases exists_blank_of_dropBlanks hr (isPlain_of_isNameChar hname).ne_newline with
    ⟨-, rfl⟩ | ⟨front, b, hb, rfl⟩
  · exact h ⟨c, rfl, hname⟩
  · obtain ⟨before, rfl⟩ := hs
    refine ⟨before ++ front ++ [b], by simp, ?_⟩
    rw [List.getLast?_concat, Option.filter_some, isSigil_of_isBlank hb]
    rfl

/-- A string ends inside of the text. -/
theorem readString_suffix {content a : List Char} (h : readString content s = .ok (a, r)) :
    r <:+ s := by
  fun_induction readString content s with
  | case1 => cases h
  | case2 => cases h
  | case3 content e r' d he ih =>
      exact ((ih h).trans (List.suffix_cons _ _)).trans (List.suffix_cons _ _)
  | case4 => cases h
  | case5 => cases h
  | case6 =>
      cases h
      exact List.suffix_cons _ _
  | case7 content c s _ _ _ ih => exact (ih h).trans (List.suffix_cons _ _)

/-- Whatever is wrong with a string is the fault of no name. -/
theorem name?_of_readString {content : List Char} {f : Fault}
    (h : readString content s = .error f) : f.cause.name? = none := by
  fun_induction readString content s with
  | case1 | case2 | case4 | case5 =>
      cases h
      rfl
  | case3 content e r d he ih => exact ih h
  | case6 => cases h
  | case7 content c s _ _ _ ih => exact ih h

end Places

namespace Scan

variable {α β : Type} {text : List Char}

/-- The cursor stays sound; in the end `Q` holds, or a fault is none of a name. -/
def Outcome (text : List Char) (Q : α → Place → Prop) : EStateM.Result Fault Cursor α → Prop
  | .ok a c => c.Sound text ∧ Q a c.rest
  | .error f c => c.Sound text ∧ f.cause.name? = none

/-- The scan is faithful to the text where `P` holds, and `Q` holds where it succeeds. -/
def Ensures (text : List Char) (P : Place → Prop) (x : Scan α) (Q : α → Place → Prop) : Prop :=
  ∀ c, c.Sound text → P c.rest → Outcome text Q (x c)

abbrev Faithful (text : List Char) (x : Scan α) : Prop :=
  Ensures text (fun _ => True) x fun _ _ => True

/-! ## Rules -/

section Rules

variable {P P' : Place → Prop} {Q Q' : α → Place → Prop} {W : β → Place → Prop} {x y : Scan α}

theorem Ensures.pure {a : α} (h : ∀ r, P r → Q a r) : Ensures text P (pure a) Q :=
  fun c hc hP => ⟨hc, h c.rest hP⟩

/-- What the first scan ensures, the second may rely on. -/
theorem Ensures.bind {f : α → Scan β} (hx : Ensures text P x Q)
    (hf : ∀ a, Ensures text (Q a) (f a) W) : Ensures text P (x >>= f) W := by
  intro c hc hP
  have h := hx c hc hP
  change Outcome text W (EStateM.bind x f c)
  unfold EStateM.bind
  cases e : x c with
  | ok a c' =>
      rw [e] at h
      exact hf a c' h.1 h.2
  | error f c' =>
      rw [e] at h
      exact h

/-- A scan ensures less from more. -/
theorem Ensures.mono (hx : Ensures text P x Q) (hP : ∀ r, P' r → P r)
    (hQ : ∀ a r, Q a r → Q' a r) : Ensures text P' x Q' := by
  intro c hc h
  have h := hx c hc (hP _ h)
  cases e : x c with
  | ok a c' =>
      rw [e] at h
      exact ⟨h.1, hQ a _ h.2⟩
  | error f c' =>
      rw [e] at h
      exact h

/-- A faithful scan may begin anywhere. -/
theorem Faithful.anywhere (hx : Faithful text x) : Ensures text P x fun _ _ => True :=
  hx.mono (fun _ _ => trivial) fun _ _ h => h

theorem Faithful.pure {a : α} : Faithful text (Pure.pure a : Scan α) :=
  Ensures.pure fun _ _ => trivial

theorem Faithful.map (hx : Ensures text P x fun _ _ => True) (f : α → β) :
    Ensures text P (f <$> x) fun _ _ => True := by
  rw [map_eq_pure_bind]
  exact hx.bind fun _ => Faithful.pure

theorem Ensures.ite {p : Prop} [Decidable p] (hx : p → Ensures text P x Q)
    (hy : ¬ p → Ensures text P y Q) : Ensures text P (if p then x else y) Q := by
  split
  · exact hx ‹_›
  · exact hy ‹_›

/-- What holds of every place where a scan may begin is known. -/
theorem Ensures.of_forall {p : Prop} (hP : ∀ r, P r → p) (hx : p → Ensures text P x Q) :
    Ensures text P x Q :=
  fun c hc h => hx (hP _ h) c hc h

theorem ensures_fail {cause : Cause} (h : cause.name? = none) :
    Ensures text P (fail cause : Scan α) Q := fun _ hc _ => ⟨hc, h⟩

theorem ensures_failAt {p : Place} {cause : Cause} (h : cause.name? = none) :
    Ensures text P (failAt p cause : Scan α) Q := fun _ hc _ => ⟨hc, h⟩

theorem ensures_next?_fail {cause : Option Char → Cause} (h : ∀ c, (cause c).name? = none) :
    Ensures text P (next? >>= fun c => (fail (cause c) : Scan α)) Q := fun _ hc _ => ⟨hc, h _⟩

/-- The items of a list keep the condition from one to the next. -/
theorem ensures_many {item : Scan (Option α)} {h : Shrinks perItem item}
    (hi : Ensures text P item fun _ => P) : Ensures text P (many item h) fun _ => P := by
  intro c
  fun_induction many item h c with
  | case1 c f c' e =>
      intro hc hP
      have hitem := hi c hc hP
      rw [e] at hitem
      exact hitem
  | case2 c c' e =>
      intro hc hP
      have hitem := hi c hc hP
      rw [e] at hitem
      exact hitem
  | case3 c a c' e f c'' e' ih =>
      intro hc hP
      have hitem := hi c hc hP
      rw [e] at hitem
      have hmany := ih hitem.1 hitem.2
      rw [e'] at hmany
      exact hmany
  | case4 c a c' e as c'' e' ih =>
      intro hc hP
      have hitem := hi c hc hP
      rw [e] at hitem
      have hmany := ih hitem.1 hitem.2
      rw [e'] at hmany
      exact hmany

end Rules

/-! ## Characters -/

section Characters

variable {P : Place → Prop} {Q : α → Place → Prop} {x y : Scan α} {ch : Char}

theorem ensures_place : Ensures text P place fun p r => p = r ∧ P r := fun _ hc hP => ⟨hc, rfl, hP⟩

theorem faithful_place : Faithful text place := fun _ hc _ => ⟨hc, trivial⟩

theorem ensures_next? : Ensures text P next? fun o r => o = r.head? ∧ P r :=
  fun _ hc hP => ⟨hc, rfl, hP⟩

theorem faithful_next? : Faithful text next? := fun _ hc _ => ⟨hc, trivial⟩

/-- Behind a character that is a sigil, a name is announced. -/
theorem ensures_advance : Ensures text (fun r => r.head? = some ch) advance
    fun _ => Announced text ((some ch).filter isSigil) := by
  rintro ⟨rest, trace⟩ ⟨hrest, htrace⟩ hP
  obtain ⟨r, rfl⟩ := List.head?_eq_some_iff.mp hP
  exact ⟨⟨(List.suffix_cons ch r).trans hrest, htrace⟩, announced_of_suffix hrest⟩

theorem faithful_takeWhile (p : Char → Bool) : Faithful text (takeWhile p) :=
  fun _ hc _ => ⟨⟨(List.dropWhile_suffix p).trans hc.rest, hc.trace⟩, trivial⟩

/-- An occurrence that is true may be noted anywhere. -/
theorem ensures_note_true {act : Act} {p : Place} (h : (⟨act, p⟩ : Occurrence).IsTrue text) :
    Ensures text P (note act p) fun _ => P :=
  fun _ hc hP => ⟨⟨hc.rest, List.forall_mem_cons.mpr ⟨h, hc.trace⟩⟩, hP⟩

/-- An act without a name can be noted anywhere. -/
theorem ensures_note {act : Act} (h : act.name? = none) (p : Place) :
    Ensures text P (note act p) fun _ => P := by
  refine ensures_note_true fun n hn => ?_
  rw [h] at hn
  cases hn

theorem faithful_blanks (across : Bool) : Faithful text (blanks across) :=
  fun c hc _ => ⟨⟨(dropBlanks_suffix across false c.rest).trans hc.rest, hc.trace⟩, trivial⟩

/-- Blanks between tokens announce no name. -/
theorem ensures_blanks (across : Bool) :
    Ensures text (Announced text none) (blanks across) fun _ => Announced text none :=
  fun c hc hP => ⟨⟨(dropBlanks_suffix across false c.rest).trans hc.rest, hc.trace⟩,
    hP.dropBlanks hc.rest across⟩

theorem faithful_peek? : Faithful text peek? := (faithful_blanks false).bind fun _ => faithful_next?

/-- Behind a character that was read a name would have this character as its sigil, or none.  If it
is not there, blanks have been passed over. -/
theorem ensures_tryChar_ite {P' : Place → Prop}
    (hx : Ensures text (Announced text ((some ch).filter isSigil)) x Q) (hy : Ensures text P' y Q)
    (hP : ∀ s, P s → s <:+ text → P' (skip s)) :
    Ensures text P (do if ← tryChar ch then x else y) Q := by
  rintro ⟨s, t⟩ hc hs
  have hsuffix : skip s <:+ text := (dropBlanks_suffix false false s).trans hc.rest
  have htry := tryChar_eq ch s t
  change Outcome text Q (EStateM.bind _ _ _)
  rw [EStateM.bind, htry]
  by_cases hhead : (skip s).head? = some ch
  · obtain ⟨r, hr⟩ := List.head?_eq_some_iff.mp hhead
    rw [hr] at hsuffix
    rw [if_pos hhead, hr]
    exact hx ⟨r, t⟩ ⟨(List.suffix_cons ch r).trans hsuffix, hc.trace⟩
      (announced_of_suffix hsuffix)
  · rw [if_neg hhead]
    exact hy ⟨skip s, t⟩ ⟨hsuffix, hc.trace⟩ (hP s hs hc.rest)

/-- A scan that begins behind a character may rely on it as a sigil; the other one begins
anywhere. -/
theorem Faithful.tryChar (hx : Ensures text (Announced text ((some ch).filter isSigil)) x Q)
    (hy : Ensures text (fun _ => True) y Q) :
    Ensures text (fun _ => True) (do if ← tryChar ch then x else y) Q :=
  ensures_tryChar_ite hx hy fun _ _ _ => trivial

theorem ensures_expect : Ensures text (fun _ => True) (expect ch)
    fun _ => Announced text ((some ch).filter isSigil) :=
  Faithful.tryChar (Ensures.pure fun _ h => h) (ensures_next?_fail fun _ => rfl)

theorem faithful_expect : Faithful text (expect ch) :=
  ensures_expect.mono (fun _ h => h) fun _ _ _ => trivial

theorem faithful_isAtLineEnd : Faithful text isAtLineEnd :=
  faithful_peek?.bind fun _ => Faithful.pure

/-- No name begins at the end of a line. -/
theorem ensures_expectLineEnd :
    Ensures text (fun _ => True) expectLineEnd fun _ => Announced text none := by
  have hend : Ensures text (fun _ => True) isAtLineEnd
      fun b r => b = true → r.head? = none ∨ r.head? = some '\n' := by
    refine ((faithful_blanks false).bind fun _ => ensures_next?).bind fun o => Ensures.pure ?_
    rintro r ⟨rfl, -⟩ h
    simpa using h
  refine hend.bind fun b => Ensures.ite (fun hb => Ensures.pure fun r h => ?_)
    fun _ => ensures_next?_fail fun _ => rfl
  exact announced_of_head? (h hb) none

theorem faithful_expectLineEnd : Faithful text expectLineEnd :=
  ensures_expectLineEnd.mono (fun _ h => h) fun _ _ _ => trivial

end Characters

/-! ## Tokens -/

section Tokens

theorem faithful_name : Faithful text name :=
  (faithful_takeWhile _).bind fun _ => Ensures.ite (fun _ => ensures_next?_fail fun _ => rfl)
    fun _ => Faithful.pure

/-- A name that is read stands where it was read. -/
theorem ensures_name {sigil : Option Char} {start : Place} :
    Ensures text (fun r => start = r ∧ Announced text sigil r) name
      fun n _ => IsWrittenAt text start sigil n := by
  rintro ⟨rest, trace⟩ hc ⟨rfl, hannounced⟩
  have hfaithful := faithful_name ⟨start, trace⟩ hc trivial
  cases e : name ⟨start, trace⟩ with
  | error f c =>
      rw [e] at hfaithful
      exact hfaithful
  | ok n c =>
      rw [e] at hfaithful
      obtain ⟨hn, hword⟩ := name_eq_ok e
      have hstart : start = n.toList ++ start.dropWhile isNameChar := by
        rw [hword, List.takeWhile_append_dropWhile]
      obtain ⟨ch, cs, hcs⟩ := List.exists_cons_of_ne_nil hn.nonempty
      have hch : isNameChar ch := hn.chars ch (hcs ▸ List.mem_cons_self)
      have hhead : start.head? = some ch := by
        rw [hstart, hcs]
        rfl
      obtain ⟨front, htext, hsigil⟩ := hannounced ⟨ch, hhead, hch⟩
      refine ⟨hfaithful.1, hn, front, _, htext, hsigil, hstart, fun d hd => ?_⟩
      have hbehind := List.head?_dropWhile_not isNameChar start
      rw [Option.mem_def.mp hd] at hbehind
      simpa using hbehind

/-- A name behind its sigil is noted as it stands there. -/
theorem ensures_noted {act : String → Act} {sigil : Char}
    (h : ∀ n, (act n).name? = some (some sigil, n)) :
    Ensures text (Announced text (some sigil)) (noted act) fun _ _ => True := by
  refine ensures_place.bind fun start => ensures_name.bind fun n =>
    Ensures.of_forall (fun _ h => h) fun hn =>
      (ensures_note_true ?_).bind fun _ => Faithful.pure.anywhere
  intro m hm
  rw [h n] at hm
  obtain rfl := Option.some.inj hm
  exact hn

theorem faithful_keyword : Faithful text keyword := by
  refine faithful_peek?.bind fun c => ?_
  cases c with
  | none => exact ensures_fail rfl
  | some c => exact Ensures.ite (fun _ => faithful_name) fun _ => ensures_fail rfl

theorem faithful_string : Faithful text string := by
  refine faithful_expect.bind fun _ => ?_
  intro c hc _
  cases hs : readString [] c.rest with
  | ok p =>
      obtain ⟨content, rest⟩ := p
      dsimp only
      rw [hs]
      exact ⟨⟨(readString_suffix hs).trans hc.rest, hc.trace⟩, trivial⟩
  | error f =>
      dsimp only
      rw [hs]
      exact ⟨hc, name?_of_readString hs⟩

theorem faithful_number : Faithful text number :=
  (faithful_blanks false).bind fun _ => faithful_place.bind fun _ => (faithful_takeWhile _).bind
    fun _ => Ensures.ite (fun _ => ensures_fail rfl) fun _ =>
      Ensures.ite (fun _ => Faithful.pure) fun _ => ensures_failAt rfl

theorem faithful_valueType : Faithful text valueType := by
  refine faithful_place.bind fun _ => faithful_keyword.bind fun word => ?_
  cases ValueType.ofName? word with
  | none => exact ensures_failAt rfl
  | some type => exact Faithful.pure

/-- A literal is read by its type; whatever is wrong with it is the fault of no name. -/
theorem faithful_literal (type : ValueType) : Faithful text (literal type) := by
  refine (faithful_blanks false).bind fun _ => faithful_place.bind fun _ =>
    (faithful_takeWhile _).bind fun word => ?_
  cases readLiteral? type word with
  | none => exact ensures_failAt rfl
  | some value => exact Faithful.pure

theorem faithful_metadataUse : Faithful text metadataUse :=
  faithful_expect.bind fun _ => faithful_place.bind fun _ => faithful_number.bind fun _ =>
    (ensures_note rfl _).bind fun _ => Faithful.pure

end Tokens

end Scan

end DeviceCode.Assembly
