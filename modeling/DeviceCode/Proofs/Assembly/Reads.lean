import DeviceCode.Module.Assembly
import DeviceCode.Proofs.Assembly.Acts
import DeviceCode.Proofs.Basic
import DeviceCode.Proofs.Module.Canonical
import DeviceCode.Proofs.Number.Numeral

/-!
# Reading what is written

`Reads x s a r` says that the scan `x` reads `a` from the text `s` and leaves the text `r`, whatever
is on the trace.  It composes along `>>=`.  Scans pass over blanks before they read a token, so
what they need to know of a text is `skip s`, the text from its next token on.

This file has the rules of composition and the scans of single tokens in front of any text that ends
them.
-/

namespace DeviceCode.Assembly

open Text (isBlank escapeChar quoted)

/-! ## Blanks -/

/-- The text from its next token or line end on. -/
abbrev skip (s : List Char) : List Char := dropBlanks false false s

/-- The character begins a token: it is no blank and begins no comment. -/
def IsPlain (c : Char) : Prop := isBlank c = false ∧ c ≠ ';'

instance (c : Char) : Decidable (IsPlain c) := inferInstanceAs (Decidable (_ ∧ _))

section Blanks

variable {across : Bool} {c : Char} {s : List Char}

theorem IsPlain.ne_newline (h : IsPlain c) : c ≠ '\n' := by
  rintro rfl
  exact absurd h.1 (by decide)

theorem dropBlanks_of_plain (h : IsPlain c) : dropBlanks across false (c :: s) = c :: s := by
  simp [dropBlanks, h.ne_newline, h.1, h.2]

@[simp] theorem dropBlanks_space :
    dropBlanks across false (' ' :: s) = dropBlanks across false s := by
  simp [dropBlanks, show isBlank ' ' = true by decide]

theorem skip_space : skip (' ' :: s) = skip s := dropBlanks_space

@[simp] theorem skip_newline : skip ('\n' :: s) = '\n' :: s := by simp [dropBlanks]

/-- Where lines may end, their ends are dropped like other blanks. -/
@[simp] theorem dropBlanks_newline :
    dropBlanks true false ('\n' :: s) = dropBlanks true false s := by
  simp [dropBlanks]

/-- Blanks are outside of the range of printable characters. -/
theorem isBlank_of_toNat (h₁ : 33 ≤ c.toNat) (h₂ : c.toNat ≤ 126) : isBlank c = false := by
  simp only [isBlank, Text.blankRanges, List.any_cons, List.any_nil, Bool.or_false,
    Bool.or_eq_false_iff, decide_eq_false_iff_not]
  omega

theorem toNat_of_isAlphanum (h : c.isAlphanum) : 33 ≤ c.toNat ∧ c.toNat ≤ 126 := by
  have h : (decide ('A'.val ≤ c.val ∧ c.val ≤ 'Z'.val) || ('a'.val ≤ c.val && c.val ≤ 'z'.val) ||
      ('0'.val ≤ c.val && c.val ≤ '9'.val)) = true := h
  simp [UInt32.le_iff_toNat_le] at h
  omega

theorem isPlain_of_isAlphanum (h : c.isAlphanum) : IsPlain c := by
  obtain ⟨h₁, h₂⟩ := toNat_of_isAlphanum h
  refine ⟨isBlank_of_toNat h₁ h₂, ?_⟩
  rintro rfl
  exact absurd h (by decide)

/-- Names are made of plain characters. -/
theorem isPlain_of_isNameChar (h : isNameChar c) : IsPlain c := by
  simp only [isNameChar, Bool.or_eq_true, beq_iff_eq] at h
  rcases h with ((h | rfl) | rfl) | rfl
  · exact isPlain_of_isAlphanum h
  · decide
  · decide
  · decide

theorem isPlain_of_isLiteralChar (h : isLiteralChar c) : IsPlain c := by
  simp only [isLiteralChar, Bool.or_eq_true, beq_iff_eq] at h
  rcases h with (((h | rfl) | rfl) | rfl) | rfl
  · exact isPlain_of_isAlphanum h
  · decide
  · decide
  · decide
  · decide

@[simp] theorem skip_skip (s : List Char) :
    skip (skip s) = skip s := Scan.dropBlanks_dropBlanks false s

/-- A text that goes on with a token goes on with it behind a blank. -/
theorem skip_of_plain (h : IsPlain c) : skip (c :: s) = c :: s := dropBlanks_of_plain h

end Blanks

/-! ## Words -/

/-- The text goes on with a character that no word contains. -/
def EndsWord (r : List Char) : Prop := ∀ c ∈ r.head?, isNameChar c = false ∧ isLiteralChar c = false

/-- What can be written as a name. -/
structure IsIdentifier (n : String) : Prop where
  nonempty : n.toList ≠ []
  chars : ∀ c ∈ n.toList, isNameChar c

/-- What can be written as a word of its own. -/
structure IsKeyword (w : String) : Prop extends IsIdentifier w where
  start : ∀ c ∈ w.toList.head?, isKeywordStart c

instance (n : String) : Decidable (IsIdentifier n) :=
  decidable_of_iff (n.toList ≠ [] ∧ n.toList.all isNameChar)
    ⟨fun ⟨nonempty, chars⟩ => ⟨nonempty, List.all_eq_true.mp chars⟩,
      fun h => ⟨h.nonempty, List.all_eq_true.mpr h.chars⟩⟩

instance (w : String) : Decidable (IsKeyword w) :=
  decidable_of_iff (IsIdentifier w ∧ w.toList.head?.all isKeywordStart)
    ⟨fun ⟨identifier, start⟩ => ⟨identifier, (Option.all_eq_true _ _).mp start⟩,
      fun h => ⟨h.toIsIdentifier, (Option.all_eq_true _ _).mpr h.start⟩⟩

theorem IsIdentifier.exists_cons {n : String} (h : IsIdentifier n) :
    ∃ c cs, n.toList = c :: cs ∧ IsPlain c := by
  obtain ⟨c, cs, hc⟩ := List.exists_cons_of_ne_nil h.nonempty
  exact ⟨c, cs, hc, isPlain_of_isNameChar (h.chars c (by rw [hc]; exact List.mem_cons_self))⟩

theorem IsKeyword.exists_cons_start {w : String} (h : IsKeyword w) :
    ∃ c cs, w.toList = c :: cs ∧ isKeywordStart c := by
  obtain ⟨c, cs, hc⟩ := List.exists_cons_of_ne_nil h.nonempty
  exact ⟨c, cs, hc, h.start c (by rw [hc]; rfl)⟩

theorem IsIdentifier.skip_append {n : String} (h : IsIdentifier n) (r : List Char) :
    skip (n.toList ++ r) = n.toList ++ r := by
  obtain ⟨c, cs, hc, hp⟩ := h.exists_cons
  rw [hc, List.cons_append, skip_of_plain hp]

namespace Scan

variable {α β : Type}

/-- The scan reads `a` from the text `s` and leaves the text `r`. -/
def Reads (x : Scan α) (s : List Char) (a : α) (r : List Char) : Prop :=
  ∀ t, ∃ t', x ⟨s, t⟩ = .ok a ⟨r, t'⟩

/-! ## Rules -/

section Rules

variable {x : Scan α} {s r r' : List Char} {a : α} {b : β}

theorem Reads.pure : Reads (pure a : Scan α) s a s := fun t => ⟨t, rfl⟩

/-- What the first scan leaves, the second one reads on from. -/
theorem Reads.bind {f : α → Scan β} (hx : Reads x s a r) (hf : Reads (f a) r b r') :
    Reads (x >>= f) s b r' := by
  intro t
  obtain ⟨t₁, h₁⟩ := hx t
  obtain ⟨t₂, h₂⟩ := hf t₁
  exact ⟨t₂, bind_eq_ok.mpr ⟨a, _, h₁, h₂⟩⟩

theorem Reads.map {g : α → β} (hx : Reads x s a r) : Reads (g <$> x) s (g a) r := by
  rw [map_eq_pure_bind]
  exact hx.bind .pure

/-- Reading goes on like another scan behind `s`. -/
theorem Reads.of_step {y : Scan α} (hy : Reads y r a r') (h : ∀ t, ∃ t', x ⟨s, t⟩ = y ⟨r, t'⟩) :
    Reads x s a r' := by
  intro t
  obtain ⟨t₁, h₁⟩ := h t
  rw [h₁]
  exact hy t₁

theorem reads_many_nil {item : Scan (Option α)} {h : Shrinks perItem item}
    (hi : Reads item s none r) : Reads (many item h) s [] r := by
  intro t
  obtain ⟨t', ht⟩ := hi t
  refine ⟨t', ?_⟩
  rw [many]
  split
  case h_1 e => rw [ht] at e; cases e
  case h_2 e => rw [ht] at e; cases e; rfl
  case h_3 e => rw [ht] at e; cases e

theorem reads_many_cons {item : Scan (Option α)} {h : Shrinks perItem item} {as : List α}
    (hi : Reads item s (some a) r) (hs : Reads (many item h) r as r') :
    Reads (many item h) s (a :: as) r' := by
  intro t
  obtain ⟨t₁, h₁⟩ := hi t
  obtain ⟨t₂, h₂⟩ := hs t₁
  refine ⟨t₂, ?_⟩
  rw [many]
  split
  case h_1 e => rw [h₁] at e; cases e
  case h_2 e => rw [h₁] at e; cases e
  case h_3 e => rw [h₁] at e; cases e; rw [h₂]

end Rules

/-! ## Characters -/

section Characters

variable {s r : List Char} {c : Char}

theorem reads_place : Reads place s s s := fun t => ⟨t, rfl⟩

theorem reads_next? : Reads next? s s.head? s := fun t => ⟨t, rfl⟩

theorem reads_advance : Reads advance (c :: r) () r := fun t => ⟨t, rfl⟩

theorem reads_note (act : Act) (p : Place) : Reads (note act p) s () s :=
  fun t => ⟨⟨act, p⟩ :: t, rfl⟩

theorem reads_blanks (across : Bool) : Reads (blanks across) s () (dropBlanks across false s) :=
  fun t => ⟨t, rfl⟩

theorem reads_peek? : Reads peek? s (skip s).head? (skip s) := (reads_blanks false).bind reads_next?

/-- Characters are taken up to the first one that is not accepted. -/
theorem reads_takeWhile {p : Char → Bool} {w : List Char} (hw : ∀ c ∈ w, p c)
    (hr : ∀ c ∈ r.head?, p c = false) : Reads (takeWhile p) (w ++ r) w r := by
  obtain ⟨htake, hdrop⟩ := span_append hw hr
  refine fun t => ⟨t, ?_⟩
  rw [takeWhile, htake, hdrop]

/-- Whether a character is next is decided behind the blanks, and these are gone in both cases. -/
theorem tryChar_eq (c : Char) (s : List Char) (t : List Occurrence) :
    tryChar c ⟨s, t⟩ =
      if (skip s).head? = some c then .ok true ⟨(skip s).tail, t⟩ else .ok false ⟨skip s, t⟩ := by
  rw [skip, tryChar]
  cases hs : dropBlanks false false s with
  | nil => rfl
  | cons d r => simp

theorem reads_tryChar (h : skip s = c :: r) : Reads (tryChar c) s true r := by
  refine fun t => ⟨t, ?_⟩
  rw [tryChar_eq, h, List.head?_cons, if_pos rfl, List.tail_cons]

/-- Looking for a character that is not there passes over blanks only. -/
theorem reads_tryChar_false (h : (skip s).head? ≠ some c) :
    Reads (tryChar c) s false (skip s) := by
  refine fun t => ⟨t, ?_⟩
  rw [tryChar_eq, if_neg h]

theorem reads_expect (h : skip s = c :: r) : Reads (expect c) s () r :=
  (reads_tryChar h).bind .pure

theorem reads_isAtLineEnd :
    Reads isAtLineEnd s ((skip s).head? == none || (skip s).head? == some '\n') (skip s) :=
  reads_peek?.bind .pure

theorem reads_expectLineEnd : Reads expectLineEnd ('\n' :: r) () ('\n' :: r) := by
  have h := reads_isAtLineEnd (s := '\n' :: r)
  rw [skip_newline] at h
  exact h.bind .pure

end Characters

/-! ## Tokens -/

section Tokens

variable {s r : List Char}

/-- A name is read up to a character that ends words. -/
theorem reads_name {n : String} (hn : IsIdentifier n) (hr : EndsWord r) :
    Reads name (n.toList ++ r) n r := by
  refine (reads_takeWhile hn.chars fun c hc => (hr c hc).1).bind ?_
  rw [if_neg hn.nonempty, String.ofList_toList]
  exact .pure

/-- A name that is read is all of the word in front. -/
theorem name_eq_ok {c c' : Cursor} {n : String} (h : name c = .ok n c') :
    IsIdentifier n ∧ n.toList = c.rest.takeWhile isNameChar := by
  obtain ⟨word, c₁, h₁, h₂⟩ := bind_eq_ok.mp h
  cases h₁
  split at h₂
  case isTrue =>
    obtain ⟨_, _, _, h₃⟩ := bind_eq_ok.mp h₂
    cases h₃
  case isFalse hne =>
    cases h₂
    have hword := String.toList_ofList (l := c.rest.takeWhile isNameChar)
    refine ⟨⟨?_, ?_⟩, hword⟩
    · rwa [hword]
    · rw [hword]
      exact List.all_eq_true.mp List.all_takeWhile

/-- What is noted of a name does not change how it is read. -/
theorem reads_noted {n : String} (hn : IsIdentifier n) (hr : EndsWord r) (act : String → Act) :
    Reads (noted act) (n.toList ++ r) n r :=
  reads_place.bind ((reads_name hn hr).bind ((reads_note _ _).bind .pure))

/-- A keyword is a name that begins like one. -/
theorem reads_keyword {w : String} (hw : IsKeyword w) (hr : EndsWord r)
    (hs : skip s = w.toList ++ r) : Reads keyword s w r := by
  refine reads_peek?.bind ?_
  rw [hs]
  obtain ⟨c, cs, hc, hstart⟩ := hw.exists_cons_start
  have hhead : (w.toList ++ r).head? = some c := by rw [hc]; rfl
  rw [hhead]
  dsimp only
  rw [if_pos hstart]
  exact reads_name hw.toIsIdentifier hr

/-- A quoted string is read up to its last quote. -/
theorem readString_quoted (content cs r : List Char) :
    readString content (cs.flatMap escapeChar ++ '"' :: r) = .ok (content.reverse ++ cs, r) := by
  induction cs generalizing content with
  | nil => simp [readString]
  | cons c cs ih =>
      rw [List.flatMap_cons, List.append_assoc]
      have hc : content.reverse ++ c :: cs = (c :: content).reverse ++ cs := by simp
      rw [hc, ← ih]
      unfold escapeChar
      split
      case h_1 | h_2 | h_3 | h_4 => simp [readString, Text.unescape?]
      case h_5 h₁ h₂ h₃ h₄ => simp [readString]; simp_all

/-- A string begins with a quote, so it is a token. -/
theorem exists_quoted_cons (content : String) : ∃ cs, (quoted content).toList = '"' :: cs :=
  ⟨_, String.toList_ofList⟩

@[simp] theorem skip_quoted (content : String) (r : List Char) :
    skip ((quoted content).toList ++ r) = (quoted content).toList ++ r := by
  obtain ⟨cs, hq⟩ := exists_quoted_cons content
  rw [hq, List.cons_append, skip_of_plain (by decide)]

/-- A string is read from its quoted form, whatever its content. -/
theorem reads_string {content : String} (hs : skip s = (quoted content).toList ++ r) :
    Reads string s content r := by
  rw [quoted, String.toList_ofList, List.cons_append] at hs
  refine (reads_expect hs).bind fun t => ⟨t, ?_⟩
  have h := readString_quoted [] content.toList r
  simp only [List.append_assoc, List.singleton_append]
  rw [h]
  simp

/-- A number begins with a digit, so it is a token. -/
theorem skip_repr (n : Nat) (r : List Char) :
    skip (n.repr.toList ++ r) = n.repr.toList ++ r := by
  rw [Nat.toList_repr]
  obtain ⟨c, cs, hc⟩ := List.exists_cons_of_ne_nil (Nat.toDigits_ne_nil (n := n) (b := 10))
  have hd : c.isDigit := isDigit_toDigits (n := n) (by rw [hc]; exact List.mem_cons_self)
  rw [hc, List.cons_append, skip_of_plain (isPlain_of_isAlphanum _)]
  rw [Char.isAlphanum, hd, Bool.or_true]

/-- A number is read up to a character that is no digit. -/
theorem reads_number {id : UInt32} (hr : ∀ c ∈ r.head?, c.isDigit = false)
    (hs : skip s = id.toNat.repr.toList ++ r) : Reads number s id r := by
  have h := reads_blanks false (s := s)
  rw [skip] at hs
  rw [hs, Nat.toList_repr] at h
  refine h.bind (reads_place.bind ((reads_takeWhile (fun _ => isDigit_toDigits) hr).bind ?_))
  rw [if_neg Nat.toDigits_ne_nil, Nat.ofDigitChars_ten_toDigits]
  dsimp only
  rw [if_pos id.toNat_lt, UInt32.ofNat_toNat]
  exact .pure

theorem isKeyword_typeName (type : ValueType) : IsKeyword type.name := by
  cases type <;> decide

theorem reads_valueType {type : ValueType} (hr : EndsWord r) (hs : skip s = type.name.toList ++ r) :
    Reads valueType s type r := by
  refine reads_place.bind ((reads_keyword (isKeyword_typeName type) hr hs).bind ?_)
  rw [ValueType.ofName?_name]
  exact .pure

theorem reads_metadataUse {id : UInt32} (hr : ∀ c ∈ r.head?, c.isDigit = false)
    (hs : skip s = '!' :: (id.toNat.repr.toList ++ r)) : Reads metadataUse s id r :=
  (reads_expect hs).bind (reads_place.bind ((reads_number hr (skip_repr _ _)).bind
    ((reads_note _ _).bind .pure)))

end Tokens

/-! ## Literals -/

section Literals

/-- An integer is read from the digits that are written for it. -/
theorem readInt64?_repr (v : Int64) : readInt64? v.toInt.repr.toList = some v := by
  have h₁ : -0x8000000000000000 ≤ v.toInt := v.le_toInt
  have h₂ : v.toInt < 0x8000000000000000 := v.toInt_lt
  rcases toList_repr_int v.toInt with ⟨c, ds, ht, hv, hd, hc₁, hc₂⟩ | ⟨ds, ht, hv, hne, hd⟩
  · rw [ht]
    simp [readInt64?, hc₁, hc₂, hd, ← hv, h₁, h₂]
  · rw [ht]
    simp [readInt64?, hne, hd, ← hv, h₁, h₂]

/-- An integer begins with its sign or with a digit. -/
theorem repr_int_ne (z : Int) {c : Char} (cs : List Char) (h₁ : c ≠ '-') (h₂ : c.isDigit = false) :
    z.repr.toList ≠ c :: cs := by
  intro he
  rcases toList_repr_int z with ⟨d, ds, ht, -, hd, -, -⟩ | ⟨ds, ht, -, -, -⟩
  · rw [he, List.cons.injEq] at ht
    rw [← ht.1, List.all_cons, h₂] at hd
    cases hd
  · rw [he, List.cons.injEq] at ht
    exact h₁ ht.1

/-- A literal is read back from its written form, but for the bits of a NaN. -/
theorem readLiteral?_text {type : ValueType} {l : Literal} (hl : l.HasType type) :
    readLiteral? type l.text.toList = some l.canonical := by
  obtain ⟨hvoid, hfloat⟩ := hl
  cases l with
  | float x =>
      have hx := Double.read?_text x
      cases type with
      | f32 | f64 => rw [readLiteral?, Literal.text, hx]; rfl
      | _ => cases hfloat
  | int v =>
      have hv := readInt64?_repr v
      cases type with
      | void => exact absurd rfl hvoid
      | f32 | f64 => cases hfloat
      | i8 | i16 | i32 | i64 => rw [readLiteral?, Literal.text, hv]; rfl
      | i1 =>
          rw [readLiteral?, Literal.text, if_neg, if_neg, hv]
          · rfl
          · exact repr_int_ne _ _ (by decide) (by decide)
          · exact repr_int_ne _ _ (by decide) (by decide)
      | ptr =>
          rw [readLiteral?, Literal.text, if_neg, hv]
          · rfl
          · exact repr_int_ne _ _ (by decide) (by decide)

theorem isLiteralChar_of_isDigit {c : Char} (h : c.isDigit) : isLiteralChar c := by
  simp [isLiteralChar, Char.isAlphanum, h]

theorem isLiteralChar_repr_int (z : Int) : ∀ c ∈ z.repr.toList, isLiteralChar c := by
  intro c hc
  rcases toList_repr_int z with ⟨d, ds, ht, -, hd, -, -⟩ | ⟨ds, ht, -, -, hd⟩
  · rw [ht] at hc
    exact isLiteralChar_of_isDigit (List.all_eq_true.mp hd c hc)
  · rw [ht] at hc
    rcases List.mem_cons.mp hc with rfl | hc
    · decide
    · exact isLiteralChar_of_isDigit (List.all_eq_true.mp hd c hc)

/-- A number with a point or an exponent is one word, if its digits are proper. -/
theorem isLiteralChar_numeral {n : Double.Numeral} (hn : n.IsProper) :
    ∀ c ∈ n.text, isLiteralChar c := by
  intro c hc
  rw [Double.Numeral.text, Double.Numeral.exponentText] at hc
  simp only [List.mem_append] at hc
  rcases hc with (hc | hc) | hc
  · exact isLiteralChar_of_isDigit (hn.whole c hc)
  · split at hc
    · cases hc
    · rcases List.mem_cons.mp hc with rfl | hc
      · decide
      · exact isLiteralChar_of_isDigit (hn.fraction c hc)
  · cases he : n.exponent with
    | none => rw [he] at hc; cases hc
    | some k =>
        rw [he] at hc
        rcases List.mem_cons.mp hc with rfl | hc
        · decide
        · exact isLiteralChar_repr_int k c hc

/-- What is written for a literal is one word, a NaN and the infinities included. -/
theorem isLiteralChar_text (l : Literal) : ∀ c ∈ l.text.toList, isLiteralChar c := by
  cases l with
  | int v => exact isLiteralChar_repr_int v.toInt
  | float x =>
      obtain ⟨n, hn, ht, -⟩ := Double.exists_numeral_decimalText x.shortest
      have hu : ∀ c ∈ if x.isInfinite then "inf".toList else Double.decimalText x.shortest,
          isLiteralChar c := by
        split
        · exact List.all_eq_true.mp (by decide)
        · rw [← ht]
          exact isLiteralChar_numeral hn
      rw [Literal.text, Double.text]
      dsimp only
      split
      · exact List.all_eq_true.mp (by decide)
      · rw [String.toList_ofList]
        intro c hc
        split at hc
        · rcases List.mem_cons.mp hc with rfl | hc
          · decide
          · exact hu c hc
        · exact hu c hc

/-- A literal is a token. -/
theorem skip_literal {type : ValueType} {l : Literal} (hl : l.HasType type) (r : List Char) :
    skip (l.text.toList ++ r) = l.text.toList ++ r := by
  cases hc : l.text.toList with
  | nil =>
      have h := readLiteral?_text hl
      rw [hc] at h
      cases type <;> cases h
  | cons c cs =>
      have hplain := isPlain_of_isLiteralChar (isLiteralChar_text l c (by simp [hc]))
      exact skip_of_plain hplain

/-- A literal of its type is read back from its written form, but for the payload of a NaN. -/
theorem reads_literal {type : ValueType} {l : Literal} {s r : List Char} (hl : l.HasType type)
    (hr : EndsWord r) (hs : skip s = l.text.toList ++ r) :
    Reads (literal type) s l.canonical r := by
  have h := reads_blanks false (s := s)
  rw [skip] at hs
  rw [hs] at h
  refine h.bind (reads_place.bind ((reads_takeWhile (isLiteralChar_text l)
    fun c hc => (hr c hc).2).bind ?_))
  rw [readLiteral?_text hl]
  exact .pure

end Literals

end Scan

end DeviceCode.Assembly
