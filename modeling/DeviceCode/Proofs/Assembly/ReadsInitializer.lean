import DeviceCode.Proofs.Assembly.ReadsBody

/-!
# Reading initializers

An initializer is read piece by piece, with the arrays that are open around it on a stack.  So what
reading one comes to is said for any stack: reading goes on behind it with its value
(`readWithin_text`), and behind an element with the elements that are left (`resumeWithin_texts`).
-/

namespace DeviceCode

open Assembly

open Text (quoted)

mutual

/-- An initializer can be written if its leaves can: symbols need to be words, and scalars have to
fit their types. -/
def Initializer.IsWritable : Initializer → Prop
  | .scalar type literal => literal.HasType type
  | .symbol name => IsIdentifier name
  | .array elements => Initializer.AllWritable elements
  | .string _ | .zero => True

def Initializer.AllWritable : List Initializer → Prop
  | [] => True
  | e :: es => e.IsWritable ∧ Initializer.AllWritable es

end

namespace Assembly.Scan

variable {s r : List Char} (outer : List (List Initializer)) (v : Initializer)

/-- Behind an opening bracket there is one more array around what is read. -/
theorem readWithin_of_opening (t : List Occurrence) (h : Reads piece s .opening r) :
    ∃ t', readWithin outer ⟨s, t⟩ = readWithin ([] :: outer) ⟨r, t'⟩ := by
  obtain ⟨t', ht⟩ := h t
  refine ⟨t', ?_⟩
  rw [readWithin]
  split
  case h_1 e => rw [ht] at e; cases e
  case h_2 e => rw [ht] at e; cases e; rfl
  case h_3 e => rw [ht] at e; cases e

/-- A piece that is a whole value goes to the innermost array. -/
theorem readWithin_of_whole {v : Initializer} (t : List Occurrence)
    (h : Reads piece s (.whole v) r) :
    ∃ t', readWithin outer ⟨s, t⟩ = resumeWithin outer v ⟨r, t'⟩ := by
  obtain ⟨t', ht⟩ := h t
  refine ⟨t', ?_⟩
  rw [readWithin]
  split
  case h_1 e => rw [ht] at e; cases e
  case h_2 e => rw [ht] at e; cases e
  case h_3 e => rw [ht] at e; cases e; rfl

theorem reads_separator_comma (h : skip s = ',' :: r) : Reads separator s true r :=
  (reads_tryChar h).bind .pure

theorem reads_separator_close (h : skip s = ']' :: r) : Reads separator s false r :=
  reads_pass h (by decide) ((reads_expect (skip_of_plain (by decide))).bind .pure)

/-- Behind a comma another element of the innermost array follows. -/
theorem resumeWithin_of_comma (elements : List Initializer) (t : List Occurrence)
    (h : Reads separator s true r) :
    ∃ t', resumeWithin (elements :: outer) v ⟨s, t⟩ =
      readWithin ((v :: elements) :: outer) ⟨r, t'⟩ := by
  obtain ⟨t', ht⟩ := h t
  refine ⟨t', ?_⟩
  rw [resumeWithin]
  split
  case h_1 e => rw [ht] at e; cases e
  case h_2 e => rw [ht] at e; cases e; rfl
  case h_3 e => rw [ht] at e; cases e

/-- A closing bracket makes the innermost array a value of the one around it. -/
theorem resumeWithin_of_close (elements : List Initializer) (t : List Occurrence)
    (h : Reads separator s false r) :
    ∃ t', resumeWithin (elements :: outer) v ⟨s, t⟩ =
      resumeWithin outer (.array (v :: elements).reverse) ⟨r, t'⟩ := by
  obtain ⟨t', ht⟩ := h t
  refine ⟨t', ?_⟩
  rw [resumeWithin]
  split
  case h_1 e => rw [ht] at e; cases e
  case h_2 e => rw [ht] at e; cases e
  case h_3 e => rw [ht] at e; cases e; rfl

/-- An initializer begins with a token that does not close an array. -/
theorem startsToken_initializer (init : Initializer) :
    StartsToken init.text.toList ∧ init.text.toList.head? ≠ some ']' := by
  cases init with
  | scalar type literal =>
      have ht : (Initializer.scalar type literal).text.toList =
          type.name.toList ++ ' ' :: literal.text.toList := by
        simp [Initializer.text, typedText]
      rw [ht]
      refine ⟨StartsToken.append (isKeyword_typeName type).exists_cons _, ?_⟩
      cases type <;> simp [ValueType.name]
  | symbol name =>
      have ht : (Initializer.symbol name).text.toList = '@' :: name.toList := by
        simp [Initializer.text]
      rw [ht]
      exact ⟨⟨_, _, rfl, by decide⟩, by simp⟩
  | array elements =>
      have ht : (Initializer.array elements).text.toList =
          '[' :: ((commaSeparated (Initializer.texts elements)).toList ++ [']']) := by
        simp [Initializer.text]
      rw [ht]
      exact ⟨⟨_, _, rfl, by decide⟩, by simp⟩
  | string content =>
      rw [Initializer.text, quoted, String.toList_ofList]
      exact ⟨⟨_, _, rfl, by decide⟩, by simp⟩
  | zero => exact ⟨⟨'z', _, rfl, by decide⟩, by decide⟩

/-- A piece that begins with a word is told by this word. -/
theorem reads_piece_word {c : Char} {cs : List Char} {w : String} {p : Piece}
    (hs : skip s = c :: cs) (hc : isKeywordStart c) (hw : Reads keyword (c :: cs) w r)
    {r' : List Char}
    (hp : Reads (if w = "zeroinitializer" then pure (.whole .zero)
      else match ValueType.ofName? w with
        | some type => (fun v => .whole (.scalar type v)) <$> literal type
        | none => failAt (c :: cs) (.expectedInitializer w)) r p r') : Reads piece s p r' := by
  have hself : skip (c :: cs) = c :: cs := by rw [← hs, skip_skip]
  have hne : ∀ d, isKeywordStart d = false → c ≠ d := fun d => ne_of_isKeywordStart hc
  refine reads_pass hs (hne _ (by decide)) (reads_pass hself (hne _ (by decide)) ?_)
  refine reads_peek?.bind ?_
  rw [hself, if_neg (by simpa using hne '"' (by decide))]
  exact reads_place.bind (hw.bind hp)

/-- A scalar is read behind its type. -/
theorem reads_piece_scalar {type : ValueType} {l : Literal} (hl : l.HasType type) (hr : EndsWord r)
    (hs : skip s = (Initializer.scalar type l).text.toList ++ r) :
    Reads piece s (.whole (.scalar type l.canonical)) r := by
  have hs : skip s = type.name.toList ++ ' ' :: (l.text.toList ++ r) := by
    simpa [Initializer.text, typedText] using hs
  have hword := reads_keyword (isKeyword_typeName type) (endsWord_space (r := l.text.toList ++ r))
    ((isKeyword_typeName type).skip_append _)
  obtain ⟨c, cs, hc, hstart⟩ := (isKeyword_typeName type).exists_cons_start
  rw [hc, List.cons_append] at hs hword
  refine reads_piece_word hs hstart hword ?_
  rw [if_neg (by cases type <;> decide), ValueType.ofName?_name]
  exact (reads_literal hl hr (by rw [skip_space]; exact skip_literal hl r)).map

theorem reads_piece_zero (hr : EndsWord r) (hs : skip s = "zeroinitializer".toList ++ r) :
    Reads piece s (.whole .zero) r := by
  have hw : IsKeyword "zeroinitializer" := by decide
  have hword := reads_keyword hw hr (hw.skip_append r)
  refine reads_piece_word (c := 'z') hs (by decide) hword ?_
  rw [if_pos rfl]
  exact .pure

theorem reads_piece_symbol {n : String} (hn : IsIdentifier n) (hr : EndsWord r)
    (hs : skip s = '@' :: (n.toList ++ r)) : Reads piece s (.whole (.symbol n)) r :=
  (reads_tryChar hs).bind (reads_noted hn hr _).map

theorem reads_piece_string {content : String} (hs : skip s = (quoted content).toList ++ r) :
    Reads piece s (.whole (.string content)) r := by
  obtain ⟨cs, hq⟩ := exists_quoted_cons content
  rw [hq, List.cons_append] at hs
  have hself : skip ('"' :: (cs ++ r)) = '"' :: (cs ++ r) := skip_of_plain (by decide)
  refine reads_pass hs (by decide) (reads_pass hself (by decide) ?_)
  refine reads_peek?.bind ?_
  rw [hself, List.head?_cons, if_pos rfl]
  refine (reads_string ?_).map
  rw [hself, hq, List.cons_append]

/-- An array without elements is read as one piece. -/
theorem reads_piece_empty (hs : skip s = '[' :: ']' :: r) :
    Reads piece s (.whole (.array [])) r :=
  reads_pass hs (by decide) ((reads_tryChar (skip_of_plain (by decide))).bind
    ((reads_tryChar (skip_of_plain (by decide))).bind .pure))

/-- An array with elements opens, and its first element follows. -/
theorem reads_piece_opening (hs : skip s = '[' :: r) (hr : StartsToken r)
    (hne : r.head? ≠ some ']') : Reads piece s .opening r := by
  obtain ⟨c, cs, rfl, hc⟩ := hr
  exact reads_pass hs (by decide) ((reads_tryChar (skip_of_plain (by decide))).bind
    (reads_pass (skip_of_plain hc) (by simpa using hne) .pure))

/-- The text of the elements behind the first one. -/
def furtherText (es : List Initializer) : List Char :=
  (Initializer.texts es).flatMap fun u => ", ".toList ++ u.toList

/-- The next element of an array, or its end, ends a word. -/
theorem endsWord_furtherText (es : List Initializer) : EndsWord (furtherText es ++ ']' :: r) := by
  cases es with
  | nil => exact endsWord_cons (by decide) (by decide)
  | cons e es => exact endsWord_cons (by decide) (by decide)

mutual

/-- An initializer is read inside any arrays, and reading goes on behind it. -/
theorem readWithin_text (init : Initializer) (hi : init.IsWritable)
    (outer : List (List Initializer)) {s r : List Char} (hr : EndsWord r)
    (hs : skip s = init.text.toList ++ r) (t : List Occurrence) :
    ∃ t', readWithin outer ⟨s, t⟩ = resumeWithin outer init.canonical ⟨r, t'⟩ := by
  cases init with
  | scalar type literal => exact readWithin_of_whole outer t (reads_piece_scalar hi hr hs)
  | symbol name =>
      have hs : skip s = '@' :: (name.toList ++ r) := by simpa [Initializer.text] using hs
      exact readWithin_of_whole outer t (reads_piece_symbol hi hr hs)
  | string content => exact readWithin_of_whole outer t (reads_piece_string hs)
  | zero => exact readWithin_of_whole outer t (reads_piece_zero hr hs)
  | array elements =>
      cases elements with
      | nil =>
          refine readWithin_of_whole outer t (reads_piece_empty ?_)
          simpa [Initializer.text, Initializer.texts, commaSeparated] using hs
      | cons e es =>
          have hs : skip s = '[' :: (e.text.toList ++ (furtherText es ++ ']' :: r)) := by
            rw [hs, Initializer.text, Initializer.texts, commaSeparated, String.toList_append,
              String.toList_append, toList_intercalate_cons]
            simp [furtherText]
          obtain ⟨hstart, hne⟩ := startsToken_initializer e
          obtain ⟨t₁, h₁⟩ := readWithin_of_opening outer t
            (reads_piece_opening hs (hstart.append _) (by rwa [hstart.head?_append]))
          obtain ⟨t₂, h₂⟩ := readWithin_text e hi.1 ([] :: outer) (endsWord_furtherText es)
            (hstart.skip_append _) t₁
          obtain ⟨t₃, h₃⟩ := resumeWithin_texts es hi.2 outer [] e.canonical r t₂
          refine ⟨t₃, ?_⟩
          rw [h₁, h₂, h₃]
          rfl

/-- Elements are read behind the ones that an array has already. -/
theorem resumeWithin_texts (es : List Initializer) (hes : Initializer.AllWritable es)
    (outer : List (List Initializer)) (elements : List Initializer) (v : Initializer)
    (r : List Char) (t : List Occurrence) :
    ∃ t', resumeWithin (elements :: outer) v ⟨furtherText es ++ ']' :: r, t⟩ =
      resumeWithin outer (.array ((v :: elements).reverse ++ Initializer.canonicalList es))
        ⟨r, t'⟩ := by
  cases es with
  | nil =>
      have hclose : skip (']' :: r) = ']' :: r := skip_of_plain (by decide)
      obtain ⟨t', ht⟩ := resumeWithin_of_close outer v elements t (reads_separator_close hclose)
      exact ⟨t', by simpa [furtherText, Initializer.texts, Initializer.canonicalList] using ht⟩
  | cons e es =>
      obtain ⟨hstart, -⟩ := startsToken_initializer e
      have htext : furtherText (e :: es) ++ ']' :: r =
          ',' :: ' ' :: (e.text.toList ++ (furtherText es ++ ']' :: r)) := by
        simp [furtherText, Initializer.texts]
      rw [htext]
      obtain ⟨t₁, h₁⟩ := resumeWithin_of_comma outer v elements t
        (reads_separator_comma (skip_of_plain (by decide)))
      obtain ⟨t₂, h₂⟩ := readWithin_text e hes.1 ((v :: elements) :: outer)
        (endsWord_furtherText es) (by rw [skip_space]; exact hstart.skip_append _) t₁
      obtain ⟨t₃, h₃⟩ := resumeWithin_texts es hes.2 outer (v :: elements) e.canonical r t₂
      refine ⟨t₃, ?_⟩
      rw [h₁, h₂, h₃]
      simp [Initializer.canonicalList]

end

/-- An initializer is read from its written form: it is `readWithin_text` with no array around
it. -/
theorem reads_initializer {init : Initializer} (hi : init.IsWritable) :
    ReadsPhrase initializer init.text.toList init.canonical where
  starts := (startsToken_initializer init).1
  reads {s r} hr hs t := by
    obtain ⟨t', ht⟩ := readWithin_text init hi [] hr hs t
    refine ⟨t', ?_⟩
    rw [initializer, ht, resumeWithin]

end Assembly.Scan

end DeviceCode
