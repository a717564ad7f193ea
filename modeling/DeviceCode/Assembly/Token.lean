import DeviceCode.Assembly.Scan
import DeviceCode.Number.Numeral
import DeviceCode.Text.Layout
import DeviceCode.Text.Escape

/-!
# Words, numbers and strings

The tokens of the assembly text. Blanks between tokens are passed over but for line ends, which the
grammar asks for where it wants them; a comment runs from a semicolon to the end of its line.
-/

namespace DeviceCode.Assembly

open Text (isBlank unescape?)

/-- Names are made of ASCII letters, digits, `_`, `.` and `$`. -/
def isNameChar (c : Char) : Bool := c.isAlphanum || c == '_' || c == '.' || c == '$'

/-- A keyword begins with an ASCII letter or `_`. -/
def isKeywordStart (c : Char) : Bool := c.isAlpha || c == '_'

/-- The characters of a literal's word. -/
def isLiteralChar (c : Char) : Bool :=
  c.isAlphanum || c == '.' || c == '-' || c == '+' || c == '_'

/-- The text without the blanks and comments in front, inside a comment or not; line ends are passed
over if `across` says so. -/
def dropBlanks (across : Bool) : (inComment : Bool) → List Char → List Char
  | _, [] => []
  | inComment, c :: r =>
    if c = '\n' then if across then dropBlanks across false r else c :: r
    else if inComment || c = ';' then dropBlanks across true r
    else if isBlank c then dropBlanks across false r
    else c :: r

theorem length_dropBlanks (across inComment : Bool) (s : List Char) :
    (dropBlanks across inComment s).length ≤ s.length := by
  induction s generalizing inComment with
  | nil => simp [dropBlanks]
  | cons c r ih =>
    simp only [dropBlanks, List.length_cons]
    have := ih true
    have := ih false
    split
    · split
      · omega
      · exact Nat.le_refl _
    · split
      · omega
      · split
        · omega
        · exact Nat.le_refl _

/-- A whole number of 64 bits with a sign, from digits with an optional sign in front. -/
def readInt64? (s : List Char) : Option Int64 :=
  let (negative, ds) := match s with
    | '-' :: ds => (true, ds)
    | '+' :: ds => (false, ds)
    | ds => (false, ds)
  if ds = [] ∨ !ds.all Char.isDigit then none
  else
    let n : Int := Nat.ofDigitChars 10 ds 0
    let v := if negative then -n else n
    if -0x8000000000000000 ≤ v ∧ v < 0x8000000000000000 then some (.ofInt v) else none

/-- The literal a word stands for. Truth values and the null pointer have names; their types take
numbers as well. -/
def readLiteral? (type : ValueType) (word : List Char) : Option Literal :=
  match type with
  | .void => none
  | .f32 | .f64 => (Double.read? word).map .float
  | .i1 =>
    if word = "true".toList then some (.int 1)
    else if word = "false".toList then some (.int 0)
    else (readInt64? word).map .int
  | .ptr => if word = "null".toList then some (.int 0) else (readInt64? word).map .int
  | .i8 | .i16 | .i32 | .i64 => (readInt64? word).map .int

/-- The content of a string up to its closing quote, in reverse after `content`, and the text behind
the quote; or what is wrong with it, and where. -/
def readString (content : List Char) : List Char → Except Fault (List Char × List Char)
  | [] => .error ⟨.unterminatedString, []⟩
  | '\\' :: r =>
    match r with
    | [] => .error ⟨.invalidEscape none, []⟩
    | e :: r' =>
      match unescape? e with
      | some c => readString (c :: content) r'
      | none => .error ⟨.invalidEscape (some e), r⟩
  | c :: r =>
    if c = '\n' then .error ⟨.unterminatedString, c :: r⟩
    else if c = '"' then .ok (content.reverse, r)
    else readString (c :: content) r

theorem length_readString {content s a r : List Char} (h : readString content s = .ok (a, r)) :
    r.length ≤ s.length := by
  fun_induction readString content s with
  | case1 => cases h
  | case2 => cases h
  | case3 _ _ _ _ _ ih => have := ih h; simp only [List.length_cons]; omega
  | case4 => cases h
  | case5 => cases h
  | case6 => cases h; simp
  | case7 _ _ _ _ _ _ ih => have := ih h; simp only [List.length_cons]; omega

namespace Scan

/-- Passes over blanks and comments. -/
def blanks (across : Bool) : Scan Unit :=
  fun c => .ok () { c with rest := dropBlanks across false c.rest }

/-- The next character that is no blank, a line end included. -/
def peek? : Scan (Option Char) := do
  blanks false
  next?

/-- Takes the character `ch` if it is next. -/
def tryChar (ch : Char) : Scan Bool := fun c =>
  match dropBlanks false false c.rest with
  | [] => .ok false { c with rest := [] }
  | d :: r => if d = ch then .ok true { c with rest := r } else .ok false { c with rest := d :: r }

def expect (ch : Char) : Scan Unit := do
  if ← tryChar ch then pure ()
  else fail (.expectedChar ch (← next?))

/-- A line ends with the text as well. -/
def isAtLineEnd : Scan Bool := do
  let c ← peek?
  pure (c == none || c == some '\n')

def expectLineEnd : Scan Unit := do
  if ← isAtLineEnd then pure ()
  else fail (.expectedLineEnd (← next?))

/-- A name, with no blank in front. -/
def name : Scan String := do
  let word ← takeWhile isNameChar
  if word = [] then fail (.expectedName (← next?))
  else pure (String.ofList word)

def keyword : Scan String := do
  match ← peek? with
  | some c => if isKeywordStart c then name else fail (.expectedKeyword (some c))
  | none => fail (.expectedKeyword none)

def string : Scan String := do
  expect '"'
  fun c =>
    match readString [] c.rest with
    | .ok (content, rest) => .ok (String.ofList content) { c with rest := rest }
    | .error fault => .error fault c

/-- A number of 32 bits. -/
def number : Scan UInt32 := do
  blanks false
  let start ← place
  let digits ← takeWhile Char.isDigit
  if digits = [] then fail .expectedNumber
  else
    let n := Nat.ofDigitChars 10 digits 0
    if n < UInt32.size then pure (.ofNat n) else failAt start .numberTooLarge

/-- A word that names no type is at fault from its start. -/
def valueType : Scan ValueType := do
  let start ← place
  let word ← keyword
  match ValueType.ofName? word with
  | some type => pure type
  | none => failAt start (.unknownType word)

/-- A literal runs as long as its characters do, and then has to be one of the type. -/
def literal (type : ValueType) : Scan Literal := do
  blanks false
  let start ← place
  let word ← takeWhile isLiteralChar
  match readLiteral? type word with
  | some value => pure value
  | none => failAt start (.invalidLiteral type (String.ofList word))

/-- A name in front of which a sigil has been read, and the act it takes part in. -/
def noted (act : String → Act) : Scan String := do
  let start ← place
  let n ← name
  note (act n) start
  pure n

/-- A use of a debug record. -/
def metadataUse : Scan UInt32 := do
  expect '!'
  let start ← place
  let id ← number
  note (.useMetadata id) start
  pure id

theorem shrinks_blanks (across : Bool) : Shrinks (fun _ => 0) (blanks across) := by
  intro c a c' e
  cases e
  exact length_dropBlanks across false c.rest

theorem shrinks_peek? : Shrinks (fun _ => 0) peek? :=
  (shrinks_blanks false).bind fun _ => shrinks_next?

theorem shrinks_tryChar (ch : Char) : Shrinks Bool.toNat (tryChar ch) := by
  intro c b c' e
  have h := length_dropBlanks false false c.rest
  unfold tryChar at e
  split at e
  · cases e; simp
  · rename_i d r hd
    rw [hd, List.length_cons] at h
    split at e <;> cases e <;> simp <;> omega

theorem shrinks_expect (ch : Char) : Shrinks (fun _ => 1) (expect ch) := by
  refine (shrinks_tryChar ch).bind fun b => ?_
  cases b
  · exact shrinks_next?.bind fun _ => shrinks_fail _
  · exact Shrinks.pure rfl

theorem shrinks_isAtLineEnd : Shrinks (fun _ => 0) isAtLineEnd :=
  shrinks_peek?.bind fun _ => Shrinks.pure rfl

theorem shrinks_expectLineEnd : Shrinks (fun _ => 0) expectLineEnd := by
  refine shrinks_isAtLineEnd.bind fun b => ?_
  cases b
  · exact shrinks_next?.bind fun _ => shrinks_fail _
  · exact Shrinks.pure rfl

theorem shrinks_name : Shrinks (fun _ => 1) name := by
  refine (shrinks_takeWhile _).bind fun word => ?_
  split
  · exact shrinks_next?.bind fun _ => shrinks_fail _
  · rename_i h
    have := List.length_pos_iff.2 h
    exact Shrinks.pure (by omega)

theorem shrinks_keyword : Shrinks (fun _ => 1) keyword := by
  refine shrinks_peek?.bind fun c => ?_
  split
  · split
    · exact shrinks_name
    · exact shrinks_fail _
  · exact shrinks_fail _

theorem shrinks_string : Shrinks (fun _ => 1) string := by
  refine (shrinks_expect _).bind fun _ => ?_
  intro c a c' e
  dsimp only at e
  split at e
  · rename_i h
    cases e
    simpa using length_readString h
  · cases e

theorem shrinks_number : Shrinks (fun _ => 0) number := by
  refine (shrinks_blanks _).bind fun _ => shrinks_place.bind fun _ =>
    ((shrinks_takeWhile _).mono fun _ => Nat.zero_le _).bind fun _ => ?_
  split
  · exact shrinks_fail _
  · dsimp only
    split
    · exact Shrinks.pure rfl
    · exact shrinks_failAt _ _

theorem shrinks_valueType : Shrinks (fun _ => 1) valueType := by
  refine shrinks_place.bind fun _ => shrinks_keyword.bind fun _ => ?_
  split
  · exact Shrinks.pure rfl
  · exact shrinks_failAt _ _

theorem shrinks_literal (type : ValueType) : Shrinks (fun _ => 0) (literal type) := by
  refine (shrinks_blanks _).bind fun _ => shrinks_place.bind fun _ =>
    ((shrinks_takeWhile _).mono fun _ => Nat.zero_le _).bind fun _ => ?_
  split
  · exact Shrinks.pure rfl
  · exact shrinks_failAt _ _

theorem shrinks_noted (act : String → Act) : Shrinks (fun _ => 1) (noted act) :=
  shrinks_place.bind fun _ => shrinks_name.bind fun _ => (shrinks_note _ _).bind fun _ =>
    Shrinks.pure rfl

theorem shrinks_metadataUse : Shrinks (fun _ => 1) metadataUse :=
  (shrinks_expect _).bind fun _ => shrinks_place.bind fun _ => shrinks_number.bind fun _ =>
    (shrinks_note _ _).bind fun _ => Shrinks.pure rfl

end Scan

end DeviceCode.Assembly
