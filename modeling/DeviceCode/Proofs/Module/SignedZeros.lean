import DeviceCode.Assembly.Reading
import DeviceCode.Module.Agreement
import DeviceCode.Module.Assembly
import DeviceCode.Module.Query
import DeviceCode.Proofs.Basic
import DeviceCode.Proofs.Module.Equality

/-!
# Equal modules in writing

The two zeros are equal as numbers, but the sign of a zero is written.  So modules that agree need
not be written alike.  They are exactly if each zero has the same sign in both, and then they do not
differ at all (`text_eq_iff_of_agrees`).

Texts are compared from the front.  Up to the first zero with another sign the texts of modules that
agree are the same, and there one of them has a minus sign and the other has not.  `Tells` says this
of parts of the texts, whatever stands behind them, and so it composes as the texts do.
-/

namespace DeviceCode

/-! ## Literals in order -/

def Operand.literals : Operand → List Literal
  | constant _ literal => [literal]
  | _ => []

def Attachment.literals (a : Attachment) : List Literal := a.value.literals

def Action.literals (a : Action) : List Literal := a.operands.flatMap Operand.literals

/-- The literals of an instruction, those of its attachments last. -/
def Instruction.literals (i : Instruction) : List Literal :=
  i.action.literals ++ i.attachments.flatMap Attachment.literals

def Block.literals (b : Block) : List Literal := b.instructions.flatMap Instruction.literals

def Function.literals (f : Function) : List Literal := f.blocks.flatMap Block.literals

mutual

/-- The literals among the leaves of an initializer, in order. -/
def Initializer.literals : Initializer → List Literal
  | .scalar _ literal => [literal]
  | .array elements => Initializer.literalsOfList elements
  | _ => []

def Initializer.literalsOfList : List Initializer → List Literal
  | [] => []
  | e :: es => e.literals ++ Initializer.literalsOfList es

end

def GlobalVariable.literals (g : GlobalVariable) : List Literal :=
  g.initializer.elim [] Initializer.literals

/-- The literals of a module, in the order in which they are written. -/
def Module.literals (m : Module) : List Literal :=
  m.globals.flatMap GlobalVariable.literals ++ m.functions.flatMap Function.literals

/-- Whether a zero is negative; nothing for other numbers, and nothing for whole numbers. -/
def Literal.zeroSign? : Literal → Option Bool
  | float value => if value.isZero then some value.isNegative else none
  | int _ => none

/-- The signs of the zeros of a module in order. -/
def Module.zeroSigns (m : Module) : List Bool := m.literals.filterMap Literal.zeroSign?

/-! ## What can be told -/

/-- If the lists are the beginnings of one list, then `P` holds and they are the same. -/
def Tells {α : Type} (P : Prop) (s t : List α) : Prop := ∀ r r', s ++ r = t ++ r' → P ∧ r = r'

namespace Tells

variable {α : Type} {P Q : Prop} {s t s' t' : List α}

theorem refl (hp : P) (s : List α) : Tells P s s := fun _ _ h => ⟨hp, List.append_cancel_left h⟩

/-- What tells `P` tells whatever follows from it. -/
theorem mono (h : Tells P s t) (hpq : P → Q) : Tells Q s t := fun r r' he =>
  (h r r' he).imp_left hpq

/-- What two parts tell, they tell together; the second one is compared only if the first ones are
the same. -/
theorem append (h : Tells P s t) (h' : Tells Q s' t') : Tells (P ∧ Q) (s ++ s') (t ++ t') := by
  intro r r' he
  rw [List.append_assoc, List.append_assoc] at he
  obtain ⟨hp, he⟩ := h _ _ he
  obtain ⟨hq, he⟩ := h' _ _ he
  exact ⟨⟨hp, hq⟩, he⟩

theorem of_head_ne {a b : α} (h : a ≠ b) (s t : List α) : Tells P (a :: s) (b :: t) :=
  fun _ _ he => absurd (List.cons.inj he).1 h

theorem of_eq (h : Tells P s t) (he : s = t) : P := (h [] [] (congrArg (· ++ []) he)).1

end Tells

/-- What is told if the texts of two things are the same, or the signs of the zeros among their
literals. -/
structure Alike (P : Prop) (s t : String) (ls ks : List Literal) : Prop where
  text : Tells P s.toList t.toList
  signs : Tells P (ls.filterMap Literal.zeroSign?) (ks.filterMap Literal.zeroSign?)

/-- Two things as they are written; what is told is that they are the same. -/
def AlikeAs {α : Type} (text : α → String) (literals : α → List Literal) (a b : α) : Prop :=
  Alike (a = b) (text a) (text b) (literals a) (literals b)

namespace Alike

variable {α : Type} {P Q : Prop} {s t s' t' : String} {ls ks ls' ks' : List Literal}
  {as bs : List α} {text : α → String} {literals : α → List Literal}

theorem refl (hp : P) (s : String) (ls : List Literal) : Alike P s s ls ls :=
  ⟨.refl hp _, .refl hp _⟩

theorem mono (h : Alike P s t ls ks) (hpq : P → Q) : Alike Q s t ls ks :=
  ⟨h.text.mono hpq, h.signs.mono hpq⟩

/-- Alike parts in a row are alike, with their literals in a row. -/
theorem append (h : Alike P s t ls ks) (h' : Alike Q s' t' ls' ks') :
    Alike (P ∧ Q) (s ++ s') (t ++ t') (ls ++ ls') (ks ++ ks') := by
  constructor
  · rw [String.toList_append, String.toList_append]
    exact h.text.append h'.text
  · rw [List.filterMap_append, List.filterMap_append]
    exact h.signs.append h'.signs

/-- The same text in front of both. -/
theorem prependText (h : Alike P s t ls ks) (before : String) :
    Alike P (before ++ s) (before ++ t) ls ks :=
  ((refl trivial before []).append h).mono And.right

/-- The same text behind both. -/
theorem appendText (h : Alike P s t ls ks) (after : String) :
    Alike P (s ++ after) (t ++ after) ls ks := by
  have h := (h.append (refl trivial after [])).mono And.left
  rwa [List.append_nil, List.append_nil] at h

/-- Parts that are alike one by one are alike when they are joined. -/
theorem join (h : List.Forall₂ (AlikeAs text literals) as bs) :
    Alike (as = bs) (String.join (as.map text)) (String.join (bs.map text)) (as.flatMap literals)
      (bs.flatMap literals) := by
  induction h with
  | nil => exact refl rfl _ _
  | cons h _ ih =>
      rw [List.map_cons, List.map_cons, String.join_cons, String.join_cons]
      exact (h.append ih).mono fun he => by rw [he.1, he.2]

theorem commaList (h : List.Forall₂ (AlikeAs text literals) as bs) :
    Alike (as = bs) (commaSeparated (as.map text)) (commaSeparated (bs.map text))
      (as.flatMap literals) (bs.flatMap literals) := by
  cases h with
  | nil => exact refl rfl _ _
  | cons h hs =>
      have hs := join (hs.imp fun _ _ h => h.prependText ", ")
      rw [commaSeparated, commaSeparated, List.map_cons, List.map_cons,
        intercalate_cons, intercalate_cons, List.map_map, List.map_map]
      exact (h.append hs).mono fun he => by rw [he.1, he.2]

theorem lineList (h : List.Forall₂ (AlikeAs text literals) as bs) :
    Alike (as = bs) (lines (as.map text)) (lines (bs.map text)) (as.flatMap literals)
      (bs.flatMap literals) := by
  rw [lines, lines, List.map_map, List.map_map]
  exact join (h.imp fun _ _ h => h.appendText "\n")

end Alike

/-! ## Numbers -/

/-- Doubles that agree are the same, or both are zero. -/
theorem Double.eq_or_isZero_of_agrees {x y : Double} (h : x.agrees y = true) :
    x = y ∨ x.isZero = true ∧ y.isZero = true := by
  simp only [agrees, Bool.and_eq_true, Bool.or_eq_true, decide_eq_true_eq] at h
  exact h.2

theorem Double.eq_of_isZero {x : Double} (h : x.isZero = true) :
    x = ofMagnitude x.isNegative 0 := by
  rw [isZero, decide_eq_true_eq] at h
  rw [← h, x.ofMagnitude_magnitude]

/-- The sign of a zero is all that differs in writing. -/
theorem Double.toList_text_of_isZero {x : Double} (h : x.isZero = true) :
    x.text.toList = if x.isNegative then ['-', '0', '.', '0'] else ['0', '.', '0'] := by
  have hzero : ∀ negative, (ofMagnitude negative 0).text.toList =
      if negative then ['-', '0', '.', '0'] else ['0', '.', '0'] := by
    decide +kernel
  exact (congrArg (·.text.toList) (eq_of_isZero h)).trans (hzero x.isNegative)

/-- Zeros are told apart by the first character of their texts, if they are not the same. -/
theorem Double.alike_of_isZero {x y : Double} (hx : x.isZero = true) (hy : y.isZero = true) :
    Alike (x = y) x.text y.text [.float x] [.float y] := by
  by_cases hs : x.isNegative = y.isNegative
  · obtain rfl : x = y := by rw [eq_of_isZero hx, eq_of_isZero hy, hs]
    exact .refl rfl _ _
  · constructor
    · rw [toList_text_of_isZero hx, toList_text_of_isZero hy]
      cases hx' : x.isNegative <;> cases hy' : y.isNegative
      · exact absurd (hx'.trans hy'.symm) hs
      · exact .of_head_ne (by decide) _ _
      · exact .of_head_ne (by decide) _ _
      · exact absurd (hx'.trans hy'.symm) hs
    · simp only [List.filterMap_cons, List.filterMap_nil, Literal.zeroSign?, hx, hy, if_true]
      exact .of_head_ne hs _ _

/-- Literals that agree are alike: integers and other floats are the same, and zeros differ in their
signs. -/
theorem Literal.alike {a b : Literal} (h : a.agrees b = true) :
    Alike (a = b) a.text b.text [a] [b] := by
  cases a with
  | int v =>
      cases b with
      | int w =>
          obtain rfl : v = w := eq_of_beq h
          exact .refl rfl _ _
      | float y => cases h
  | float x =>
      cases b with
      | int w => cases h
      | float y =>
          rcases Double.eq_or_isZero_of_agrees h with rfl | ⟨hx, hy⟩
          · exact .refl rfl _ _
          · exact (Double.alike_of_isZero hx hy).mono (congrArg Literal.float)

/-! ## Parts of functions -/

/-- Lists that agree do so member by member. -/
theorem forall₂_of_isEqv {α : Type} {agrees : α → α → Bool} {R : α → α → Prop}
    (hr : ∀ a b, agrees a b = true → R a b) {as bs : List α} (h : as.isEqv bs agrees = true) :
    List.Forall₂ R as bs := by
  induction as generalizing bs with
  | nil =>
      cases bs with
      | nil => exact .nil
      | cons b bs => cases h
  | cons a as ih =>
      cases bs with
      | nil => cases h
      | cons b bs =>
          rw [List.isEqv, Bool.and_eq_true] at h
          exact .cons (hr a b h.1) (ih h.2)

/-- An operand that is no literal agrees with itself only. -/
theorem Operand.alike (a b : Operand) (h : a.agrees b = true) :
    AlikeAs Operand.text Operand.literals a b := by
  rw [agrees.eq_def] at h
  split at h
  case h_1 type literal type' literal' =>
    obtain ⟨htype, hliteral⟩ := Bool.and_eq_true_iff.mp h
    obtain rfl : type = type' := eq_of_beq htype
    exact ((Literal.alike hliteral).prependText (type.name ++ " ")).mono fun he => by rw [he]
  case h_2 =>
    obtain rfl : a = b := eq_of_beq h
    exact .refl rfl _ _

theorem Attachment.alike (a b : Attachment) (h : a.agrees b = true) :
    AlikeAs Attachment.text Attachment.literals a b := by
  obtain ⟨kind, value⟩ := a
  obtain ⟨kind', value'⟩ := b
  simp only [agrees, Bool.and_eq_true, beq_iff_eq] at h
  obtain ⟨rfl, hvalue⟩ := h
  exact ((Operand.alike _ _ hvalue).prependText (" !" ++ kind ++ " ")).mono fun he => by rw [he]

/-- Actions that agree are written in the same words, with operands that agree. -/
theorem Action.alike (a b : Action) (h : a.agrees b = true) :
    AlikeAs Action.text Action.literals a b := by
  rw [agrees.eq_def] at h
  split at h
  case h_1 type callee arguments type' callee' arguments' =>
    simp only [Bool.and_eq_true, beq_iff_eq] at h
    obtain ⟨⟨rfl, rfl⟩, harguments⟩ := h
    have harguments := Alike.commaList (forall₂_of_isEqv Operand.alike harguments)
    exact ((harguments.prependText ("call " ++ type.name ++ " " ++ callee.text ++ "(")).appendText
      ")").mono fun he => by rw [he]
  case h_2 opcode operands opcode' operands' =>
    obtain ⟨hopcode, hoperands⟩ := Bool.and_eq_true_iff.mp h
    obtain rfl : opcode = opcode' := eq_of_beq hopcode
    cases forall₂_of_isEqv Operand.alike hoperands with
    | nil => exact .refl rfl _ _
    | cons ho hos =>
        have hoperands := Alike.commaList (.cons ho hos)
        exact (hoperands.prependText (opcode ++ " ")).mono fun he => by rw [he]
  case h_3 => cases h

/-- Instructions that agree have the same result, and the rest is alike. -/
theorem Instruction.alike (i j : Instruction) (h : i.agrees j = true) :
    AlikeAs Instruction.text Instruction.literals i j := by
  obtain ⟨result, action, attachments⟩ := i
  obtain ⟨result', action', attachments'⟩ := j
  simp only [agrees, Bool.and_eq_true, beq_iff_eq] at h
  obtain ⟨⟨rfl, haction⟩, hattachments⟩ := h
  have hattachments := Alike.join (forall₂_of_isEqv Attachment.alike hattachments)
  exact (((Action.alike _ _ haction).prependText _).append hattachments).mono
    fun he => by rw [he.1, he.2]

theorem Block.alike (a b : Block) (h : a.agrees b = true) :
    AlikeAs Block.text Block.literals a b := by
  obtain ⟨label, instructions⟩ := a
  obtain ⟨label', instructions'⟩ := b
  simp only [agrees, Bool.and_eq_true, beq_iff_eq] at h
  obtain ⟨rfl, hinstructions⟩ := h
  have hinstructions := Alike.join ((forall₂_of_isEqv Instruction.alike hinstructions).imp
    fun _ _ h => (h.prependText "  ").appendText "\n")
  exact (hinstructions.prependText (label ++ ":\n")).mono fun he => by rw [he]

/-- Functions that agree have the same header, and blocks that agree. -/
theorem Function.alike (f g : Function) (h : f.agrees g = true) :
    AlikeAs Function.text Function.literals f g := by
  obtain ⟨name, linkage, convention, type, parameters, attributes, debug, body⟩ := f
  obtain ⟨name', linkage', convention', type', parameters', attributes', debug', body'⟩ := g
  simp only [agrees, Bool.and_eq_true, beq_iff_eq] at h
  obtain ⟨⟨⟨⟨⟨⟨⟨rfl, rfl⟩, rfl⟩, rfl⟩, rfl⟩, rfl⟩, rfl⟩, hbody⟩ := h
  cases body with
  | none =>
      cases body' with
      | none => exact .refl rfl _ _
      | some blocks' => cases hbody
  | some blocks =>
      cases body' with
      | none => cases hbody
      | some blocks' =>
          have hblocks := Alike.join (forall₂_of_isEqv Block.alike hbody)
          exact ((hblocks.prependText _).appendText "\x7d").mono fun he => by rw [he]

/-! ## Global variables -/

namespace Initializer

theorem texts_eq_map (es : List Initializer) : texts es = es.map text := by
  induction es with
  | nil => rfl
  | cons e es ih => rw [texts, ih, List.map_cons]

theorem literalsOfList_eq_flatMap (es : List Initializer) :
    literalsOfList es = es.flatMap literals := by
  induction es with
  | nil => rfl
  | cons e es ih => rw [literalsOfList, ih, List.flatMap_cons]

mutual

/-- Initializers that agree have the same shape and leaves that agree; it goes by induction on the
arrays. -/
theorem alike (a b : Initializer) (h : a.agrees b = true) : AlikeAs text literals a b := by
  rw [agrees.eq_def] at h
  split at h
  case h_1 type literal type' literal' =>
    obtain ⟨htype, hliteral⟩ := Bool.and_eq_true_iff.mp h
    obtain rfl : type = type' := eq_of_beq htype
    exact ((Literal.alike hliteral).prependText (type.name ++ " ")).mono fun he => by rw [he]
  case h_2 =>
    obtain rfl := eq_of_beq h
    exact .refl rfl _ _
  case h_3 as bs =>
    have helements := Alike.commaList (forall₂_alike as bs h)
    rw [← texts_eq_map, ← texts_eq_map, ← literalsOfList_eq_flatMap,
      ← literalsOfList_eq_flatMap] at helements
    exact ((helements.prependText "[").appendText "]").mono fun he => by rw [he]
  case h_4 =>
    obtain rfl := eq_of_beq h
    exact .refl rfl _ _
  case h_5 => exact .refl rfl _ _
  case h_6 => cases h

theorem forall₂_alike (as bs : List Initializer) (h : agreesOfList as bs = true) :
    List.Forall₂ (AlikeAs text literals) as bs := by
  rw [agreesOfList.eq_def] at h
  split at h
  case h_1 => exact .nil
  case h_2 a as b bs =>
    obtain ⟨ha, has⟩ := Bool.and_eq_true_iff.mp h
    exact .cons (alike a b ha) (forall₂_alike as bs has)
  case h_3 => cases h

end

end Initializer

/-- Variables that agree differ in their initializers at most. -/
theorem GlobalVariable.alike (g h : GlobalVariable) (hgh : g.agrees h = true) :
    AlikeAs GlobalVariable.text GlobalVariable.literals g h := by
  obtain ⟨name, linkage, isConstant, init⟩ := g
  obtain ⟨name', linkage', isConstant', init'⟩ := h
  simp only [agrees, Bool.and_eq_true, beq_iff_eq] at hgh
  obtain ⟨⟨⟨rfl, rfl⟩, rfl⟩, hinit⟩ := hgh
  cases init with
  | none =>
      cases init' with
      | none => exact .refl rfl _ _
      | some init' => cases hinit
  | some init =>
      cases init' with
      | none => cases hinit
      | some init' => exact ((Initializer.alike _ _ hinit).prependText _).mono fun he => by rw [he]

/-! ## Modules -/

/-- As many texts with something between them are the same if they are with it in front of each. -/
theorem join_eq_of_intercalate_eq {sep : String} {ts us : List String}
    (hlength : ts.length = us.length) (h : sep.intercalate ts = sep.intercalate us) :
    String.join (ts.map (sep ++ ·)) = String.join (us.map (sep ++ ·)) := by
  cases ts with
  | nil =>
      cases us with
      | nil => rfl
      | cons u us => cases hlength
  | cons t ts =>
      cases us with
      | nil => cases hlength
      | cons u us =>
          rw [intercalate_cons, intercalate_cons] at h
          rw [List.map_cons, List.map_cons, String.join_cons, String.join_cons, String.append_assoc,
            String.append_assoc, h]

namespace Module

variable {m n : Module}

/-- The paragraphs of modules that agree.  With a blank line in front of each, and not between them,
they can be compared one by one. -/
theorem alike_paragraphs (h : m.agrees n = true) :
    m.paragraphs.length = n.paragraphs.length ∧
      Alike (m = n) (String.join (m.paragraphs.map ("\n" ++ ·)))
        (String.join (n.paragraphs.map ("\n" ++ ·))) m.literals n.literals := by
  obtain ⟨source, globals, functions, records⟩ := m
  obtain ⟨source', globals', functions', records'⟩ := n
  simp only [agrees, Bool.and_eq_true, beq_iff_eq] at h
  obtain ⟨⟨⟨rfl, hglobals⟩, hfunctions⟩, rfl⟩ := h
  have hfunctions := forall₂_of_isEqv Function.alike hfunctions
  have hglobals := forall₂_of_isEqv GlobalVariable.alike hglobals
  have hspaced := Alike.join (hfunctions.imp fun _ _ h => (h.appendText "\n").prependText "\n")
  have hlines := (Alike.lineList hglobals).prependText "\n"
  have hparagraph : Alike (globals = globals')
      (String.join ((if globals.isEmpty then [] else
        [lines (globals.map GlobalVariable.text)]).map ("\n" ++ ·)))
      (String.join ((if globals'.isEmpty then [] else
        [lines (globals'.map GlobalVariable.text)]).map ("\n" ++ ·)))
      (globals.flatMap GlobalVariable.literals) (globals'.flatMap GlobalVariable.literals) := by
    cases hglobals with
    | nil => exact .refl rfl _ _
    | cons =>
        simp only [List.isEmpty_cons, Bool.false_eq_true, if_false, List.map_singleton,
          String.join_cons, String.join_nil, String.append_empty]
        exact hlines
  constructor
  · cases hglobals with
    | nil => simp [paragraphs, hfunctions.length_eq]
    | cons => simp [paragraphs, hfunctions.length_eq]
  · simp only [paragraphs, List.map_append, String.join_append, List.map_map]
    exact (((hparagraph.prependText _).append hspaced).appendText _).mono
      fun he => by rw [he.1, he.2]

/-- Modules that agree and are written alike are equal: the texts tell the sign of each zero. -/
theorem eq_of_text_eq (h : m.agrees n = true) (htext : m.text = n.text) : m = n := by
  obtain ⟨hlength, halike⟩ := alike_paragraphs h
  exact halike.text.of_eq (congrArg String.toList (join_eq_of_intercalate_eq hlength htext))

/-- If each zero has the same sign in both, modules that agree are equal. -/
theorem eq_of_zeroSigns_eq (h : m.agrees n = true) (hsigns : m.zeroSigns = n.zeroSigns) : m = n :=
  (alike_paragraphs h).2.signs.of_eq hsigns

/-- Modules that agree are written alike exactly if each zero has the same sign in both, and then
they do not differ at all. -/
theorem text_eq_iff_of_agrees (h : m.agrees n = true) :
    (m.text = n.text ↔ m.zeroSigns = n.zeroSigns) ∧ (m.zeroSigns = n.zeroSigns ↔ m = n) := by
  have htext : m.text = n.text ↔ m = n := ⟨eq_of_text_eq h, congrArg text⟩
  have hsigns : m.zeroSigns = n.zeroSigns ↔ m = n := ⟨eq_of_zeroSigns_eq h, congrArg zeroSigns⟩
  exact ⟨htext.trans hsigns.symm, hsigns⟩

/-- A text with a zero wherever a literal can be: in an initializer, among the operands of an
operation and of a call, and attached. -/
def zerosText (zero : String) : String :=
  "@t = constant [f64 " ++ zero ++ ", i32 0]\n\ndefine spir_func void @f(%p) \x7b\nentry:\n" ++
    "  store f64 " ++ zero ++ ", %p\n  call void @f(f32 " ++ zero ++ ") !note f64 " ++ zero ++
    "\n\x7d\n"

/-- The module that is read from such a text. -/
def zeros (zero : Double) : Module where
  sourceName := none
  globals := [⟨"t", .external, true, some (.array
    [.scalar .f64 (.float zero), .scalar .i32 (.int 0)])⟩]
  functions := [{ Function.declaration "f" .void ["p"] with
    body := some [⟨"entry", [
      ⟨none, .operation "store" [.constant .f64 (.float zero), .value "p"], []⟩,
      ⟨none, .call .void (.direct "f") [.constant .f32 (.float zero)],
        [⟨"note", .constant .f64 (.float zero)⟩]⟩]⟩] }]
  debugRecords := []

/-- With zeros of either sign the modules agree, but their texts differ. -/
theorem zeros_text_ne :
    Module.read (zerosText "0.0") = .ok (zeros (.ofMagnitude false 0)) ∧
      Module.read (zerosText "-0.0") = .ok (zeros (.ofMagnitude true 0)) ∧
      (zeros (.ofMagnitude false 0)).agrees (zeros (.ofMagnitude true 0)) = true ∧
      (zeros (.ofMagnitude false 0)).zeroSigns = [false, false, false, false] ∧
      (zeros (.ofMagnitude true 0)).zeroSigns = [true, true, true, true] ∧
      (zeros (.ofMagnitude false 0)).text ≠ (zeros (.ofMagnitude true 0)).text := by
  have hagrees : (zeros (.ofMagnitude false 0)).agrees (zeros (.ofMagnitude true 0)) = true := by
    decide +kernel
  obtain ⟨htext, -⟩ := text_eq_iff_of_agrees hagrees
  have hsigns : (zeros (.ofMagnitude false 0)).zeroSigns = [false, false, false, false] := by
    decide +kernel
  have hsigns' : (zeros (.ofMagnitude true 0)).zeroSigns = [true, true, true, true] := by
    decide +kernel
  refine ⟨by decide +kernel, by decide +kernel, hagrees, hsigns, hsigns', fun he => ?_⟩
  rw [htext, hsigns, hsigns'] at he
  exact absurd he (by decide)

end Module

end DeviceCode
