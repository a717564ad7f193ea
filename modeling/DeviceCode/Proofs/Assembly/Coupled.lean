import DeviceCode.Proofs.Assembly.Reads

/-!
# Like texts

Two texts are alike if the scans cannot tell them apart: the same tokens stand on the same lines,
with other blanks and comments between them, and behind the end of the one the other may go on.
What holds of such texts is `Likeness`.  `Coupled R V x y` follows two runs over them: when `x`
reads one of two like texts, `y` reads the other with a result that stands in the relation `V`, and
what they leave is alike again.

This file has the rules of composition and the scans of single tokens.
-/

namespace DeviceCode.Assembly

open Text (isBlank unescape?)

/-- The relation `R` holds of texts that are alike.  Where the first one has nothing left but blanks
and empty lines, the second one may go on with `behind`. -/
structure Likeness (R : List Char → List Char → Prop) (behind : List Char) : Prop where
  nil : ∀ {s}, R [] s → s = [] ∧ behind = []
  cons : ∀ {c r s}, R (c :: r) s → c ≠ '\n' → ∃ r', s = c :: r' ∧ R r r'
  newline : ∀ {r s}, R ('\n' :: r) s → ∃ c r', s = c :: r' ∧ isBlank c
  skip : ∀ {s s'}, R s s' → R (skip s) (skip s') ∧ (skip s').head? = (skip s).head?
  across : ∀ {s s'}, R s s' → R (dropBlanks true false s) (dropBlanks true false s') ∨
    dropBlanks true false s = [] ∧ dropBlanks true false s' = behind

variable {R : List Char → List Char → Prop} {behind : List Char}

namespace Likeness

variable (L : Likeness R behind) {s s' r : List Char} {c : Char} {p : Char → Bool}
include L

/-- Like texts go on with the same character, unless it is a blank. -/
theorem head?_eq_some_iff (h : R s s') (hc : isBlank c = false) :
    s'.head? = some c ↔ s.head? = some c := by
  cases s with
  | nil => rw [(L.nil h).1]
  | cons d r =>
      by_cases hd : d = '\n'
      · -- where a line ends, blanks may stand in front of the end
        subst hd
        obtain ⟨e, r', rfl, he⟩ := L.newline h
        have hne : e ≠ c := fun hec => absurd (hec ▸ he) (by rw [hc]; decide)
        have hne' : '\n' ≠ c := fun hec => absurd hc (by rw [← hec]; decide)
        simp [hne, hne']
      · obtain ⟨r', rfl, -⟩ := L.cons h hd
        rfl

/-- A text is at its end only together with its like. -/
theorem eq_nil_iff (h : R s s') : s' = [] ↔ s = [] := by
  refine ⟨fun hs => ?_, fun hs => (L.nil (hs ▸ h)).1⟩
  subst hs
  cases s with
  | nil => rfl
  | cons c r =>
      by_cases hc : c = '\n'
      · subst hc
        obtain ⟨_, _, hs, -⟩ := L.newline h
        cases hs
      · obtain ⟨_, hs, -⟩ := L.cons h hc
        cases hs

/-- No blank is a character of a word, so like texts go on with the same word. -/
theorem span (hp : ∀ c, p c → IsPlain c) (h : R s s') :
    s'.takeWhile p = s.takeWhile p ∧ R (s.dropWhile p) (s'.dropWhile p) := by
  have hblank : ∀ c, isBlank c → p c = false := fun c hc => by
    by_contra hpc
    exact absurd hc (by rw [(hp c (Bool.eq_true_of_not_eq_false hpc)).1]; decide)
  induction s generalizing s' with
  | nil =>
      obtain ⟨rfl, -⟩ := L.nil h
      exact ⟨rfl, h⟩
  | cons c r ih =>
      by_cases hc : c = '\n'
      · subst hc
        obtain ⟨d, r', rfl, hd⟩ := L.newline h
        simp only [List.takeWhile_cons, List.dropWhile_cons, hblank d hd,
          hblank '\n' (by decide)]
        exact ⟨rfl, h⟩
      · obtain ⟨r', rfl, hr⟩ := L.cons h hc
        obtain ⟨htake, hdrop⟩ := ih hr
        simp only [List.takeWhile_cons, List.dropWhile_cons]
        split
        · exact ⟨congrArg _ htake, hdrop⟩
        · exact ⟨rfl, h⟩

/-- A string is read alike: what stands between quotes is no blank, whatever it is. -/
theorem readString {content a : List Char} (h : R s s')
    (hs : readString content s = .ok (a, r)) :
    ∃ r', Assembly.readString content s' = .ok (a, r') ∧ R r r' := by
  fun_induction Assembly.readString content s generalizing s' with
  | case1 => cases hs
  | case2 => cases hs
  | case3 content e r d he ih =>
      obtain ⟨_, rfl, h₁⟩ := L.cons h (by decide)
      have hne : e ≠ '\n' := by
        rintro rfl
        cases he
      obtain ⟨_, rfl, h₂⟩ := L.cons h₁ hne
      obtain ⟨r', hr', hR⟩ := ih h₂ hs
      refine ⟨r', ?_, hR⟩
      rw [Assembly.readString]
      simp only [he]
      exact hr'
  | case4 => cases hs
  | case5 => cases hs
  | case6 content r hne hq =>
      cases hs
      obtain ⟨r', rfl, h₁⟩ := L.cons h (by decide)
      exact ⟨r', by simp [Assembly.readString], h₁⟩
  | case7 content c r hne hn hq ih =>
      obtain ⟨_, rfl, h₁⟩ := L.cons h hn
      obtain ⟨r', hr', hR⟩ := ih h₁ hs
      refine ⟨r', ?_, hR⟩
      rw [Assembly.readString, if_neg hn, if_neg hq, hr']
      exact hne

end Likeness

namespace Scan

variable {α β γ δ : Type}

/-- What `x` reads from a text, `y` reads from a like one up to `V`, and the rests are alike. -/
def Coupled (R : List Char → List Char → Prop) (V : α → β → Prop) (x : Scan α)
    (y : Scan β) : Prop :=
  ∀ ⦃c s a c'⦄, R c.rest s → x c = .ok a c' → ∃ b r, V a b ∧ R c'.rest r ∧ Reads y s b r

/-- The scan reads the same from like texts. -/
abbrev Stable (R : List Char → List Char → Prop) (x : Scan α) : Prop := Coupled R Eq x x

/-! ## Rules -/

section Rules

variable {V : α → β → Prop} {W : γ → δ → Prop} {x : Scan α} {y : Scan β}

/-- What reads nothing is coupled by its results. -/
theorem Coupled.pure {a : α} {b : β} (h : V a b) : Coupled R V (pure a) (pure b) := by
  intro c s a' c' hR e
  cases e
  exact ⟨b, s, h, hR, .pure⟩

/-- Coupled scans behind coupled scans are coupled, if the second ones are for all results that the
first ones relate. -/
theorem Coupled.bind {f : α → Scan γ} {g : β → Scan δ} (hx : Coupled R V x y)
    (hf : ∀ a b, V a b → Coupled R W (f a) (g b)) : Coupled R W (x >>= f) (y >>= g) := by
  intro c s a c' hR e
  obtain ⟨a₁, c₁, h₁, h₂⟩ := bind_eq_ok.mp e
  obtain ⟨b₁, r₁, hV, hR₁, hy⟩ := hx hR h₁
  obtain ⟨b, r, hW, hR₂, hg⟩ := hf a₁ b₁ hV hR₁ h₂
  exact ⟨b, r, hW, hR₂, hy.bind hg⟩

/-- A stable scan in front has one result. -/
theorem Stable.then {x : Scan α} {f : α → Scan γ} {g : α → Scan δ} (hx : Stable R x)
    (hf : ∀ a, Coupled R W (f a) (g a)) : Coupled R W (x >>= f) (x >>= g) :=
  hx.bind fun a _ hab => hab ▸ hf a

theorem Stable.bind {x : Scan α} {f : α → Scan γ} (hx : Stable R x) (hf : ∀ a, Stable R (f a)) :
    Stable R (x >>= f) :=
  hx.then hf

theorem Stable.map {x : Scan α} (hx : Stable R x) (f : α → γ) : Stable R (f <$> x) := by
  rw [map_eq_pure_bind]
  exact hx.then fun _ => Coupled.pure rfl

/-- Choosing by a condition that holds of both results so far or of neither. -/
theorem Coupled.ite_iff {p q : Prop} [Decidable p] [Decidable q] {x₁ x₂ : Scan α} {y₁ y₂ : Scan β}
    (hpq : p ↔ q) (h₁ : p → Coupled R V x₁ y₁) (h₂ : ¬ p → Coupled R V x₂ y₂) :
    Coupled R V (if p then x₁ else x₂) (if q then y₁ else y₂) := by
  by_cases h : p
  · rw [if_pos h, if_pos (hpq.mp h)]
    exact h₁ h
  · rw [if_neg h, if_neg (mt hpq.mpr h)]
    exact h₂ h

theorem Coupled.ite {p : Prop} [Decidable p] {x₁ x₂ : Scan α} {y₁ y₂ : Scan β}
    (h₁ : p → Coupled R V x₁ y₁) (h₂ : ¬ p → Coupled R V x₂ y₂) :
    Coupled R V (if p then x₁ else x₂) (if p then y₁ else y₂) :=
  Coupled.ite_iff Iff.rfl h₁ h₂

/-- A scan that fails reads nothing, so there is nothing to couple. -/
theorem coupled_fail (cause : Cause) : Coupled R V (fail cause) y := by
  intro c s a c' hR e
  cases e

theorem coupled_failAt (p : Place) (cause : Cause) : Coupled R V (failAt p cause) y := by
  intro c s a c' hR e
  cases e

/-- A fault that shows the next character. -/
theorem coupled_next?_fail (cause : Option Char → Cause) :
    Coupled R V (next? >>= fun c => fail (cause c)) y := by
  intro c s a c' hR e
  cases e

/-- Scans are coupled if both read all like texts. -/
theorem coupled_of_reads (h : ∀ s s', R s s' →
    ∃ a b r r', V a b ∧ R r r' ∧ Reads x s a r ∧ Reads y s' b r') : Coupled R V x y := by
  intro c s a c' hR e
  obtain ⟨a', b, r, r', hV, hr, hx, hy⟩ := h c.rest s hR
  obtain ⟨t', ht⟩ := hx c.trace
  obtain ⟨rfl, rfl⟩ := EStateM.Result.ok.inj (ht.symm.trans e)
  exact ⟨b, r', hV, hr, hy⟩

end Rules

/-! ## Characters -/

section Characters

/-- Places differ, and no relation is kept between them. -/
theorem coupled_place : Coupled R R place place :=
  coupled_of_reads fun s s' h => ⟨s, s', s, s', h, h, reads_place, reads_place⟩

theorem coupled_note (act : Act) (p p' : Place) : Coupled R Eq (note act p) (note act p') :=
  coupled_of_reads fun s s' h => ⟨(), (), s, s', rfl, h, reads_note _ _, reads_note _ _⟩

variable (L : Likeness R behind)
include L

/-- The next characters are the same unless one of them is a blank. -/
theorem coupled_next? :
    Coupled R (fun o o' => ∀ c, isBlank c = false → (o' = some c ↔ o = some c)) next? next? :=
  coupled_of_reads fun s s' h => ⟨s.head?, s'.head?, s, s', fun _ => L.head?_eq_some_iff h, h,
    reads_next?, reads_next?⟩

/-- Plain characters are taken from both texts up to the same one. -/
theorem stable_takeWhile {p : Char → Bool} (hp : ∀ c, p c → IsPlain c) :
    Stable R (takeWhile p) := by
  refine coupled_of_reads fun s s' h => ?_
  obtain ⟨htake, hdrop⟩ := L.span hp h
  exact ⟨_, _, _, _, htake.symm, hdrop, fun t => ⟨t, rfl⟩, fun t => ⟨t, rfl⟩⟩

theorem stable_blanks : Stable R (blanks false) :=
  coupled_of_reads fun _ _ h => ⟨(), (), _, _, rfl, (L.skip h).1, reads_blanks _, reads_blanks _⟩

theorem stable_peek? : Stable R peek? :=
  coupled_of_reads fun _ _ h => ⟨_, _, _, _, (L.skip h).2.symm, (L.skip h).1, reads_peek?,
    reads_peek?⟩

/-- A character is tried with the same result, unless it ends a line. -/
theorem stable_tryChar {ch : Char} (hch : ch ≠ '\n') :
    Stable R (tryChar ch) := by
  refine coupled_of_reads fun s s' h => ?_
  obtain ⟨hskip, hhead⟩ := L.skip h
  by_cases hs : (Assembly.skip s).head? = some ch
  · obtain ⟨r, hr⟩ := List.head?_eq_some_iff.mp hs
    obtain ⟨r', hr', h'⟩ := L.cons (hr ▸ hskip) hch
    exact ⟨true, true, r, r', rfl, h', reads_tryChar hr, reads_tryChar hr'⟩
  · exact ⟨false, false, _, _, rfl, hskip, reads_tryChar_false hs,
      reads_tryChar_false (hhead ▸ hs)⟩

theorem stable_expect {ch : Char} (hch : ch ≠ '\n') : Stable R (expect ch) :=
  (stable_tryChar L hch).then fun _ => Coupled.ite (fun _ => Coupled.pure rfl)
    fun _ => coupled_next?_fail _

theorem stable_isAtLineEnd : Stable R isAtLineEnd :=
  (stable_peek? L).then fun _ => Coupled.pure rfl

theorem stable_expectLineEnd : Stable R expectLineEnd :=
  (stable_isAtLineEnd L).then fun _ => Coupled.ite (fun _ => Coupled.pure rfl)
    fun _ => coupled_next?_fail _

end Characters

/-! ## Tokens -/

section Tokens

variable (L : Likeness R behind)
include L

/-- A name ends where it does in the like text, since its characters are plain. -/
theorem stable_name : Stable R name :=
  (stable_takeWhile L fun _ => isPlain_of_isNameChar).then fun _ =>
    Coupled.ite (fun _ => coupled_next?_fail _) fun _ => Coupled.pure rfl

theorem stable_keyword : Stable R keyword := by
  refine (stable_peek? L).then fun c => ?_
  cases c with
  | none => exact coupled_fail _
  | some c => exact Coupled.ite (fun _ => stable_name L) fun _ => coupled_fail _

theorem stable_string : Stable R string := by
  refine (stable_expect L (by decide)).then fun _ => ?_
  intro c s a c' h e
  dsimp only at e
  split at e
  case h_1 content rest hs =>
      cases e
      obtain ⟨rest', hs', h'⟩ := L.readString h hs
      refine ⟨_, rest', rfl, h', fun t => ⟨t, ?_⟩⟩
      simp only [hs']
  case h_2 => cases e

theorem stable_number : Stable R number :=
  have hdigit : ∀ c : Char, c.isDigit → IsPlain c := fun _ h =>
    isPlain_of_isLiteralChar (isLiteralChar_of_isDigit h)
  (stable_blanks L).then fun _ => coupled_place.bind fun _ _ _ =>
    (stable_takeWhile L hdigit).then fun _ => Coupled.ite (fun _ => coupled_fail _) fun _ =>
      Coupled.ite (fun _ => Coupled.pure rfl) fun _ => coupled_failAt _ _

theorem stable_valueType : Stable R valueType := by
  refine coupled_place.bind fun _ _ _ => (stable_keyword L).then fun word => ?_
  cases ValueType.ofName? word with
  | none => exact coupled_failAt _ _
  | some type => exact Coupled.pure rfl

theorem stable_literal (type : ValueType) : Stable R (literal type) := by
  refine (stable_blanks L).then fun _ => coupled_place.bind fun _ _ _ =>
    (stable_takeWhile L fun _ => isPlain_of_isLiteralChar).then fun word => ?_
  cases readLiteral? type word with
  | none => exact coupled_failAt _ _
  | some value => exact Coupled.pure rfl

theorem stable_noted (act : String → Act) : Stable R (noted act) :=
  coupled_place.bind fun _ _ _ => (stable_name L).then fun _ => (coupled_note _ _ _).bind
    fun _ _ _ => Coupled.pure rfl

theorem stable_metadataUse : Stable R metadataUse :=
  (stable_expect L (by decide)).then fun _ => coupled_place.bind fun _ _ _ =>
    (stable_number L).then fun _ => (coupled_note _ _ _).bind fun _ _ _ => Coupled.pure rfl

end Tokens

end Scan

end DeviceCode.Assembly
