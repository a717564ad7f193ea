import DeviceCode.Proofs.Assembly.CoupledBody

/-!
# Like entities

An entity ends with its line, so it is read alike from like texts.  Behind the last entity of a text
the like text may go on, and then the entities there are read as well (`reads_entities_append`).
-/

namespace DeviceCode.Assembly.Scan

variable {R : List Char → List Char → Prop} {behind : List Char}

/-! ## Global variables and debug records -/

/-- Whether a variable is constant depends on a word that was read before. -/
theorem stable_variableKind (w : String) : Stable R (variableKind w) :=
  Coupled.ite (fun _ => Coupled.pure rfl) fun _ => Coupled.ite (fun _ => Coupled.pure rfl)
    fun _ => coupled_fail _

variable (L : Likeness R behind)
include L

/-- Places differ, but what stands there does not. -/
theorem coupled_word : Coupled R (fun w w' => w.1 = w'.1) word word :=
  coupled_place.bind fun _ _ _ => (stable_keyword L).then fun _ => Coupled.pure rfl

/-- The place of the linkage may differ, but the words are the same. -/
theorem coupled_variableLinkage? :
    Coupled R (fun l l' => l.1 = l'.1 ∧ l.2.1 = l'.2.1) variableLinkage? variableLinkage? := by
  refine (coupled_word L).bind fun w w' hw => ?_
  rw [hw]
  cases Linkage.ofKeyword? w'.1 with
  | none => exact Coupled.pure ⟨rfl, hw⟩
  | some l => exact (coupled_word L).bind fun _ _ hnext => Coupled.pure ⟨rfl, hnext⟩

/-- An initializer is there if the line goes on, and lines end alike. -/
theorem coupled_initializer? (name : String) (start start' : Place) (linkage : Linkage) :
    Coupled R Eq (initializer? name start linkage) (initializer? name start' linkage) :=
  (stable_isAtLineEnd L).then fun _ => Coupled.ite (fun _ => Coupled.ite
    (fun _ => Coupled.pure rfl) fun _ => coupled_failAt _ _) fun _ => (stable_initializer L).map _

theorem stable_global : Stable R global := by
  refine (stable_expect L (by decide)).bind fun _ => coupled_place.bind fun start start' _ =>
    (stable_noted L _).then fun name => (stable_expect L (by decide)).then fun _ =>
      (coupled_variableLinkage? L).bind ?_
  rintro ⟨linkage, kind, place⟩ ⟨_, _, place'⟩ ⟨rfl, rfl⟩
  exact (stable_variableKind kind).then fun _ => (coupled_initializer? L _ _ _ _).bind
    fun _ _ hinit => Coupled.pure (by rw [hinit])

/-- The entry of a record keeps to its line as well. -/
theorem stable_debugEntry : Stable R debugEntry := by
  refine (coupled_word L).bind ?_
  rintro ⟨w, start⟩ ⟨_, start'⟩ rfl
  exact Coupled.ite (fun _ => (stable_string L).map _) fun _ => Coupled.ite
    (fun _ => (stable_string L).bind fun _ => (stable_metadataUse L).map _)
      fun _ => coupled_failAt _ _

theorem stable_debugRecord : Stable R debugRecord :=
  (stable_expect L (by decide)).bind fun _ => coupled_place.bind fun _ _ _ =>
    (stable_number L).then fun _ => (coupled_note _ _ _).bind fun _ _ _ =>
      (stable_expect L (by decide)).then fun _ => (stable_debugEntry L).then fun _ =>
        Coupled.pure rfl

/-! ## Functions -/

/-- The place of the linkage is kept for faults only. -/
theorem coupled_functionLinkage (isDefinition : Bool) :
    Coupled R (fun l l' => l.1 = l'.1 ∧ l.2.1 = l'.2.1) (functionLinkage isDefinition)
      (functionLinkage isDefinition) := by
  refine (coupled_word L).bind fun w w' hw => ?_
  rw [hw]
  cases Linkage.ofKeyword? w'.1 with
  | none => exact Coupled.pure ⟨rfl, hw⟩
  | some l =>
      exact Coupled.ite (fun _ => coupled_failAt _ _) fun _ =>
        (coupled_word L).bind fun _ _ hnext => Coupled.pure ⟨rfl, hnext⟩

/-- The word that was read in place of a convention is the same, its place may not be. -/
theorem coupled_convention {w w' : String × Place} (hw : w.1 = w'.1) :
    Coupled R (fun l l' => l.1 = l'.1 ∧ l.2.1 = l'.2.1) (convention w) (convention w') := by
  rw [convention, convention, hw]
  cases CallingConvention.ofKeyword? w'.1 with
  | none => exact Coupled.pure ⟨rfl, hw⟩
  | some cc => exact (coupled_word L).bind fun _ _ hnext => Coupled.pure ⟨rfl, hnext⟩

theorem stable_parameter : Stable R parameter :=
  (stable_expect L (by decide)).bind fun _ => stable_noted L _

theorem stable_functionAttribute : Stable R functionAttribute :=
  (stable_string L).bind fun _ => (stable_expect L (by decide)).bind fun _ =>
    (stable_string L).bind fun _ => Coupled.pure rfl

theorem stable_debugUse? : Stable R debugUse? := by
  refine (stable_tryChar L (by decide)).bind fun _ => Coupled.ite (fun _ => ?_)
    fun _ => Coupled.pure rfl
  refine (coupled_word L).bind ?_
  rintro ⟨w, start⟩ ⟨_, start'⟩ rfl
  exact Coupled.ite (fun _ => (stable_metadataUse L).map _) fun _ => coupled_failAt _ _

/-- A header keeps to its line, with its parameters and attributes. -/
theorem stable_header (linkage : Linkage) (cc : CallingConvention) (type : ValueType) :
    Stable R (header linkage cc type) :=
  (stable_expect L (by decide)).bind fun _ => (stable_noted L _).bind fun _ =>
    coupled_place.bind fun _ _ _ => (coupled_note _ _ _).bind fun _ _ _ =>
      (stable_expect L (by decide)).then fun _ =>
        (stable_listUntil L (stable_parameter L) (by decide) _).then fun _ =>
          (stable_many (stable_behind L (stable_functionAttribute L) (by decide))).then fun _ =>
            Coupled.pure rfl

/-- The words in front of a header are alike, so the header has the same linkage and convention. -/
theorem stable_signature (isDefinition : Bool) : Stable R (signature isDefinition) := by
  refine (coupled_functionLinkage L isDefinition).bind ?_
  rintro ⟨linkage, next⟩ ⟨_, next'⟩ ⟨rfl, hnext⟩
  refine (coupled_convention L hnext).bind ?_
  rintro ⟨cc, typeName, start⟩ ⟨_, _, start'⟩ ⟨rfl, rfl⟩
  dsimp only
  cases ValueType.ofName? typeName with
  | none => exact coupled_failAt _ _
  | some type => exact stable_header L _ _ _

/-- The brace of a body is on the line of the header, and the body is read alike since it is
closed. -/
theorem stable_function (isDefinition : Bool) : Stable R (function isDefinition) :=
  (stable_signature L isDefinition).bind fun _ => Coupled.ite (fun _ =>
    (stable_debugUse? L).then fun _ => (stable_body L _).then fun _ => Coupled.pure rfl)
      fun _ => Coupled.pure rfl

/-! ## Texts -/

theorem stable_worded : Stable R worded := by
  refine (coupled_word L).bind ?_
  rintro ⟨w, start⟩ ⟨_, start'⟩ rfl
  exact Coupled.ite (fun _ => (stable_function L true).map _) fun _ =>
    Coupled.ite (fun _ => (stable_function L false).map _) fun _ =>
      Coupled.ite (fun _ => (stable_expect L (by decide)).bind fun _ => (stable_string L).map _)
        fun _ => coupled_failAt _ _

/-- An entity ends with its line, which is the last one of a text or is followed by others. -/
theorem stable_entity : Stable R entity :=
  (coupled_next? L).bind fun _ _ h => Coupled.ite_iff (h '@' (by decide)).symm
    (fun _ => (stable_global L).map _) fun _ => Coupled.ite_iff (h '!' (by decide)).symm
      (fun _ => (stable_debugRecord L).map _) fun _ => stable_worded L

/-- Where an entity begins, both texts have one.  Behind it they are alike again, or the first text
is at its end and the second goes on with `behind`. -/
theorem entityItem_cases {c c' : Cursor} {s : List Char} {o : Option Entity} (hR : R c.rest s)
    (hne : c.rest ≠ []) (e : entityItem c = .ok o c') :
    o ≠ none ∧ ∃ r, (R c'.rest r ∨ c'.rest = [] ∧ r = behind) ∧ Reads entityItem s o r := by
  obtain ⟨_, _, e₁, e₂⟩ := bind_eq_ok.mp e
  cases e₁
  rw [if_neg hne] at e₂
  obtain ⟨entity, c₁, e₃, e₄⟩ := bind_eq_ok.mp e₂
  obtain ⟨_, r₁, rfl, hr₁, hentity⟩ := stable_entity L hR e₃
  obtain ⟨_, c₂, e₅, e₆⟩ := bind_eq_ok.mp e₄
  obtain ⟨_, r₂, rfl, hr₂, hend⟩ := stable_expectLineEnd L hr₁ e₅
  cases e₆
  refine ⟨nofun, _, L.across hr₂, reads_place.bind ?_⟩
  rw [if_neg (mt (L.eq_nil_iff hR).mp hne)]
  exact hentity.bind (hend.bind ((reads_blanks true).bind .pure))

/-- Behind the entities of the one text the other one has those that are read from `behind`. -/
theorem reads_many_entityItem_append {es₂ : List Entity} {r₂ : List Char}
    (hb : Reads (many entityItem shrinks_entityItem) behind es₂ r₂) {c c' : Cursor} {s : List Char}
    {es : List Entity} (hR : R c.rest s ∨ c.rest = [] ∧ s = behind)
    (e : many entityItem shrinks_entityItem c = .ok es c') :
    Reads (many entityItem shrinks_entityItem) s (es ++ es₂) r₂ := by
  fun_induction many entityItem shrinks_entityItem c generalizing s es c' with
  | case1 => cases e
  | case2 c d hitem =>
      cases e
      by_cases hne : c.rest = []
      · -- the end of the one text is that of the other one, or what is behind begins there
        have hs : s = behind := by
          rcases hR with hR | ⟨-, hs⟩
          · obtain ⟨rfl, rfl⟩ := L.nil (hne ▸ hR)
            rfl
          · exact hs
        rw [hs]
        exact hb
      · have hR := hR.resolve_right fun h => hne h.1
        exact absurd rfl (entityItem_cases L hR hne hitem).1
  | case3 => cases e
  | case4 c entity d hitem es d' hmany ih =>
      cases e
      by_cases hne : c.rest = []
      · obtain ⟨rest, trace⟩ := c
        obtain rfl : rest = [] := hne
        cases hitem
      · have hR := hR.resolve_right fun h => hne h.1
        obtain ⟨-, r, hr, hreads⟩ := entityItem_cases L hR hne hitem
        exact reads_many_cons hreads (ih hr hmany)

/-- If a text is read as some entities, a like text is read as these and those of the text behind
it. -/
theorem reads_entities_append {es es₂ : List Entity} {r₂ s s' : List Char} {t : List Occurrence}
    {c : Cursor} (hR : R s s') (e : entities ⟨s, t⟩ = .ok es c)
    (hb : Reads (many entityItem shrinks_entityItem) behind es₂ r₂) :
    Reads entities s' (es ++ es₂) r₂ := by
  obtain ⟨_, _, e₁, e₂⟩ := bind_eq_ok.mp e
  cases e₁
  exact (reads_blanks true).bind (reads_many_entityItem_append L hb (L.across hR) e₂)

end DeviceCode.Assembly.Scan
