import DeviceCode.Proofs.Assembly.Coupled
import DeviceCode.Proofs.Assembly.ReadsInitializer

/-!
# Like bodies and initializers

An instruction stays in its line, and so does an initializer, so both are read alike from like
texts.  A block may run up to the end of the text.  Then a like text may go on with more
instructions, and `CoupledInside` says nothing; but the body around it has to be closed.
-/

namespace DeviceCode.Assembly.Scan

variable {R : List Char → List Char → Prop} {behind : List Char} (L : Likeness R behind)
variable {α β γ δ : Type}

/-! ## Lists -/

section Lists

variable {x : Scan α} (hx : Stable R x)

/-- A repetition is followed item by item, up to an exception `E`: it ends with an exceptional item,
or an exceptional item has others behind it, or it is read to its end. -/
theorem many_like {item : Scan (Option α)} {h : Shrinks perItem item} {E : Option α → Cursor → Prop}
    (hi : ∀ ⦃c s o c'⦄, R c.rest s → item c = .ok o c' →
      E o c' ∨ ∃ r, R c'.rest r ∧ Reads item s o r)
    {c c' : Cursor} {s : List Char} {as : List α} (hR : R c.rest s)
    (e : many item h c = .ok as c') :
    E none c' ∨ (∃ a d as', E (some a) d ∧ many item h d = .ok as' c') ∨
      ∃ r, R c'.rest r ∧ Reads (many item h) s as r := by
  fun_induction many item h c generalizing s as c' with
  | case1 => cases e
  | case2 c d hitem =>
      cases e
      rcases hi hR hitem with hE | ⟨r, hr, hreads⟩
      · exact .inl hE
      · exact .inr (.inr ⟨r, hr, reads_many_nil hreads⟩)
  | case3 => cases e
  | case4 c a d hitem as d' hmany ih =>
      cases e
      rcases hi hR hitem with hE | ⟨r, hr, hreads⟩
      · exact .inr (.inl ⟨a, d, as, hE, hmany⟩)
      · rcases ih hr hmany with hE | hE | ⟨r', hr', hreads'⟩
        · exact .inl hE
        · exact .inr (.inl hE)
        · exact .inr (.inr ⟨r', hr', reads_many_cons hreads hreads'⟩)

/-- Items that are read alike are counted alike: both scans stop at the same item. -/
theorem stable_many {item : Scan (Option α)} {h : Shrinks perItem item} (hi : Stable R item) :
    Stable R (many item h) := by
  intro c s as c' hR e
  have hitem : ∀ ⦃c s o c'⦄, R c.rest s → item c = .ok o c' →
      False ∨ ∃ r, R c'.rest r ∧ Reads item s o r := fun c s o c' hR e => by
    obtain ⟨_, r, rfl, hr, hreads⟩ := hi hR e
    exact .inr ⟨r, hr, hreads⟩
  rcases many_like hitem hR e with hE | ⟨_, _, _, hE, -⟩ | ⟨r, hr, hreads⟩
  · exact hE.elim
  · exact hE.elim
  · exact ⟨as, r, rfl, hr, hreads⟩

include L hx

theorem stable_behind {ch : Char} (hch : ch ≠ '\n') : Stable R (Scan.behind ch x) :=
  (stable_tryChar L hch).bind fun _ => Coupled.ite (fun _ => hx.map _) fun _ => Coupled.pure rfl

/-- Commas do not end a line, so they are told from blanks in both texts. -/
theorem stable_commaList (h : Shrinks (fun _ => 0) x) : Stable R (commaList x h) :=
  hx.bind fun _ => (stable_many (stable_behind L hx (by decide))).bind fun _ => Coupled.pure rfl

/-- The character that closes a list must not be the end of a line, which one of two like texts may
lack. -/
theorem stable_listUntil {close : Char} (hclose : close ≠ '\n') (h : Shrinks (fun _ => 0) x) :
    Stable R (listUntil close x h) :=
  (stable_tryChar L hclose).bind fun _ => Coupled.ite (fun _ => Coupled.pure rfl) fun _ =>
    (stable_commaList L hx h).bind fun _ => (stable_expect L hclose).bind fun _ => Coupled.pure rfl

end Lists

/-! ## Instructions -/

section Instructions

include L

/-- An operand is told by its first character, and this is no blank. -/
theorem stable_operand : Stable R operand := by
  have noted (act : String → Act) (make : String → Operand) : Stable R (make <$> noted act) :=
    (stable_noted L act).map make
  refine (stable_tryChar L (by decide)).bind fun _ => Coupled.ite (fun _ => noted _ _) fun _ =>
    (stable_tryChar L (by decide)).bind fun _ => Coupled.ite (fun _ => noted _ _) fun _ =>
      (stable_tryChar L (by decide)).bind fun _ => Coupled.ite (fun _ => noted _ _) fun _ =>
        (stable_peek? L).bind fun c => ?_
  split
  · exact (stable_string L).map _
  · exact (stable_metadataUse L).map _
  · exact (stable_valueType L).bind fun type => (stable_literal L type).map _
  · exact coupled_fail _

theorem stable_callee : Stable R callee :=
  (stable_tryChar L (by decide)).bind fun _ => Coupled.ite (fun _ => (stable_noted L _).map _)
    fun _ => (stable_tryChar L (by decide)).bind fun _ =>
      Coupled.ite (fun _ => (stable_noted L _).map _) fun _ => coupled_next?_fail _

theorem stable_call : Stable R call :=
  (stable_valueType L).bind fun _ => (stable_callee L).bind fun _ =>
    (stable_expect L (by decide)).bind fun _ =>
      (stable_listUntil L (stable_operand L) (by decide) _).bind fun _ => Coupled.pure rfl

theorem stable_operation (opcode : String) : Stable R (operation opcode) := by
  refine (stable_isAtLineEnd L).bind fun atEnd => (coupled_next? L).bind fun o o' h => ?_
  have hmark : (atEnd || o == some '!') = true ↔ (atEnd || o' == some '!') = true := by
    simp [h '!' (by decide)]
  exact Coupled.ite_iff hmark (fun _ => Coupled.pure rfl) fun _ =>
    (stable_commaList L (stable_operand L) _).map _

/-- An attachment is a name and an operand. -/
theorem stable_attachment : Stable R attachment :=
  (stable_keyword L).bind fun _ => (stable_operand L).bind fun _ => Coupled.pure rfl

/-- The result of an instruction is there if a sigil is, and like texts go on with the same
character. -/
theorem stable_result? : Stable R result? := by
  intro c s o c' hR e
  obtain ⟨_, _, e₁, e₂⟩ := bind_eq_ok.mp e
  cases e₁
  by_cases hc : c.rest.head? = some '%'
  · obtain ⟨r, hr⟩ := List.head?_eq_some_iff.mp hc
    obtain ⟨r', rfl, hR'⟩ := L.cons (hr ▸ hR) (by decide)
    rw [if_pos hc] at e₂
    obtain ⟨_, _, e₃, e₄⟩ := bind_eq_ok.mp e₂
    cases e₃
    have hname : Stable R (do
        let n ← noted .defineValue
        expect '='
        pure (some n)) :=
      (stable_noted L _).bind fun _ => (stable_expect L (by decide)).bind fun _ => Coupled.pure rfl
    obtain ⟨_, r₁, rfl, hr₁, hreads⟩ := hname (by rw [hr]; exact hR') e₄
    exact ⟨o, r₁, rfl, hr₁, reads_next?.bind (reads_advance.bind hreads)⟩
  · rw [if_neg hc] at e₂
    cases e₂
    have hs : s.head? ≠ some '%' := mt (L.head?_eq_some_iff hR (by decide)).mp hc
    exact ⟨none, s, rfl, hR, reads_next?.bind (by rw [if_neg hs]; exact .pure)⟩

theorem stable_action : Stable R action :=
  (stable_keyword L).bind fun _ =>
    Coupled.ite (fun _ => stable_call L) fun _ => stable_operation L _

/-- An instruction is read alike with all of its attachments, up to the end of its line. -/
theorem stable_instruction : Stable R instruction :=
  (stable_result? L).bind fun _ => (stable_action L).bind fun _ =>
    (stable_many (stable_behind L (stable_attachment L) (by decide))).bind fun _ => Coupled.pure rfl

end Instructions

/-! ## Blocks -/

/-- At the end of the text nothing is left to read. -/
theorem rest_eq_nil {x : Scan α} (hx : Shrinks (fun _ => 0) x) {c c' : Cursor} {a : α}
    (e : x c = .ok a c') (hc : c.rest = []) : c'.rest = [] := by
  have hlength := hx _ _ _ e
  rw [hc] at hlength
  exact List.length_eq_zero_iff.mp (Nat.le_zero.mp hlength)

/-- What `Coupled` says, but for runs of `x` to the end of the text. -/
def CoupledInside (R : List Char → List Char → Prop) (V : α → β → Prop) (x : Scan α)
    (y : Scan β) : Prop :=
  ∀ ⦃c s a c'⦄, R c.rest s → x c = .ok a c' →
    c'.rest = [] ∨ ∃ b r, V a b ∧ R c'.rest r ∧ Reads y s b r

section Rules

variable {V : α → β → Prop} {W : γ → δ → Prop} {x : Scan α} {y : Scan β} {f : α → Scan γ}
  {g : β → Scan δ}

/-- Behind a scan that couples there may be one that does so only inside of a text. -/
theorem Coupled.bindInside (hx : Coupled R V x y)
    (hf : ∀ a b, V a b → CoupledInside R W (f a) (g b)) :
    CoupledInside R W (x >>= f) (y >>= g) := by
  intro c s a c' hR e
  obtain ⟨a₁, c₁, e₁, e₂⟩ := bind_eq_ok.mp e
  obtain ⟨b₁, r₁, hV, hR₁, hy⟩ := hx hR e₁
  rcases hf a₁ b₁ hV hR₁ e₂ with hnil | ⟨b, r, hW, hR₂, hg⟩
  · exact .inl hnil
  · exact .inr ⟨b, r, hW, hR₂, hy.bind hg⟩

/-- If the first scan has come to the end of the text, so does the second, and nothing is said. -/
theorem CoupledInside.bind (hx : CoupledInside R V x y)
    (hf : ∀ a b, V a b → CoupledInside R W (f a) (g b)) (hs : ∀ a, Shrinks (fun _ => 0) (f a)) :
    CoupledInside R W (x >>= f) (y >>= g) := by
  intro c s a c' hR e
  obtain ⟨a₁, c₁, e₁, e₂⟩ := bind_eq_ok.mp e
  rcases hx hR e₁ with hnil | ⟨b₁, r₁, hV, hR₁, hy⟩
  · exact .inl (rest_eq_nil (hs a₁) e₂ hnil)
  · rcases hf a₁ b₁ hV hR₁ e₂ with hnil | ⟨b, r, hW, hR₂, hg⟩
    · exact .inl hnil
    · exact .inr ⟨b, r, hW, hR₂, hy.bind hg⟩

theorem Coupled.inside (hx : Coupled R V x y) : CoupledInside R V x y :=
  fun _ _ _ _ hR e => .inr (hx hR e)

end Rules

/-- By induction on the items: when one item has come to the end of the text, so do those behind
it. -/
theorem inside_many {item : Scan (Option α)} {h : Shrinks perItem item}
    (hi : CoupledInside R Eq item item) : CoupledInside R Eq (many item h) (many item h) := by
  intro c s as c' hR e
  have hitem : ∀ ⦃c s o c'⦄, R c.rest s → item c = .ok o c' →
      c'.rest = [] ∨ ∃ r, R c'.rest r ∧ Reads item s o r := fun c s o c' hR e => by
    rcases hi hR e with hnil | ⟨_, r, rfl, hr, hreads⟩
    · exact .inl hnil
    · exact .inr ⟨r, hr, hreads⟩
  rcases many_like hitem hR e with hnil | ⟨_, d, as', hnil, hmany⟩ | ⟨r, hr, hreads⟩
  · exact .inl hnil
  · exact .inl (rest_eq_nil (shrinks_many h) hmany hnil)
  · exact .inr ⟨as, r, rfl, hr, hreads⟩

/-- No body ends without its brace. -/
theorem blocks_nil (function : String) (t : List Occurrence) (bs : List Block) (c : Cursor) :
    many (bodyItem function) (shrinks_bodyItem function) ⟨[], t⟩ ≠ .ok bs c := by
  have hitem : ∀ o c', bodyItem function ⟨[], t⟩ ≠ .ok o c' := fun o c' e => by cases e
  intro e
  rw [many] at e
  split at e
  case h_1 => cases e
  case h_2 e' => exact hitem _ _ e'
  case h_3 e' => exact hitem _ _ e'

section Blocks

include L

/-- A label is told by the characters up to its colon, and these are no blanks. -/
theorem startsWithLabel_iff {s s' : List Char} (h : R s s') :
    startsWithLabel s ↔ startsWithLabel s' := by
  obtain ⟨htake, hdrop⟩ := L.span (fun _ => isPlain_of_isNameChar) h
  simp [startsWithLabel, htake, L.head?_eq_some_iff hdrop (c := ':') (by decide)]

/-- An instruction ends with its line.  A label or a brace is left where it stands. -/
theorem inside_blockItem : CoupledInside R Eq blockItem blockItem := by
  intro c s o c' hR e
  obtain ⟨_, _, e₁, e₂⟩ := bind_eq_ok.mp e
  cases e₁
  have hitem : Stable R (do
      let rest ← place
      if rest = [] ∨ rest.head? = some '\x7d' ∨ startsWithLabel rest then pure none
      else
        let i ← instruction
        expectLineEnd
        pure (some i)) := by
    refine coupled_place.bind fun rest rest' h => Coupled.ite_iff ?_ (fun _ => Coupled.pure rfl)
      fun _ => (stable_instruction L).bind fun _ => (stable_expectLineEnd L).bind fun _ =>
        Coupled.pure rfl
    exact or_congr (L.eq_nil_iff h).symm
      (or_congr (L.head?_eq_some_iff h (by decide)).symm (startsWithLabel_iff L h))
  rcases L.across hR with hR | ⟨hnil, -⟩
  · obtain ⟨_, r, rfl, hr, hreads⟩ := hitem hR e₂
    exact .inr ⟨o, r, rfl, hr, (reads_blanks true).bind hreads⟩
  · rw [hnil] at e₂
    cases e₂
    exact .inl rfl

/-- A block may end where the text ends, so it is coupled inside only. -/
theorem inside_block : CoupledInside R Eq block block := by
  refine coupled_place.bindInside fun _ _ _ => (stable_name L).bindInside ?_
  rintro label _ rfl
  refine (stable_expect L (by decide)).bindInside fun _ _ _ => (coupled_note _ _ _).bindInside
    fun _ _ _ => (stable_expectLineEnd L).bindInside fun _ _ _ =>
      (inside_many (inside_blockItem L)).bind ?_ fun _ => Shrinks.pure rfl
  rintro instructions _ rfl
  exact (Coupled.pure rfl).inside

/-- A block that reaches the end of the text is not the last item of its body. -/
theorem bodyItem_cases {function : String} {c c' : Cursor} {s : List Char} {o : Option Block}
    (hR : R c.rest s) (e : bodyItem function c = .ok o c') :
    o ≠ none ∧ c'.rest = [] ∨ ∃ r, R c'.rest r ∧ Reads (bodyItem function) s o r := by
  obtain ⟨closed, c₁, e₁, e₂⟩ := bind_eq_ok.mp e
  obtain ⟨_, r₁, rfl, hr₁, hclosed⟩ := stable_tryChar L (by decide) hR e₁
  cases closed with
  | true =>
      cases e₂
      exact .inr ⟨r₁, hr₁, hclosed.bind .pure⟩
  | false =>
      obtain ⟨_, _, e₃, e₄⟩ := bind_eq_ok.mp e₂
      cases e₃
      by_cases hrest : c₁.rest = []
      · rw [if_pos hrest] at e₄
        cases e₄
      rw [if_neg hrest] at e₄
      obtain ⟨b, c₂, e₅, e₆⟩ := bind_eq_ok.mp e₄
      cases e₆
      rcases inside_block L hr₁ e₅ with hnil | ⟨_, r₂, rfl, hr₂, hblock⟩
      · exact .inl ⟨nofun, by rw [hnil]; rfl⟩
      · rcases L.across hr₂ with hr | ⟨hnil, -⟩
        · refine .inr ⟨_, hr, hclosed.bind (reads_place.bind ?_)⟩
          rw [if_neg (mt (L.eq_nil_iff hr₁).mp hrest)]
          exact hblock.bind ((reads_blanks true).bind .pure)
        · exact .inl ⟨nofun, hnil⟩

/-- The items of a body go on up to its brace.  A text that ends before it has no body, so the
blocks of a body do not come to the end of the text. -/
theorem stable_blocks (function : String) :
    Stable R (many (bodyItem function) (shrinks_bodyItem function)) := by
  intro c s bs c' hR e
  rcases many_like (fun _ _ _ _ => bodyItem_cases L) hR e with
    ⟨hsome, -⟩ | ⟨_, ⟨rest, trace⟩, bs', ⟨-, rfl⟩, hmany⟩ | ⟨r, hr, hreads⟩
  · exact absurd rfl hsome
  · exact absurd hmany (blocks_nil function trace bs' c')
  · exact ⟨bs, r, rfl, hr, hreads⟩

/-- A body is closed by a brace, so it is read alike to its end. -/
theorem stable_body (function : String) : Stable R (body function) := by
  refine (stable_expect L (by decide)).bind fun _ => ?_
  intro c s blocks c' hR e
  obtain ⟨_, _, e₁, e₂⟩ := bind_eq_ok.mp e
  cases e₁
  rcases L.across hR with hR | ⟨hnil, -⟩
  · have hblocks : Stable R (do
        let blocks ← many (bodyItem function) (shrinks_bodyItem function)
        note .endBody (← place)
        pure blocks) :=
      (stable_blocks L function).bind fun _ => coupled_place.bind fun _ _ _ =>
        (coupled_note _ _ _).bind fun _ _ _ => Coupled.pure rfl
    obtain ⟨_, r, rfl, hr, hreads⟩ := hblocks hR e₂
    exact ⟨blocks, r, rfl, hr, (reads_blanks true).bind hreads⟩
  · obtain ⟨as, c₁, e₃, -⟩ := bind_eq_ok.mp e₂
    rw [hnil] at e₃
    exact absurd e₃ (blocks_nil function _ as c₁)

end Blocks

/-! ## Initializers -/

section Initializers

include L

/-- A piece is told by its first character or by a word. -/
theorem stable_piece : Stable R piece := by
  refine (stable_tryChar L (by decide)).bind fun _ =>
    Coupled.ite (fun _ => (stable_noted L _).map _) fun _ =>
      (stable_tryChar L (by decide)).bind fun _ => Coupled.ite (fun _ => ?_) fun _ =>
        (stable_peek? L).bind fun _ => Coupled.ite (fun _ => (stable_string L).map _) fun _ => ?_
  · exact (stable_tryChar L (by decide)).bind fun _ =>
      Coupled.ite (fun _ => Coupled.pure rfl) fun _ => Coupled.pure rfl
  · refine coupled_place.bind fun _ _ _ => (stable_keyword L).then fun word =>
      Coupled.ite (fun _ => Coupled.pure rfl) fun _ => ?_
    cases ValueType.ofName? word with
    | none => exact coupled_failAt _ _
    | some type => exact (stable_literal L type).map _

theorem stable_separator : Stable R separator :=
  (stable_tryChar L (by decide)).bind fun _ => Coupled.ite (fun _ => Coupled.pure rfl) fun _ =>
    (stable_expect L (by decide)).bind fun _ => Coupled.pure rfl

mutual

/-- An initializer that is read within some arrays is read alike in the like text, by induction on
the text that is left. -/
theorem readWithin_like (outer : List (List Initializer)) {c c' : Cursor} {s : List Char}
    {v : Initializer} (hR : R c.rest s) (e : readWithin outer c = .ok v c') :
    ∃ r, R c'.rest r ∧ Reads (readWithin outer) s v r := by
  rw [readWithin] at e
  split at e
  case h_1 => cases e
  case h_2 d hpiece =>
      have := shrinks_piece _ _ _ hpiece
      obtain ⟨_, r, rfl, hr, hreads⟩ := stable_piece L hR hpiece
      obtain ⟨r', hr', hreads'⟩ := readWithin_like ([] :: outer) hr e
      exact ⟨r', hr', hreads'.of_step fun t => readWithin_of_opening outer t hreads⟩
  case h_3 w d hpiece =>
      have := shrinks_piece _ _ _ hpiece
      obtain ⟨_, r, rfl, hr, hreads⟩ := stable_piece L hR hpiece
      obtain ⟨r', hr', hreads'⟩ := resumeWithin_like outer w hr e
      exact ⟨r', hr', hreads'.of_step fun t => readWithin_of_whole outer t hreads⟩
termination_by c.rest.length

/-- The same of reading on behind a value that is complete. -/
theorem resumeWithin_like (outer : List (List Initializer)) (w : Initializer) {c c' : Cursor}
    {s : List Char} {v : Initializer} (hR : R c.rest s) (e : resumeWithin outer w c = .ok v c') :
    ∃ r, R c'.rest r ∧ Reads (resumeWithin outer w) s v r := by
  cases outer with
  | nil =>
      rw [resumeWithin] at e
      cases e
      refine ⟨s, hR, fun t => ⟨t, ?_⟩⟩
      rw [resumeWithin]
  | cons elements outer =>
      rw [resumeWithin] at e
      split at e
      case h_1 => cases e
      case h_2 d hseparator =>
          have := shrinks_separator _ _ _ hseparator
          obtain ⟨_, r, rfl, hr, hreads⟩ := stable_separator L hR hseparator
          obtain ⟨r', hr', hreads'⟩ := readWithin_like ((w :: elements) :: outer) hr e
          exact ⟨r', hr', hreads'.of_step fun t => resumeWithin_of_comma outer w elements t hreads⟩
      case h_3 d hseparator =>
          have := shrinks_separator _ _ _ hseparator
          obtain ⟨_, r, rfl, hr, hreads⟩ := stable_separator L hR hseparator
          obtain ⟨r', hr', hreads'⟩ := resumeWithin_like outer (.array (w :: elements).reverse) hr e
          exact ⟨r', hr', hreads'.of_step fun t => resumeWithin_of_close outer w elements t hreads⟩
termination_by c.rest.length

end

theorem stable_initializer : Stable R initializer := by
  intro c s v c' hR e
  obtain ⟨r, hr, hreads⟩ := readWithin_like L [] hR e
  exact ⟨v, r, rfl, hr, hreads⟩

end Initializers

end DeviceCode.Assembly.Scan
