import DeviceCode.Proofs.Assembly.Entities
import DeviceCode.Proofs.Assembly.RoundTrip

/-!
# What is read can be written

Every name in a text is made of the characters of names, so the entities that are read from it can
be written down again (`isWritable_of_read`).  A text of a module that can be written holds nothing
else: whatever is read from it is this module (`eq_canonical_of_read`).

`Gives good x` says that the results of the scan `x` are good; it composes along `>>=`.
-/

namespace DeviceCode

open Assembly

namespace Assembly.Scan

variable {α β : Type} {good : α → Prop} {good' : β → Prop}

/-- Successes give good results. -/
def Gives (good : α → Prop) (x : Scan α) : Prop := ∀ c a c', x c = .ok a c' → good a

/-! ## Rules -/

theorem Gives.pure {a : α} (h : good a) : Gives good (pure a : Scan α) := by
  intro c b c' e
  cases e
  exact h

/-- What is good of the result of the first scan may be used for the second one. -/
theorem Gives.bind {x : Scan α} {f : α → Scan β} (hx : Gives good x)
    (hf : ∀ a, good a → Gives good' (f a)) : Gives good' (x >>= f) := by
  intro c b c'' e
  obtain ⟨a, c', h₁, h₂⟩ := bind_eq_ok.mp e
  exact hf a (hx c a c' h₁) c' b c'' h₂

/-- What a scan in front gives may not matter. -/
theorem Gives.then {x : Scan α} {f : α → Scan β} (hf : ∀ a, Gives good' (f a)) :
    Gives good' (x >>= f) := by
  intro c b c'' e
  obtain ⟨a, c', _, h₂⟩ := bind_eq_ok.mp e
  exact hf a c' b c'' h₂

theorem Gives.map {x : Scan α} {g : α → β} (hx : Gives good x) (h : ∀ a, good a → good' (g a)) :
    Gives good' (g <$> x) := by
  rw [map_eq_pure_bind]
  exact hx.bind fun a ha => .pure (h a ha)

theorem Gives.and {good₂ : α → Prop} {x : Scan α} (h : Gives good x) (h₂ : Gives good₂ x) :
    Gives (fun a => good a ∧ good₂ a) x :=
  fun c a c' e => ⟨h c a c' e, h₂ c a c' e⟩

theorem Gives.mono {good₂ : α → Prop} {x : Scan α} (hx : Gives good x)
    (h : ∀ a, good a → good₂ a) : Gives good₂ x :=
  fun c a c' e => h a (hx c a c' e)

theorem Gives.any (x : Scan α) : Gives (fun _ => True) x := fun _ _ _ _ => trivial

theorem gives_fail (cause : Cause) : Gives good (fail cause : Scan α) := by
  intro c a c' e
  cases e

theorem gives_failAt (p : Place) (cause : Cause) : Gives good (failAt p cause : Scan α) := by
  intro c a c' e
  cases e

/-- What a scan tells of its results. -/
theorem Tells.gives {acts : α → List Act} {x : Scan α} (h : Tells acts good x) : Gives good x := by
  intro c a c' e
  obtain ⟨_, _, _, ha⟩ := h c a c' e
  exact ha

section Lists

variable {x : Scan α}

/-- The items of a list are good if each item is. -/
theorem gives_many {item : Scan (Option α)} {h : Shrinks perItem item}
    (hi : Gives (fun o => ∀ a ∈ o, good a) item) :
    Gives (fun as => ∀ a ∈ as, good a) (many item h : Scan (List α)) := by
  intro c
  fun_induction many item h c with
  | case1 => intro _ _ e'; cases e'
  | case2 c c' e =>
      intro _ _ e'
      cases e'
      exact List.forall_mem_nil _
  | case3 => intro _ _ e''; cases e''
  | case4 c a c' e as c'' e' ih =>
      intro _ _ e''
      cases e''
      exact List.forall_mem_cons.mpr ⟨hi _ _ _ e a rfl, ih _ _ e'⟩

theorem Gives.some (h : Gives good x) : Gives (fun o => ∀ a ∈ o, good a) (some <$> x) := by
  refine h.map fun a ha => ?_
  rintro b ⟨⟩
  exact ha

theorem gives_none : Gives (fun o => ∀ a ∈ o, good a) (pure none : Scan (Option α)) :=
  .pure nofun

/-- An item behind a character is as good as the item. -/
theorem gives_behind (ch : Char) (h : Gives good x) :
    Gives (fun o => ∀ a ∈ o, good a) (behind ch x) := by
  refine .then fun b => ?_
  cases b with
  | false => exact gives_none
  | true => exact h.some

theorem gives_commaList (hs : Shrinks (fun _ => 0) x) (h : Gives good x) :
    Gives (fun as => ∀ a ∈ as, good a) (commaList x hs) := by
  refine h.bind fun a ha => (gives_many (gives_behind ',' h)).bind fun as has => ?_
  exact .pure (List.forall_mem_cons.mpr ⟨ha, has⟩)

theorem gives_listUntil (close : Char) (hs : Shrinks (fun _ => 0) x) (h : Gives good x) :
    Gives (fun as => ∀ a ∈ as, good a) (listUntil close x hs) := by
  refine .then fun b => ?_
  cases b with
  | true => exact .pure nofun
  | false => exact (gives_commaList hs h).bind fun as has => .then fun _ => .pure has

end Lists

/-! ## Words -/

/-- What is read as a name is a word. -/
theorem gives_name : Gives IsIdentifier name := fun _ _ _ e => (name_eq_ok e).1

theorem gives_noted (act : String → Act) : Gives IsIdentifier (noted act) :=
  .then fun _ => gives_name.bind fun _ hn => .then fun _ => .pure hn

/-- A keyword is a name, and begins with the character that was seen in front of it. -/
theorem gives_keyword : Gives IsKeyword keyword := by
  intro c w c' e
  obtain ⟨o, c₁, h₁, h₂⟩ := bind_eq_ok.mp e
  obtain ⟨_, ho⟩ := peek?_eq_ok h₁
  cases o with
  | none => cases h₂
  | some ch =>
      dsimp only at h₂
      split at h₂
      case isFalse => cases h₂
      case isTrue hstart =>
        refine ⟨gives_name _ _ _ h₂, fun first hfirst => ?_⟩
        rw [(name_eq_ok h₂).2, List.head?_takeWhile, ← ho] at hfirst
        obtain ⟨hfirst, _⟩ := Option.filter_eq_some_iff.mp hfirst
        rwa [← Option.some.inj hfirst]

/-! ## Instructions -/

/-- An operand that was read can be written: its name is a word, or its literal fits its type. -/
theorem gives_operand : Gives Operand.IsWritable operand := by
  refine .then fun b => ?_
  cases b with
  | true => exact (gives_noted _).map fun n hn => hn
  | false =>
    refine .then fun b => ?_
    cases b with
    | true => exact (gives_noted _).map fun n hn => hn
    | false =>
      refine .then fun b => ?_
      cases b with
      | true => exact (gives_noted _).map fun n hn => hn
      | false =>
        refine .then fun c => ?_
        split
        · exact (Gives.any _).map fun _ _ => trivial
        · exact (Gives.any _).map fun _ _ => trivial
        · exact .then fun type => (tells_literal type).gives.map fun l hl => hl
        · exact gives_fail _

theorem gives_callee : Gives Callee.IsWritable callee := by
  refine .then fun b => ?_
  cases b with
  | true => exact (gives_noted _).map fun n hn => hn
  | false =>
    refine .then fun b => ?_
    cases b with
    | true => exact (gives_noted _).map fun n hn => hn
    | false => exact .then fun _ => gives_fail _

/-- A call that was read can be written, with all its arguments. -/
theorem gives_call : Gives Action.IsWritable call :=
  .then fun _ => gives_callee.bind fun _ hcallee => .then fun _ =>
    (gives_listUntil ')' _ gives_operand).bind fun _ hoperands => .pure ⟨hcallee, hoperands⟩

/-- Behind the opcode of an operation there is no exclamation mark, so it does not begin with a
reference to a debug record. -/
theorem gives_operation {opcode : String} (hopcode : IsKeyword opcode) (hne : opcode ≠ "call") :
    Gives Action.IsWritable (operation opcode) := by
  have hoperands : Gives (fun a => ∃ operands, a = Action.operation opcode operands ∧
      ∀ o ∈ operands, o.IsWritable) (operation opcode) := by
    refine .then fun _ => .then fun _ => ?_
    split
    · exact .pure ⟨[], rfl, List.forall_mem_nil _⟩
    · exact (gives_commaList _ gives_operand).map fun operands h => ⟨operands, rfl, h⟩
  refine (hoperands.and (tells_operation opcode hne).gives).mono ?_
  rintro _ ⟨⟨operands, rfl, h⟩, hw⟩
  refine ⟨hopcode, hne, ?_, h⟩
  rintro id rest rfl
  exact hw.firstOperand opcode id rest rfl

/-- The opcode tells calls from other operations. -/
theorem gives_action : Gives Action.IsWritable action := by
  refine gives_keyword.bind fun opcode hopcode => ?_
  split
  case isTrue => exact gives_call
  case isFalse hne => exact gives_operation hopcode hne

theorem gives_attachment : Gives Attachment.IsWritable attachment :=
  gives_keyword.bind fun _ hkind => gives_operand.bind fun _ hvalue => .pure ⟨hkind, hvalue⟩

theorem gives_result? : Gives (fun r => ∀ n ∈ r, IsIdentifier n) result? := by
  refine .then fun c => ?_
  split
  · refine .then fun _ => (gives_noted _).bind fun n hn => .then fun _ => .pure ?_
    rintro _ ⟨⟩
    exact hn
  · exact .pure nofun

/-- An instruction that was read can be written, with its result and its attachments. -/
theorem gives_instruction : Gives Instruction.IsWritable instruction :=
  gives_result?.bind fun _ hresult => gives_action.bind fun _ haction =>
    (gives_many (gives_behind '!' gives_attachment)).bind fun _ hattachments =>
      .pure ⟨hresult, haction, hattachments⟩

theorem gives_blockItem : Gives (fun o => ∀ i ∈ o, i.IsWritable) blockItem := by
  refine .then fun _ => .then fun _ => ?_
  split
  · exact gives_none
  · refine gives_instruction.bind fun i hi => .then fun _ => .pure ?_
    rintro _ ⟨⟩
    exact hi

theorem gives_block : Gives Block.IsWritable block :=
  .then fun _ => gives_name.bind fun _ hlabel => .then fun _ => .then fun _ => .then fun _ =>
    (gives_many gives_blockItem).bind fun _ hinstructions => .pure ⟨hlabel, hinstructions⟩

/-! ## Initializers -/

/-- All elements of an array can be written if each can. -/
theorem allWritable_iff {es : List Initializer} :
    Initializer.AllWritable es ↔ ∀ e ∈ es, e.IsWritable := by
  induction es with
  | nil => exact iff_of_true trivial nofun
  | cons e es ih => rw [Initializer.AllWritable, ih, List.forall_mem_cons]

theorem gives_piece :
    Gives (fun p => ∀ v, p = .whole v → v.IsWritable) piece := by
  refine .then fun b => ?_
  cases b with
  | true =>
    refine (gives_noted _).map ?_
    rintro n hn _ ⟨⟩
    exact hn
  | false =>
    refine .then fun b => ?_
    cases b with
    | true =>
      refine .then fun b => ?_
      cases b with
      | true =>
        refine .pure ?_
        rintro _ ⟨⟩
        exact allWritable_iff.mpr nofun
      | false => exact .pure nofun
    | false =>
      refine .then fun c => ?_
      split
      · refine (Gives.any _).map ?_
        rintro s - _ ⟨⟩
        trivial
      · refine .then fun _ => .then fun word => ?_
        split
        · refine .pure ?_
          rintro _ ⟨⟩
          trivial
        · split
          · refine (tells_literal _).gives.map ?_
            rintro l hl _ ⟨⟩
            exact hl
          · exact gives_failAt _ _

mutual

/-- What is read within arrays of such elements can be written; by induction on the text that is
left. -/
theorem isWritable_readWithin {outer : List (List Initializer)} {c c' : Cursor} {v : Initializer}
    (houter : ∀ es ∈ outer, ∀ e ∈ es, e.IsWritable) (h : readWithin outer c = .ok v c') :
    v.IsWritable := by
  rw [readWithin] at h
  split at h
  · cases h
  · rename_i d e
    have := shrinks_piece _ _ _ e
    exact isWritable_readWithin (List.forall_mem_cons.mpr ⟨List.forall_mem_nil _, houter⟩) h
  · rename_i w d e
    have := shrinks_piece _ _ _ e
    exact isWritable_resumeWithin houter (gives_piece _ _ _ e w rfl) h
termination_by c.rest.length

theorem isWritable_resumeWithin {outer : List (List Initializer)} {value v : Initializer}
    {c c' : Cursor} (houter : ∀ es ∈ outer, ∀ e ∈ es, e.IsWritable) (hvalue : value.IsWritable)
    (h : resumeWithin outer value c = .ok v c') : v.IsWritable := by
  cases outer with
  | nil =>
    rw [resumeWithin] at h
    cases h
    exact hvalue
  | cons elements outer =>
    obtain ⟨helements, houter⟩ := List.forall_mem_cons.mp houter
    have hcons := List.forall_mem_cons.mpr ⟨hvalue, helements⟩
    rw [resumeWithin] at h
    split at h
    · cases h
    · rename_i d e
      have := shrinks_separator _ _ _ e
      exact isWritable_readWithin (List.forall_mem_cons.mpr ⟨hcons, houter⟩) h
    · rename_i d e
      have := shrinks_separator _ _ _ e
      have harray : Initializer.IsWritable (.array (value :: elements).reverse) :=
        allWritable_iff.mpr fun i hi => hcons i (List.mem_reverse.mp hi)
      exact isWritable_resumeWithin houter harray h
termination_by c.rest.length

end

theorem gives_initializer : Gives Initializer.IsWritable initializer :=
  fun _ _ _ h => isWritable_readWithin (List.forall_mem_nil _) h

/-! ## Entities -/

theorem gives_initializer? (name : String) (start : Place) (linkage : Linkage) :
    Gives (fun o => ∀ init ∈ o, init.IsWritable) (initializer? name start linkage) := by
  refine .then fun b => ?_
  split
  · split
    · exact gives_none
    · exact gives_failAt _ _
  · exact gives_initializer.some

/-- A variable that was read can be written; without an initializer it is external. -/
theorem gives_global : Gives GlobalVariable.IsWritable global := by
  have hnames : Gives (fun g => IsIdentifier g.name ∧ ∀ init ∈ g.initializer, init.IsWritable)
      global :=
    .then fun _ => .then fun _ => (gives_noted _).bind fun _ hname => .then fun _ => .then fun _ =>
      .then fun _ => (gives_initializer? _ _ _).bind fun _ hinit => .pure ⟨hname, hinit⟩
  exact (hnames.and tells_global.gives).mono fun g ⟨⟨hname, hinit⟩, hw⟩ =>
    ⟨hname, hinit, hw.declaration⟩

theorem gives_parameter : Gives IsIdentifier parameter := .then fun _ => gives_noted _

theorem gives_header (linkage : Linkage) (cc : CallingConvention) (type : ValueType) :
    Gives (fun f => IsIdentifier f.name ∧ ∀ n ∈ f.parameters, IsIdentifier n)
      (header linkage cc type) :=
  .then fun _ => (gives_noted _).bind fun _ hname => .then fun _ => .then fun _ => .then fun _ =>
    (gives_listUntil ')' _ gives_parameter).bind fun _ hparameters => .then fun _ =>
      .pure ⟨hname, hparameters⟩

theorem gives_signature (isDefinition : Bool) :
    Gives (fun f => IsIdentifier f.name ∧ ∀ n ∈ f.parameters, IsIdentifier n)
      (signature isDefinition) := by
  refine .then fun l => .then fun c => ?_
  obtain ⟨cc, typeName, start⟩ := c
  dsimp only
  split
  · exact gives_failAt _ _
  · exact gives_header _ _ _

theorem gives_bodyItem (function : String) :
    Gives (fun o => ∀ b ∈ o, b.IsWritable) (bodyItem function) := by
  refine .then fun b => ?_
  cases b with
  | true => exact gives_none
  | false =>
    refine .then fun rest => ?_
    split
    · exact gives_fail _
    · refine gives_block.bind fun b hb => .then fun _ => .pure ?_
      rintro _ ⟨⟩
      exact hb

theorem gives_body (function : String) : Gives (fun bs => ∀ b ∈ bs, b.IsWritable) (body function) :=
  .then fun _ => .then fun _ => (gives_many (gives_bodyItem function)).bind fun _ hblocks =>
    .then fun _ => .then fun _ => .pure hblocks

/-- A function that was read can be written; without a body it is external, and has no debug
record. -/
theorem gives_function (isDefinition : Bool) :
    Gives Function.IsWritable (function isDefinition) := by
  have hnames : Gives (fun f => IsIdentifier f.name ∧ (∀ n ∈ f.parameters, IsIdentifier n) ∧
      ∀ b ∈ f.blocks, b.IsWritable) (function isDefinition) := by
    refine ((gives_signature isDefinition).and (tells_signature isDefinition).gives).bind ?_
    rintro f ⟨⟨hname, hparameters⟩, _, _, hbody⟩
    split
    · exact .then fun _ => (gives_body f.name).bind fun _ hblocks =>
        .pure ⟨hname, hparameters, hblocks⟩
    · refine .pure ⟨hname, hparameters, ?_⟩
      rw [Function.blocks, hbody]
      exact List.forall_mem_nil _
  refine (hnames.and (tells_function isDefinition).gives).mono ?_
  rintro f ⟨⟨hname, hparameters, hblocks⟩, hs⟩
  exact ⟨hname, hparameters, hblocks, hs.declaration⟩

theorem gives_worded : Gives Entity.IsWritable worded := by
  refine .then fun w => ?_
  obtain ⟨w, start⟩ := w
  dsimp only
  split
  · exact (gives_function true).map fun f hf => hf
  · split
    · exact (gives_function false).map fun f hf => hf
    · split
      · exact .then fun _ => (Gives.any _).map fun _ _ => trivial
      · exact gives_failAt _ _

theorem gives_entity : Gives Entity.IsWritable entity := by
  refine .then fun c => ?_
  split
  · exact gives_global.map fun g hg => hg
  · split
    · exact (Gives.any _).map fun _ _ => trivial
    · exact gives_worded

theorem gives_entityItem : Gives (fun o => ∀ e ∈ o, e.IsWritable) entityItem := by
  refine .then fun rest => ?_
  split
  · exact gives_none
  · refine gives_entity.bind fun e he => .then fun _ => .then fun _ => .pure ?_
    rintro _ ⟨⟩
    exact he

theorem gives_entities : Gives (fun es => ∀ e ∈ es, e.IsWritable) entities :=
  .then fun _ => gives_many gives_entityItem

end Assembly.Scan

/-! ## Modules -/

namespace Module

variable {m q : Module}

/-- A module that was read can be written. -/
theorem isWritable_of_read {text : String} (h : Module.read text = .ok m) : m.IsWritable := by
  obtain ⟨es, c, -, e, -, -, rfl⟩ := readChars_eq_ok_iff.mp (Except.mapError_eq_ok.mp h)
  have hes := Scan.gives_entities _ _ _ e
  constructor
  case globals =>
    intro g hg
    obtain ⟨e, he, hg⟩ := List.mem_filterMap.mp hg
    cases e with
    | global g' =>
        cases hg
        exact hes _ he
    | sourceName | function | debugRecord => cases hg
  case functions =>
    intro f hf
    obtain ⟨e, he, hf⟩ := List.mem_filterMap.mp hf
    cases e with
    | function f' =>
        cases hf
        exact hes _ he
    | sourceName | global | debugRecord => cases hf

/-- Nothing is read from the text of a module that can be written but this module. -/
theorem eq_canonical_of_read (hm : m.IsWritable) (h : Module.read m.text = .ok q) :
    q = m.canonical := by
  obtain ⟨t, ht⟩ := Scan.reads_entities hm.groups []
  have hscan : Scan.entities ⟨m.text.toList, []⟩ =
      .ok (m.groups.flatten.map Entity.canonical) ⟨[], t⟩ := by
    rw [text, paragraphs_eq]
    exact ht
  obtain ⟨es, c, -, e, -, -, rfl⟩ := readChars_eq_ok_iff.mp (Except.mapError_eq_ok.mp h)
  obtain ⟨rfl, -⟩ := EStateM.Result.ok.inj (hscan.symm.trans e)
  rw [ofEntities_canonical, ofEntities_groups]

/-- A group is a paragraph, so it is not empty. -/
theorem ne_nil_of_mem_groups {es : List Entity} (h : es ∈ m.groups) : es ≠ [] := by
  simp only [Module.groups, List.mem_append, List.mem_map] at h
  rcases h with ((⟨_, -, rfl⟩ | h) | ⟨_, -, rfl⟩) | h
  · exact List.cons_ne_nil _ _
  · split at h
    case isTrue => cases h
    case isFalse hne =>
      rw [List.mem_singleton.mp h]
      simpa using hne
  · exact List.cons_ne_nil _ _
  · split at h
    case isTrue => cases h
    case isFalse hne =>
      rw [List.mem_singleton.mp h]
      simpa using hne

/-- The text of a module begins with one of its entities. -/
theorem head?_text (m : Module) : ∀ c ∈ m.text.toList.head?, c ∈ Scan.entityStarts := by
  rw [text, paragraphs_eq]
  cases hg : m.groups with
  | nil =>
      intro _ hc
      cases hc
  | cons es groups =>
      obtain ⟨e, es, rfl⟩ := List.exists_cons_of_ne_nil
        (ne_nil_of_mem_groups (hg ▸ List.mem_cons_self : es ∈ m.groups))
      obtain ⟨c, cs, hc, hstart, -⟩ := Scan.exists_entity_cons e
      rw [List.map_cons, Scan.toList_intercalate_cons, Scan.toList_lines, Scan.linesText,
        List.flatMap_cons, hc]
      rintro _ ⟨⟩
      exact hstart

end Module

end DeviceCode
