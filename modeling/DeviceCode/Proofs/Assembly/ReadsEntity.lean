import DeviceCode.Proofs.Assembly.ReadsInitializer

/-!
# Reading entities

A global variable or debug record takes a line, a function many.  Each is read from its written form
in front of the end of its line, and a text of such entities, in paragraphs with blank lines between
them, is read as all of them (`reads_entities`).
-/

namespace DeviceCode

open Assembly

open Text (quoted)

/-! ## What can be written -/

/-- A variable can be written if its name is a word and its initializer can be written; as a
declaration it is external. -/
structure GlobalVariable.IsWritable (g : GlobalVariable) : Prop where
  name : IsIdentifier g.name
  initializer : ∀ init ∈ g.initializer, init.IsWritable
  declaration : g.initializer = none → g.linkage = .external

/-- A function can be written if its names are words and its blocks can be written; a declaration
has no linkage or debug record to write. -/
structure Function.IsWritable (f : Function) : Prop where
  name : IsIdentifier f.name
  parameters : ∀ n ∈ f.parameters, IsIdentifier n
  blocks : ∀ b ∈ f.blocks, b.IsWritable
  declaration : f.body = none → f.linkage = .external ∧ f.debug = none

namespace Entity

/-- The source name and debug records have nothing but strings and numbers, which can always be
written. -/
def IsWritable : Entity → Prop
  | sourceName _ | debugRecord _ => True
  | global g => g.IsWritable
  | function f => f.IsWritable

/-- An entity without the payloads of its NaNs. -/
def canonical : Entity → Entity
  | global g => global g.canonical
  | function f => function f.canonical
  | sourceName name => sourceName name
  | debugRecord r => debugRecord r

def text : Entity → String
  | sourceName name => "source_filename = " ++ quoted name
  | global g => g.text
  | function f => f.text
  | debugRecord r => r.text

theorem text_sourceName (name : String) :
    (sourceName name).text = "source_filename = " ++ quoted name := rfl

end Entity

namespace Assembly.Scan

variable {α β : Type} {s r : List Char}

/-! ## Words -/

theorem reads_word {w : String} (hw : IsKeyword w) (hr : EndsWord r) (hs : skip s = w.toList ++ r) :
    Reads word s (w, s) r :=
  reads_place.bind ((reads_keyword hw hr hs).bind .pure)

/-- Of two words with a blank between them, the second one is read behind the first. -/
theorem reads_second_word {w : String} (hw : IsKeyword w) (hr : EndsWord r) :
    Reads word (' ' :: (w.toList ++ r)) (w, ' ' :: (w.toList ++ r)) r :=
  reads_word hw hr (by rw [skip_space]; exact hw.skip_append r)

/-- Linkages are written as keywords. -/
theorem isKeyword_linkage (l : Linkage) : IsKeyword l.keyword := by
  cases l <;> decide

theorem linkage_text_of_ne {l : Linkage} (h : l ≠ .external) : l.text = l.keyword ++ " " := by
  cases l with
  | external => exact absurd rfl h
  | internal | modulePrivate | linkOnceODR | weakODR => rfl

theorem isKeyword_convention (c : CallingConvention) : IsKeyword c.keyword := by
  cases c <;> decide

/-! ## Global variables -/

section Globals

/-- How the kind of a variable is written. -/
def kindText (isConstant : Bool) : String := if isConstant then "constant" else "global"

theorem isKeyword_kindText (isConstant : Bool) : IsKeyword (kindText isConstant) := by
  cases isConstant <;> decide

theorem reads_variableKind (isConstant : Bool) :
    Reads (variableKind (kindText isConstant)) s isConstant s := by
  cases isConstant with
  | false => exact .pure
  | true => exact .pure

/-- A linkage is read if the first word is one, and the kind of the variable follows. -/
theorem reads_variableLinkage?_some {l : Linkage} {w : String} (hw : IsKeyword w) (hr : EndsWord r)
    (hs : skip s = l.keyword.toList ++ ' ' :: (w.toList ++ r)) :
    Reads variableLinkage? s (some l, w, ' ' :: (w.toList ++ r)) r := by
  refine (reads_word (isKeyword_linkage l) endsWord_space hs).bind ?_
  rw [Linkage.ofKeyword?_keyword]
  exact (reads_second_word hw hr).bind .pure

/-- The linkage of a definition, which is not written if it is external. -/
theorem reads_variableLinkage? {l : Linkage} {isConstant : Bool} (hr : EndsWord r)
    (hs : skip s = l.text.toList ++ ((kindText isConstant).toList ++ r)) :
    ∃ o p, Reads variableLinkage? s (o, kindText isConstant, p) r ∧ o.getD .external = l := by
  have hkind := isKeyword_kindText isConstant
  by_cases hl : l = .external
  · subst hl
    refine ⟨none, s, (reads_word hkind hr hs).bind ?_, rfl⟩
    have hnone : Linkage.ofKeyword? (kindText isConstant) = none := by cases isConstant <;> decide
    rw [hnone]
    exact .pure
  · exact ⟨some l, _, reads_variableLinkage?_some hkind hr
      (by rw [hs, linkage_text_of_ne hl]; simp), rfl⟩

/-- Blanks between a linkage and the next word are passed over. -/
theorem skip_linkage_text (l : Linkage) {w : List Char} (hw : StartsToken w) (r : List Char) :
    skip (' ' :: (l.text.toList ++ (w ++ r))) = l.text.toList ++ (w ++ r) := by
  rw [skip_space]
  by_cases hl : l = .external
  · have hempty : l.text.toList = [] := by rw [hl]; rfl
    rw [hempty, List.nil_append]
    exact hw.skip_append r
  · rw [linkage_text_of_ne hl, String.toList_append, List.append_assoc]
    exact (isKeyword_linkage l).skip_append _

/-- Without an initializer the line of a variable ends. -/
theorem reads_initializer?_none (name : String) (start : Place) :
    Reads (initializer? name start .external) ('\n' :: r) none ('\n' :: r) := by
  have hend := reads_isAtLineEnd (s := '\n' :: r)
  rw [skip_newline] at hend
  exact hend.bind .pure

/-- Otherwise its initializer is read up to the end of the line. -/
theorem reads_initializer?_some {init : Initializer} (hi : init.IsWritable) (name : String)
    (start : Place) (l : Linkage) :
    Reads (initializer? name start l) (' ' :: (init.text.toList ++ '\n' :: r))
      (some init.canonical) ('\n' :: r) := by
  have hinit := reads_initializer hi
  have hskip : skip (init.text.toList ++ '\n' :: r) = init.text.toList ++ '\n' :: r :=
    hinit.starts.skip_append _
  have hend := reads_isAtLineEnd (s := ' ' :: (init.text.toList ++ '\n' :: r))
  obtain ⟨c, cs, hc, hplain⟩ := hinit.starts.append ('\n' :: r)
  rw [skip_space, hskip] at hend
  refine hend.bind ?_
  rw [if_neg]
  · exact (hinit.reads endsWord_newline hskip).map
  · rw [hc]
    simpa using hplain.ne_newline

/-- What all variables begin with. -/
theorem reads_globalFront {name : String} (hn : IsIdentifier name) {rest : List Char}
    {v : GlobalVariable} {k : Place → String → Scan GlobalVariable}
    (hk : Reads (k (name.toList ++ ' ' :: '=' :: rest) name) rest v r) :
    Reads (do
      expect '@'
      let start ← place
      let name ← noted .defineSymbol
      expect '='
      k start name) ('@' :: (name.toList ++ ' ' :: '=' :: rest)) v r := by
  refine (reads_expect (skip_of_plain (by decide))).bind (reads_place.bind
    ((reads_noted hn endsWord_space _).bind ((reads_expect ?_).bind hk)))
  rw [skip_space]
  exact skip_of_plain (by decide)

theorem reads_global {g : GlobalVariable} (hg : g.IsWritable) :
    Reads global (g.text.toList ++ '\n' :: r) g.canonical ('\n' :: r) := by
  obtain ⟨name, linkage, isConstant, init⟩ := g
  obtain ⟨hname, hinit, hdecl⟩ := hg
  dsimp only at hname hinit hdecl
  have hkind := isKeyword_kindText isConstant
  cases init with
  | none =>
      obtain rfl := hdecl rfl
      have ht : (GlobalVariable.mk name .external isConstant none).text.toList ++ '\n' :: r =
          '@' :: (name.toList ++ ' ' :: '=' :: ' ' :: (Linkage.external.keyword.toList ++
            ' ' :: ((kindText isConstant).toList ++ '\n' :: r))) := by
        simp [GlobalVariable.text, kindText, Linkage.keyword]
      have hlinkage := reads_variableLinkage?_some (l := .external) hkind
        (endsWord_newline (r := r))
        (s := ' ' :: (Linkage.external.keyword.toList ++ ' ' :: ((kindText isConstant).toList ++
          '\n' :: r)))
        (by rw [skip_space]; exact (isKeyword_linkage .external).skip_append _)
      rw [ht]
      exact reads_globalFront hname (hlinkage.bind ((reads_variableKind isConstant).bind
        ((reads_initializer?_none _ _).bind .pure)))
  | some init =>
      have ht : (GlobalVariable.mk name linkage isConstant (some init)).text.toList ++ '\n' :: r =
          '@' :: (name.toList ++ ' ' :: '=' :: ' ' :: (linkage.text.toList ++
            ((kindText isConstant).toList ++ ' ' :: (init.text.toList ++ '\n' :: r)))) := by
        simp [GlobalVariable.text, kindText]
      obtain ⟨o, p, hlinkage, rfl⟩ := reads_variableLinkage? (l := linkage)
        endsWord_space (skip_linkage_text linkage hkind.exists_cons _)
      rw [ht]
      exact reads_globalFront hname (hlinkage.bind ((reads_variableKind isConstant).bind
        ((reads_initializer?_some (hinit init rfl) _ _ _).bind .pure)))

end Globals

/-! ## Debug records -/

section DebugRecords

def entryText : DebugEntry → String
  | .compileUnit file => "compile_unit " ++ quoted file
  | .subprogram name unit => "subprogram " ++ quoted name ++ " !" ++ unit.toNat.repr

theorem entryText_compileUnit (file : String) :
    entryText (.compileUnit file) = "compile_unit " ++ quoted file := rfl

theorem entryText_subprogram (name : String) (unit : UInt32) :
    entryText (.subprogram name unit) =
      "subprogram " ++ quoted name ++ " !" ++ unit.toNat.repr := rfl

/-- A debug record is written as its number, an equals sign and its entry. -/
theorem toList_debugRecord (d : DebugRecord) :
    d.text.toList =
      '!' :: (d.id.toNat.repr.toList ++ ' ' :: '=' :: ' ' :: (entryText d.entry).toList) := by
  obtain ⟨id, entry⟩ := d
  cases entry <;> simp [DebugRecord.text, entryText_compileUnit, entryText_subprogram]

theorem startsToken_entryText (e : DebugEntry) : StartsToken (entryText e).toList := by
  cases e with
  | compileUnit file => exact ⟨'c', _, by simp [entryText_compileUnit]; rfl, by decide⟩
  | subprogram name unit => exact ⟨'s', _, by simp [entryText_subprogram]; rfl, by decide⟩

/-- An entry is read by its first word. -/
theorem reads_debugEntry {e : DebugEntry} (hs : skip s = (entryText e).toList ++ '\n' :: r) :
    Reads debugEntry s e ('\n' :: r) := by
  cases e with
  | compileUnit file =>
      have hs : skip s = "compile_unit".toList ++ ' ' :: ((quoted file).toList ++ '\n' :: r) := by
        simpa [entryText_compileUnit] using hs
      have hfile : skip (' ' :: ((quoted file).toList ++ '\n' :: r)) =
          (quoted file).toList ++ '\n' :: r := by rw [skip_space, skip_quoted]
      exact (reads_word (by decide) endsWord_space hs).bind
        (reads_string hfile).map
  | subprogram name unit =>
      let unitText : List Char := ' ' :: '!' :: (unit.toNat.repr.toList ++ '\n' :: r)
      have hs : skip s = "subprogram".toList ++ ' ' :: ((quoted name).toList ++ unitText) := by
        simpa [entryText_subprogram, unitText] using hs
      have hname : skip (' ' :: ((quoted name).toList ++ unitText)) =
          (quoted name).toList ++ unitText := by rw [skip_space, skip_quoted]
      have hunit : Reads metadataUse unitText unit ('\n' :: r) :=
        reads_metadataUse (by simp) (skip_space.trans (skip_of_plain (by decide)))
      exact (reads_word (by decide) endsWord_space hs).bind
        ((reads_string hname).bind hunit.map)

/-- A debug record is read from its line, as its strings may have any content. -/
theorem reads_debugRecord (d : DebugRecord) :
    Reads debugRecord (d.text.toList ++ '\n' :: r) d ('\n' :: r) := by
  let rest : List Char := ' ' :: ((entryText d.entry).toList ++ '\n' :: r)
  have ht : d.text.toList ++ '\n' :: r =
      '!' :: (d.id.toNat.repr.toList ++ ' ' :: '=' :: rest) := by
    simp [toList_debugRecord, rest]
  have hid :
      Reads number (d.id.toNat.repr.toList ++ ' ' :: '=' :: rest) d.id (' ' :: '=' :: rest) :=
    reads_number (by simp) (skip_repr _ _)
  have heq : skip (' ' :: '=' :: rest) = '=' :: rest := skip_space.trans (skip_of_plain (by decide))
  have hentry : Reads debugEntry rest d.entry ('\n' :: r) :=
    reads_debugEntry (skip_space.trans ((startsToken_entryText _).skip_append _))
  rw [ht]
  exact (reads_expect (skip_of_plain (by decide))).bind (reads_place.bind (hid.bind
    ((reads_note _ _).bind ((reads_expect heq).bind (hentry.bind .pure)))))

end DebugRecords

/-! ## Functions -/

section Functions

/-- The linkage of a function is read if one is written, and external if not. -/
theorem reads_functionLinkage {isDefinition : Bool} {l : Linkage} {w : String} (hw : IsKeyword w)
    (hnone : Linkage.ofKeyword? w = none) (hl : isDefinition = false → l = .external)
    (hr : EndsWord r) (hs : skip s = l.text.toList ++ (w.toList ++ r)) :
    ∃ p, Reads (functionLinkage isDefinition) s (l, w, p) r := by
  by_cases he : l = .external
  · subst he
    refine ⟨s, (reads_word hw hr hs).bind ?_⟩
    rw [hnone]
    exact .pure
  · have hs : skip s = l.keyword.toList ++ ' ' :: (w.toList ++ r) := by
      rw [hs, linkage_text_of_ne he]
      simp
    have hdef : isDefinition = true := by
      cases isDefinition with
      | false => exact absurd (hl rfl) he
      | true => rfl
    refine ⟨' ' :: (w.toList ++ r), (reads_word (isKeyword_linkage l) endsWord_space hs).bind ?_⟩
    rw [Linkage.ofKeyword?_keyword, hdef]
    exact (reads_second_word hw hr).bind .pure

/-- The convention of a function is always written. -/
theorem reads_convention {c : CallingConvention} {p : Place} {w : String} (hw : IsKeyword w)
    (hr : EndsWord r) :
    Reads (convention (c.keyword, p)) (' ' :: (w.toList ++ r))
      (c, w, ' ' :: (w.toList ++ r)) r := by
  rw [convention, CallingConvention.ofKeyword?_keyword]
  exact (reads_second_word hw hr).bind .pure

theorem reads_parameter {n : String} (hn : IsIdentifier n) :
    ReadsPhrase parameter ("%" ++ n).toList n where
  starts := ⟨'%', n.toList, by simp, by decide⟩
  reads hr hs := (reads_expect (by simpa using hs)).bind (reads_noted hn hr _)

theorem reads_functionAttribute {a : Attribute} (hs : skip s = (quoted a.key).toList ++
    '=' :: ((quoted a.value).toList ++ r)) : Reads functionAttribute s a r := by
  exact (reads_string hs).bind ((reads_expect (skip_of_plain (by decide))).bind
    ((reads_string (skip_quoted _ _)).bind .pure))

/-- The attributes of a function are read as long as a number sign follows. -/
theorem reads_attributes {as : List Attribute} (hr : EndsWord r) (hc : (skip r).head? ≠ some '#') :
    Reads (many (behind '#' functionAttribute) (shrinks_behind '#' shrinks_functionAttribute))
      ((String.join (as.map Attribute.text)).toList ++ r) as (skip r) := by
  let body (a : Attribute) : List Char := (quoted a.key).toList ++ '=' :: (quoted a.value).toList
  let piece (a : Attribute) : List Char := ' ' :: '#' :: body a
  have hpiece : ∀ a r, EndsWord (piece a ++ r) ∧ skip (piece a ++ r) = '#' :: (body a ++ r) :=
    fun a r => ⟨endsWord_space, skip_space.trans (skip_of_plain (by decide))⟩
  have ht : as.flatMap (fun a => a.text.toList) = as.flatMap piece := by
    simp [piece, body, Attribute.text]
  have hitem : ∀ a ∈ as, ∀ r, EndsWord r → Reads functionAttribute (body a ++ r) a r := by
    intro a _ r _
    refine reads_functionAttribute ?_
    have hbody : body a ++ r = (quoted a.key).toList ++ '=' :: ((quoted a.value).toList ++ r) := by
      simp [body]
    rw [hbody, skip_quoted]
  have h := reads_many_behind shrinks_functionAttribute hpiece hitem hr hc rfl
  rw [List.map_id'] at h
  rwa [toList_join_map, ht]

/-- A header is read from its name, its parameters and its attributes. -/
theorem reads_header {f : Function} (hf : f.IsWritable) (hr : EndsWord r)
    (hc : (skip r).head? ≠ some '#') (l : Linkage) (c : CallingConvention) (type : ValueType)
    (hs : skip s = '@' :: (f.name.toList ++ '(' ::
      ((commaSeparated (f.parameters.map ("%" ++ ·))).toList ++ ')' ::
        ((String.join (f.attributes.map Attribute.text)).toList ++ r)))) :
    Reads (header l c type) s ⟨f.name, l, c, type, f.parameters, f.attributes, none, none⟩
      (skip r) := by
  have hparameters := reads_listUntil shrinks_parameter
    (fun n hn => reads_parameter (hf.parameters n hn)) (by simp)
    ((String.join (f.attributes.map Attribute.text)).toList ++ r)
  rw [List.map_id'] at hparameters
  exact (reads_expect hs).bind ((reads_noted hf.name (endsWord_cons (by decide) (by decide)) _).bind
    (reads_place.bind ((reads_note _ _).bind ((reads_expect (skip_of_plain (by decide))).bind
      (hparameters.bind ((reads_attributes hr hc).bind .pure))))))

/-- In front of the header there are the linkage, the convention and the type. -/
theorem reads_signature {f : Function} (hf : f.IsWritable) (isDefinition : Bool) {l : Linkage}
    (hl : isDefinition = false → l = .external) (hr : EndsWord r)
    (hc : (skip r).head? ≠ some '#')
    (hs : skip s = l.text.toList ++ (f.signatureText.toList ++ r)) :
    Reads (signature isDefinition) s
      ⟨f.name, l, f.convention, f.returnType, f.parameters, f.attributes, none, none⟩ (skip r) := by
  let nameText : List Char := '@' :: (f.name.toList ++ '(' ::
    ((commaSeparated (f.parameters.map ("%" ++ ·))).toList ++ ')' ::
      ((String.join (f.attributes.map Attribute.text)).toList ++ r)))
  have ht : f.signatureText.toList ++ r =
      f.convention.keyword.toList ++ ' ' :: (f.returnType.name.toList ++ ' ' :: nameText) := by
    simp [Function.signatureText, nameText]
  have hnone : Linkage.ofKeyword? f.convention.keyword = none := by cases f.convention <;> decide
  rw [ht] at hs
  obtain ⟨p, hlinkage⟩ :=
    reads_functionLinkage (isKeyword_convention f.convention) hnone hl endsWord_space hs
  have hconvention := reads_convention (c := f.convention) (p := p)
    (isKeyword_typeName f.returnType) (endsWord_space (r := nameText))
  have hname : skip (' ' :: nameText) = nameText := skip_space.trans (skip_of_plain (by decide))
  refine hlinkage.bind (hconvention.bind ?_)
  dsimp only
  rw [ValueType.ofName?_name]
  exact reads_header hf hr hc l f.convention f.returnType hname

/-- How the debug record of a definition is written. -/
def debugText (debug : Option UInt32) : String :=
  match debug with
  | some id => " !dbg !" ++ id.toNat.repr
  | none => ""

/-- What stands behind the attributes of a definition is no attribute. -/
theorem exists_debugText (debug : Option UInt32) (r : List Char) :
    ∃ c rest, (c = '!' ∨ c = '\x7b') ∧
      (debugText debug).toList ++ ' ' :: '\x7b' :: r = ' ' :: c :: rest := by
  cases debug with
  | none => exact ⟨_, _, .inr rfl, rfl⟩
  | some id => exact ⟨_, _, .inl rfl, by simp [debugText]; rfl⟩

/-- The debug record of a definition is read up to the brace that opens the body. -/
theorem reads_debugUse? (debug : Option UInt32) (r : List Char) :
    ∃ r', skip r' = '\x7b' :: r ∧
      Reads debugUse? (skip ((debugText debug).toList ++ ' ' :: '\x7b' :: r)) debug r' := by
  have hbrace : skip (' ' :: '\x7b' :: r) = '\x7b' :: r :=
    skip_space.trans (skip_of_plain (by decide))
  cases debug with
  | none =>
      have hopen : skip ((debugText none).toList ++ ' ' :: '\x7b' :: r) = '\x7b' :: r := hbrace
      have hself : skip ('\x7b' :: r) = '\x7b' :: r := skip_of_plain (by decide)
      rw [hopen]
      exact ⟨_, hself, reads_pass hself (by decide) .pure⟩
  | some id =>
      let recordText : List Char := ' ' :: '!' :: (id.toNat.repr.toList ++ ' ' :: '\x7b' :: r)
      have ht : (debugText (some id)).toList ++ ' ' :: '\x7b' :: r =
          ' ' :: '!' :: ("dbg".toList ++ recordText) := by
        simp [debugText, recordText]
      have hdbg : IsKeyword "dbg" := by decide
      have hmark : skip (skip (' ' :: '!' :: ("dbg".toList ++ recordText))) =
          '!' :: ("dbg".toList ++ recordText) := by
        rw [skip_skip, skip_space]
        exact skip_of_plain (by decide)
      have hrecord : Reads metadataUse recordText id (' ' :: '\x7b' :: r) :=
        reads_metadataUse (by simp) (skip_space.trans (skip_of_plain (by decide)))
      rw [ht]
      exact ⟨_, hbrace, (reads_tryChar hmark).bind
        ((reads_word hdbg endsWord_space (hdbg.skip_append _)).bind hrecord.map)⟩

/-- The blocks of a body are followed by labels, or by the brace. -/
theorem endsBlock_blocks {bs : List Block} (hb : ∀ b ∈ bs, b.IsWritable) :
    EndsBlock ((String.join (bs.map Block.text)).toList ++ '\x7d' :: r) := by
  cases bs with
  | nil => exact ⟨⟨_, _, rfl, by decide⟩, .inl rfl⟩
  | cons b bs =>
      have hlabel := (hb b List.mem_cons_self).label
      obtain ⟨rest, ht⟩ : ∃ rest, (String.join ((b :: bs).map Block.text)).toList ++ '\x7d' :: r =
          b.label.toList ++ ':' :: rest := ⟨_, by simp [Block.text]; rfl⟩
      rw [ht]
      refine ⟨StartsToken.append hlabel.exists_cons _, .inr ?_⟩
      rw [startsWithLabel_of_isIdentifier hlabel (by rintro _ ⟨⟩; decide)]
      rfl

theorem reads_bodyItem {b : Block} (hb : b.IsWritable) (hr : EndsBlock r) (function : String) :
    Reads (bodyItem function) (b.text.toList ++ r) (some b.canonical) r := by
  obtain ⟨c, cs, hc⟩ := List.exists_cons_of_ne_nil hb.label.nonempty
  have hname : isNameChar c := hb.label.chars c (by rw [hc]; exact List.mem_cons_self)
  obtain ⟨rest, ht⟩ : ∃ rest, b.text.toList ++ r = c :: rest := ⟨_, by simp [Block.text, hc]; rfl⟩
  have hne : c ≠ '\x7d' := by
    rintro rfl
    exact absurd hname (by decide)
  have hblanks := reads_blanks true (s := r)
  rw [hr.starts.dropBlanks] at hblanks
  have hs : skip (b.text.toList ++ r) = c :: rest := by
    rw [ht]
    exact skip_of_plain (isPlain_of_isNameChar hname)
  refine reads_pass hs hne (reads_place.bind ?_)
  rw [if_neg (List.cons_ne_nil _ _), ← ht]
  exact (reads_block hb hr).bind (hblanks.bind .pure)

/-- All blocks of a body are read, up to its brace. -/
theorem reads_bodyItems {bs : List Block} (hb : ∀ b ∈ bs, b.IsWritable) (function : String) :
    Reads (many (bodyItem function) (shrinks_bodyItem function))
      ((String.join (bs.map Block.text)).toList ++ '\x7d' :: r) (bs.map Block.canonical) r := by
  induction bs with
  | nil => exact reads_many_nil ((reads_tryChar (skip_of_plain (by decide))).bind .pure)
  | cons b bs ih =>
      have hbs : ∀ b' ∈ bs, b'.IsWritable := fun b' h => hb b' (List.mem_cons_of_mem _ h)
      have hends := endsBlock_blocks (r := r) hbs
      have hitem := reads_bodyItem (hb b List.mem_cons_self) hends function
      have ht : (String.join ((b :: bs).map Block.text)).toList ++ '\x7d' :: r =
          b.text.toList ++ ((String.join (bs.map Block.text)).toList ++ '\x7d' :: r) := by
        simp
      rw [ht]
      exact reads_many_cons hitem (ih hbs)

/-- A body is read from its opening brace to its closing one. -/
theorem reads_body {bs : List Block} (hb : ∀ b ∈ bs, b.IsWritable) (function : String)
    (hs : skip s =
      '\x7b' :: '\n' :: ((String.join (bs.map Block.text)).toList ++ '\x7d' :: r)) :
    Reads (body function) s (bs.map Block.canonical) r := by
  have hblanks := reads_blanks true
    (s := '\n' :: ((String.join (bs.map Block.text)).toList ++ '\x7d' :: r))
  rw [dropBlanks_newline, (endsBlock_blocks hb).starts.dropBlanks] at hblanks
  exact (reads_expect hs).bind (hblanks.bind ((reads_bodyItems hb function).bind
    (reads_place.bind ((reads_note _ _).bind .pure))))

theorem startsToken_signatureText (f : Function) : StartsToken f.signatureText.toList := by
  obtain ⟨rest, ht⟩ : ∃ rest, f.signatureText.toList = f.convention.keyword.toList ++ rest :=
    ⟨_, by simp only [Function.signatureText, String.toList_append, List.append_assoc]; rfl⟩
  rw [ht]
  exact StartsToken.append (isKeyword_convention f.convention).exists_cons _

theorem reads_declaration {f : Function} (hf : f.IsWritable) (hbody : f.body = none) :
    Reads (function false) (' ' :: (f.signatureText.toList ++ '\n' :: r)) f.canonical
      ('\n' :: r) := by
  obtain ⟨hlinkage, hdebug⟩ := hf.declaration hbody
  have hempty : f.linkage.text.toList = [] := by rw [hlinkage]; rfl
  have hskip : skip (' ' :: (f.signatureText.toList ++ '\n' :: r)) =
      f.linkage.text.toList ++ (f.signatureText.toList ++ '\n' :: r) := by
    rw [skip_space, hempty, List.nil_append]
    exact (startsToken_signatureText f).skip_append _
  have hne : (skip ('\n' :: r)).head? ≠ some '#' := by
    rw [skip_newline]
    simp
  have h := reads_signature hf false (fun _ => hlinkage) endsWord_newline hne hskip
  rw [skip_newline] at h
  have he : (⟨f.name, f.linkage, f.convention, f.returnType, f.parameters, f.attributes, none,
      none⟩ : Function) = f.canonical := by
    rw [Function.canonical, hbody, ← hdebug]
    rfl
  rw [he] at h
  exact h.bind .pure

/-- A definition is read with its debug record and its body. -/
theorem reads_definition {f : Function} (hf : f.IsWritable) {bs : List Block}
    (hbody : f.body = some bs) :
    Reads (function true) (' ' :: (f.linkage.text.toList ++ (f.signatureText.toList ++
      ((debugText f.debug).toList ++ ' ' :: '\x7b' :: '\n' ::
        ((String.join (bs.map Block.text)).toList ++ '\x7d' :: r))))) f.canonical r := by
  let bodyText : List Char := '\n' :: ((String.join (bs.map Block.text)).toList ++ '\x7d' :: r)
  let behindText : List Char := (debugText f.debug).toList ++ ' ' :: '\x7b' :: bodyText
  obtain ⟨c, rest, hc, hbehind⟩ :
      ∃ c rest, (c = '!' ∨ c = '\x7b') ∧ behindText = ' ' :: c :: rest :=
    exists_debugText f.debug bodyText
  have hends : EndsWord behindText := by
    rw [hbehind]
    exact endsWord_space
  have hne : (skip behindText).head? ≠ some '#' := by
    rw [hbehind, skip_space]
    rcases hc with rfl | rfl <;> rw [skip_of_plain (by decide)] <;> simp
  obtain ⟨r', hr', hdebug⟩ := reads_debugUse? f.debug bodyText
  have hblocks : ∀ b ∈ bs, b.IsWritable := fun b hb =>
    hf.blocks b (by rw [Function.blocks, hbody]; exact hb)
  have hskip : skip (' ' :: (f.linkage.text.toList ++ (f.signatureText.toList ++ behindText))) =
      f.linkage.text.toList ++ (f.signatureText.toList ++ behindText) :=
    skip_linkage_text f.linkage (startsToken_signatureText f) behindText
  have hsignature := reads_signature hf true (fun h => Bool.noConfusion h) hends hne hskip
  have hcanonical : f.canonical = ⟨f.name, f.linkage, f.convention, f.returnType, f.parameters,
      f.attributes, f.debug, some (bs.map Block.canonical)⟩ := by
    rw [Function.canonical, hbody]
    rfl
  rw [hcanonical]
  exact hsignature.bind (hdebug.bind ((reads_body hblocks f.name hr').bind .pure))

end Functions

/-! ## Entities -/

section Entities

theorem isKeyword_define : IsKeyword "define" := by decide

theorem isKeyword_declare : IsKeyword "declare" := by decide

/-- The written form of a function, in the pieces that are read. -/
theorem toList_function {f : Function} :
    f.text.toList = match f.body with
      | none => "declare".toList ++ ' ' :: f.signatureText.toList
      | some bs => "define".toList ++ ' ' :: (f.linkage.text.toList ++ (f.signatureText.toList ++
          ((debugText f.debug).toList ++ ' ' :: '\x7b' :: '\n' ::
            ((String.join (bs.map Block.text)).toList ++ ['\x7d'])))) := by
  rw [Function.text]
  cases f.body with
  | none => simp
  | some bs => cases f.debug <;> simp [debugText]

/-- The source name is read from its line, whatever its content. -/
theorem reads_sourceName (name : String) :
    Reads worded ((Entity.sourceName name).text.toList ++ '\n' :: r) (.sourceName name)
      ('\n' :: r) := by
  let nameText : List Char := ' ' :: ((quoted name).toList ++ '\n' :: r)
  have ht : (Entity.sourceName name).text.toList ++ '\n' :: r =
      "source_filename".toList ++ ' ' :: '=' :: nameText := by
    simp [Entity.text_sourceName, nameText]
  have hw : IsKeyword "source_filename" := by decide
  have heq : skip (' ' :: '=' :: nameText) = '=' :: nameText :=
    skip_space.trans (skip_of_plain (by decide))
  have hname : skip nameText = (quoted name).toList ++ '\n' :: r :=
    skip_space.trans (skip_quoted name _)
  rw [ht]
  exact (reads_word hw endsWord_space (hw.skip_append _)).bind
    ((reads_expect heq).bind (reads_string hname).map)

/-- A function is announced by one of two words. -/
theorem reads_worded_function {f : Function} (hf : f.IsWritable) :
    Reads worded (f.text.toList ++ '\n' :: r) (.function f.canonical) ('\n' :: r) := by
  rw [toList_function]
  cases hbody : f.body with
  | none =>
      dsimp only
      rw [List.append_assoc, List.cons_append]
      exact (reads_word isKeyword_declare endsWord_space (isKeyword_declare.skip_append _)).bind
        (reads_declaration hf hbody).map
  | some bs =>
      have h := reads_definition hf hbody (r := '\n' :: r)
      simp only [List.append_assoc, List.cons_append, List.nil_append] at h ⊢
      exact (reads_word isKeyword_define endsWord_space (isKeyword_define.skip_append _)).bind h.map

/-- The characters that entities begin with. -/
def entityStarts : List Char := ['s', '@', 'd', '!']

/-- An entity begins with a character of its kind. -/
theorem exists_entity_cons (e : Entity) : ∃ c cs, e.text.toList = c :: cs ∧ c ∈ entityStarts ∧
    (c = '@' ↔ ∃ g, e = .global g) ∧ (c = '!' ↔ ∃ d, e = .debugRecord d) := by
  cases e with
  | sourceName name =>
      exact ⟨'s', _, by simp [Entity.text_sourceName]; rfl, by decide, by simp⟩
  | global g =>
      obtain ⟨rest, ht⟩ : ∃ rest, g.text.toList = '@' :: rest := by
        cases hi : g.initializer with
        | none => exact ⟨_, by simp [GlobalVariable.text, hi]; rfl⟩
        | some init => exact ⟨_, by simp [GlobalVariable.text, hi]; rfl⟩
      exact ⟨'@', rest, ht, by decide, by simp⟩
  | debugRecord d => exact ⟨'!', _, toList_debugRecord d, by decide, by simp⟩
  | function f =>
      obtain ⟨rest, ht⟩ : ∃ rest, f.text.toList = 'd' :: rest := by
        rw [toList_function]
        cases f.body with
        | none => exact ⟨_, rfl⟩
        | some bs => exact ⟨_, rfl⟩
      exact ⟨'d', rest, ht, by decide, by simp⟩

/-- Each entity is read from its written form, in front of the end of its line. -/
theorem reads_entity {e : Entity} (he : e.IsWritable) :
    Reads entity (e.text.toList ++ '\n' :: r) e.canonical ('\n' :: r) := by
  obtain ⟨c, cs, hc, -, hglobal, hrecord⟩ := exists_entity_cons e
  refine reads_next?.bind ?_
  have hhead : (e.text.toList ++ '\n' :: r).head? = some c := by rw [hc]; rfl
  rw [hhead]
  have hglobal : some c = some '@' ↔ ∃ g, e = .global g := by rw [Option.some.injEq, hglobal]
  have hrecord : some c = some '!' ↔ ∃ d, e = .debugRecord d := by rw [Option.some.injEq, hrecord]
  cases e with
  | global g =>
      rw [if_pos (hglobal.mpr ⟨g, rfl⟩)]
      exact (reads_global he).map
  | debugRecord d =>
      rw [if_neg (by simp [hglobal]), if_pos (hrecord.mpr ⟨d, rfl⟩)]
      exact (reads_debugRecord d).map
  | sourceName name =>
      rw [if_neg (by simp [hglobal]), if_neg (by simp [hrecord])]
      exact reads_sourceName name
  | function f =>
      rw [if_neg (by simp [hglobal]), if_neg (by simp [hrecord])]
      exact reads_worded_function he

theorem startsToken_entity (e : Entity) : StartsToken e.text.toList := by
  obtain ⟨c, cs, hc, hstart, -⟩ := exists_entity_cons e
  have hplain : entityStarts.all fun c => decide (IsPlain c) := by decide
  exact ⟨c, cs, hc, of_decide_eq_true (List.all_eq_true.mp hplain c hstart)⟩

theorem reads_entityItem {e : Entity} (he : e.IsWritable) :
    Reads entityItem (e.text.toList ++ '\n' :: r) (some e.canonical) (dropBlanks true false r) := by
  obtain ⟨c, cs, hc, -⟩ := startsToken_entity e
  have hblanks := reads_blanks true (s := '\n' :: r)
  rw [dropBlanks_newline] at hblanks
  refine reads_place.bind ?_
  rw [if_neg (by simp)]
  exact (reads_entity he).bind (reads_expectLineEnd.bind (hblanks.bind .pure))

end Entities

/-! ## Texts -/

section Texts

/-- Entities in lines of their own. -/
def linesText (es : List Entity) : List Char := es.flatMap fun e => e.text.toList ++ ['\n']

/-- The lines of some entities are read, and then what stands behind them and any blanks. -/
theorem reads_lines {es as : List Entity} (hes : ∀ e ∈ es, e.IsWritable)
    (hr : Reads (many entityItem shrinks_entityItem) (dropBlanks true false r) as []) :
    Reads (many entityItem shrinks_entityItem) (dropBlanks true false (linesText es ++ r))
      (es.map Entity.canonical ++ as) [] := by
  induction es with
  | nil => exact hr
  | cons e es ih =>
      have ht : linesText (e :: es) ++ r = e.text.toList ++ '\n' :: (linesText es ++ r) := by
        simp [linesText]
      rw [ht, ((startsToken_entity e).append _).dropBlanks]
      exact reads_many_cons (reads_entityItem (hes e List.mem_cons_self))
        (ih fun e' he => hes e' (List.mem_cons_of_mem _ he))

/-- Paragraphs are read as all their entities; blank lines between them do not matter. -/
theorem reads_groups {groups : List (List Entity)} (hg : ∀ es ∈ groups, ∀ e ∈ es, e.IsWritable) :
    Reads (many entityItem shrinks_entityItem)
      (dropBlanks true false (groups.flatMap fun es => '\n' :: linesText es))
      (groups.flatten.map Entity.canonical) [] := by
  induction groups with
  | nil => exact reads_many_nil (reads_place.bind .pure)
  | cons es groups ih =>
      rw [List.flatMap_cons, List.cons_append, dropBlanks_newline, List.flatten_cons,
        List.map_append]
      exact reads_lines (hg es List.mem_cons_self)
        (ih fun es' h => hg es' (List.mem_cons_of_mem _ h))

/-- The lines of entities are their written forms, each with the end of its line. -/
theorem toList_lines (es : List Entity) :
    (lines (es.map Entity.text)).toList = linesText es := by
  simp [lines, linesText, List.flatMap_map]

/-- A text of paragraphs is read as the entities of all paragraphs. -/
theorem reads_entities {groups : List (List Entity)}
    (hg : ∀ es ∈ groups, ∀ e ∈ es, e.IsWritable) :
    Reads entities ("\n".intercalate (groups.map fun es => lines (es.map Entity.text))).toList
      (groups.flatten.map Entity.canonical) [] := by
  have h := reads_groups hg
  refine (reads_blanks true).bind ?_
  cases groups with
  | nil => exact h
  | cons es groups =>
      rw [List.flatMap_cons, List.cons_append, dropBlanks_newline] at h
      have hsep : ∀ l : List Char, "\n".toList ++ l = '\n' :: l := fun _ => rfl
      rw [List.map_cons, toList_intercalate_cons, List.flatMap_map, toList_lines]
      simpa only [toList_lines, hsep] using h

end Texts

end Assembly.Scan

end DeviceCode
