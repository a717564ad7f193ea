import DeviceCode.Proofs.Assembly.Trace

/-!
# What a module does with names

Every part of a module has its acts: what its written form does with names, in the order of the
text.  The scan of each phrase adds exactly the acts of what it reads, so the trace of a whole text
is the acts of its entities.
-/

namespace DeviceCode

open Assembly

def Operand.acts : Operand → List Act
  | value name => [.useValue name]
  | symbol name => [.useSymbol name]
  | block label => [.useBlock label]
  | metadata id => [.useMetadata id]
  | constant _ _ | string _ => []

/-- A callee is used as a symbol or as a value. -/
def Callee.acts : Callee → List Act
  | direct symbol => [.useSymbol symbol]
  | indirect value => [.useValue value]

def Action.acts : Action → List Act
  | call _ callee arguments => callee.acts ++ arguments.flatMap Operand.acts
  | operation _ operands => operands.flatMap Operand.acts

/-- An instruction defines its result before it uses its operands, since the result is written
first. -/
def Instruction.acts (i : Instruction) : List Act :=
  i.result.toList.map .defineValue ++ i.action.acts ++ i.attachments.flatMap (·.value.acts)

def Block.acts (b : Block) : List Act :=
  .defineBlock b.label :: b.instructions.flatMap Instruction.acts

/-- The acts of a function up to its attributes. -/
def Function.headerActs (f : Function) : List Act :=
  .defineSymbol f.name :: .beginFunction :: f.parameters.map .defineParameter

/-- At the end of a body the names of its values and labels come to an end. -/
def Function.bodyActs (blocks : List Block) : List Act := blocks.flatMap Block.acts ++ [.endBody]

/-- A definition uses its debug record between its header and its body. -/
def Function.acts (f : Function) : List Act :=
  f.headerActs ++ f.debug.toList.map .useMetadata ++ f.body.elim [] bodyActs

/-- A variable may use its own name, for it is defined in front of its initializer. -/
def GlobalVariable.acts (g : GlobalVariable) : List Act :=
  .defineSymbol g.name :: g.symbols.map .useSymbol

def DebugRecord.acts (r : DebugRecord) : List Act :=
  .defineMetadata r.id :: r.entry.unit?.toList.map .useMetadata

/-- The source name is a string and does nothing with names. -/
def Entity.acts : Entity → List Act
  | sourceName _ => []
  | global g => g.acts
  | function f => f.acts
  | debugRecord r => r.acts

namespace Assembly.Scan

variable {α : Type}

/-! ## Instructions -/

section Lists

variable {acts : α → List Act} {good : α → Prop} {x : Scan α}

/-- What an item tells, the item in an option tells. -/
theorem Tells.some (h : Tells acts good x) : TellsIf acts good (some <$> x) := by
  refine Yields.map h ?_
  rintro a t ⟨rfl, ha⟩
  refine ⟨rfl, ?_⟩
  rintro b ⟨⟩
  exact ha

theorem tellsIf_none : TellsIf acts good (pure none) := Yields.pure ⟨rfl, by rintro a ⟨⟩⟩

/-- A character in front of an item names nothing. -/
theorem tells_behind (ch : Char) (h : Tells acts good x) : TellsIf acts good (behind ch x) := by
  refine (silent_tryChar ch).then fun b => ?_
  cases b with
  | false => exact tellsIf_none
  | true => exact h.some

/-- A list tells what its elements tell, one behind the other. -/
theorem tells_commaList (hs : Shrinks (fun _ => 0) x) (h : Tells acts good x) :
    Tells (List.flatMap acts) (fun as => ∀ a ∈ as, good a) (commaList x hs) := by
  refine Yields.bind h ?_
  rintro a t ⟨rfl, ha⟩
  refine Yields.bind (tells_many (tells_behind ',' h)) ?_
  rintro as u ⟨rfl, has⟩
  refine Yields.pure ⟨by simp, ?_⟩
  intro b hb
  rcases List.mem_cons.mp hb with rfl | hb
  · exact ha
  · exact has b hb

theorem tells_listUntil (close : Char) (hs : Shrinks (fun _ => 0) x) (h : Tells acts good x) :
    Tells (List.flatMap acts) (fun as => ∀ a ∈ as, good a) (listUntil close x hs) := by
  refine (silent_tryChar close).then fun b => ?_
  cases b with
  | true => exact Yields.pure ⟨rfl, by simp⟩
  | false =>
      refine Yields.bind (tells_commaList hs h) ?_
      rintro as t ⟨rfl, has⟩
      exact (silent_expect close).then fun _ => Yields.pure ⟨by simp, has⟩

end Lists

/-- An operand has one act, which is noted behind its sigil; a literal is checked against its type
when it is read. -/
theorem tells_operand : Tells Operand.acts Operand.IsTyped operand := by
  have noted : ∀ (act : String → Act) (make : String → Operand),
      (∀ n, (make n).acts = [act n] ∧ (make n).IsTyped) →
      Tells Operand.acts Operand.IsTyped (make <$> noted act) := by
    intro act make h
    refine (yields_noted act).map ?_
    rintro n t rfl
    exact ⟨(h n).1.symm, (h n).2⟩
  refine (silent_tryChar _).then fun b => ?_
  cases b with
  | true => exact noted _ _ fun n => ⟨rfl, trivial⟩
  | false =>
    refine (silent_tryChar _).then fun b => ?_
    cases b with
    | true => exact noted _ _ fun n => ⟨rfl, trivial⟩
    | false =>
      refine (silent_tryChar _).then fun b => ?_
      cases b with
      | true => exact noted _ _ fun n => ⟨rfl, trivial⟩
      | false =>
        refine silent_peek?.then fun c => ?_
        split
        · exact silent_string.map fun s t ht => ⟨ht, trivial⟩
        · exact yields_metadataUse.map fun id t ht => ⟨ht, trivial⟩
        · exact silent_valueType.then fun type => (tells_literal type).map fun l t h => h
        · exact yields_fail _

theorem tells_callee : Tells Callee.acts (fun _ => True) callee := by
  refine (silent_tryChar _).then fun b => ?_
  cases b with
  | true => exact (yields_noted _).map fun n t ht => ⟨ht, trivial⟩
  | false =>
    refine (silent_tryChar _).then fun b => ?_
    cases b with
    | true => exact (yields_noted _).map fun n t ht => ⟨ht, trivial⟩
    | false => exact silent_next?.then fun _ => yields_fail _

/-- The arguments of a call are typed operands, and a call needs no more than that. -/
theorem tells_call : Tells Action.acts Action.WellFormed call := by
  refine silent_valueType.then fun type => Yields.bind tells_callee ?_
  rintro target t ⟨rfl, -⟩
  refine (silent_expect _).then fun _ => Yields.bind (tells_listUntil ')' _ tells_operand) ?_
  rintro arguments u ⟨rfl, typed⟩
  refine Yields.pure ⟨by simp [Action.acts], typed, ?_, ?_⟩
  · rintro opcode operands ⟨⟩
  · rintro opcode id operands ⟨⟩

/-- Blanks that have been passed over are not met again. -/
theorem dropBlanks_dropBlanks (inComment : Bool) (s : List Char) :
    dropBlanks false false (dropBlanks false inComment s) = dropBlanks false inComment s := by
  induction s generalizing inComment with
  | nil => rfl
  | cons c r ih =>
      rw [dropBlanks]
      split
      · rename_i h
        simp [dropBlanks, h]
      · split
        · exact ih true
        · split
          · exact ih false
          · rename_i h₁ h₂ h₃
            have hc : c ≠ ';' := by simp at h₂; exact h₂.2
            simp [dropBlanks, h₁, hc, h₃]

/-- A character that is not there is looked for behind blanks and comments, and these are not read
again. -/
theorem rest_of_tryChar_false {ch : Char} {c c' : Cursor} (h : tryChar ch c = .ok false c') :
    c'.rest = dropBlanks false false c.rest := by
  unfold tryChar at h
  split at h
  · rename_i e
    cases h
    exact e.symm
  · rename_i e
    split at h <;> cases h
    exact e.symm

/-- To look at the next character is to pass over the blanks in front of it. -/
theorem peek?_eq_ok {o : Option Char} {c c' : Cursor} (h : peek? c = .ok o c') :
    c'.rest = dropBlanks false false c.rest ∧ o = c'.rest.head? := by
  obtain ⟨u, d, h₁, h₂⟩ := bind_eq_ok.mp h
  cases h₁
  cases h₂
  exact ⟨rfl, rfl⟩

/-- An operand that is a debug record begins with its sigil. -/
theorem head_of_operand_metadata {c c' : Cursor} {id : UInt32}
    (h : operand c = .ok (.metadata id) c') :
    (dropBlanks false false c.rest).head? = some '!' := by
  have other : ∀ {α : Type} {x : Scan α} {make : α → Operand} {d : Cursor},
      (∀ a, make a ≠ .metadata id) → (make <$> x) d ≠ .ok (.metadata id) c' := by
    intro α x make d hne e
    rw [map_eq_pure_bind] at e
    obtain ⟨a, d', -, e⟩ := bind_eq_ok.mp e
    exact hne a (EStateM.Result.ok.inj e).1
  unfold operand at h
  obtain ⟨b, c₁, h₁, h⟩ := bind_eq_ok.mp h
  cases b with
  | true => exact absurd h (other fun n => nofun)
  | false =>
    obtain ⟨b, c₂, h₂, h⟩ := bind_eq_ok.mp h
    cases b with
    | true => exact absurd h (other fun n => nofun)
    | false =>
      obtain ⟨b, c₃, h₃, h⟩ := bind_eq_ok.mp h
      cases b with
      | true => exact absurd h (other fun n => nofun)
      | false =>
        obtain ⟨ch, c₄, h₄, h⟩ := bind_eq_ok.mp h
        have hr : c₄.rest = dropBlanks false false c.rest := by
          rw [(peek?_eq_ok h₄).1, rest_of_tryChar_false h₃, rest_of_tryChar_false h₂,
            rest_of_tryChar_false h₁, dropBlanks_dropBlanks, dropBlanks_dropBlanks,
            dropBlanks_dropBlanks]
        split at h
        · exact absurd h (other fun n => nofun)
        · rw [← hr, ← (peek?_eq_ok h₄).2]
        · obtain ⟨type, c₅, -, h⟩ := bind_eq_ok.mp h
          exact absurd h (other fun n => nofun)
        · cases h

/-- An operation without operands, or with operands that do not begin like an attachment. -/
theorem tells_operation (opcode : String) (h : opcode ≠ "call") :
    Tells Action.acts Action.WellFormed (operation opcode) := by
  intro c a c' e
  obtain ⟨atEnd, c₁, h₁, e₁⟩ := bind_eq_ok.mp e
  obtain ⟨ch, c₂, h₂, e₂⟩ := bind_eq_ok.mp e₁
  obtain ⟨t₁, ht₁, rfl⟩ := silent_isAtLineEnd _ _ _ h₁
  have hr : c₁.rest = dropBlanks false false c.rest := by
    obtain ⟨o, d, hd, hp⟩ := bind_eq_ok.mp h₁
    cases hp
    exact (peek?_eq_ok hd).1
  cases h₂
  rw [List.append_nil] at ht₁
  rw [← ht₁]
  split at e₂
  · cases e₂
    exact ⟨[], by simp, rfl, by simp [Action.operands], by rintro _ _ ⟨⟩; exact h,
      by rintro _ _ _ ⟨⟩⟩
  · rename_i hne
    rw [map_eq_pure_bind] at e₂
    obtain ⟨operands, c₃, h₃, e₃⟩ := bind_eq_ok.mp e₂
    obtain ⟨t, ht, rfl, typed⟩ := tells_commaList _ tells_operand _ _ _ h₃
    cases e₃
    refine ⟨operands.flatMap Operand.acts, ht, rfl, typed, by rintro _ _ ⟨⟩; exact h, ?_⟩
    rintro _ id others ⟨⟩
    -- the first operand was read where the attachments would begin
    obtain ⟨first, c₄, h₄, e₄⟩ := bind_eq_ok.mp h₃
    obtain ⟨rest, c₅, -, e₅⟩ := bind_eq_ok.mp e₄
    cases e₅
    have hd := head_of_operand_metadata h₄
    rw [hr, dropBlanks_dropBlanks, ← hr] at hd
    simp [hd] at hne

/-- The opcode decides whether a call is read, so no other action has the opcode of calls. -/
theorem tells_action : Tells Action.acts Action.WellFormed action := by
  refine silent_keyword.then fun opcode => ?_
  split
  · exact tells_call
  · exact tells_operation opcode ‹_›

theorem tells_attachment :
    Tells (fun a => a.value.acts) (fun a => a.value.IsTyped) attachment := by
  refine silent_keyword.then fun kind => Yields.bind tells_operand ?_
  rintro value t ⟨rfl, typed⟩
  exact Yields.pure ⟨by simp, typed⟩

theorem tells_result? :
    Tells (fun r => r.toList.map .defineValue) (fun _ => True) result? := by
  refine silent_next?.then fun c => ?_
  split
  · refine silent_advance.then fun _ => (yields_noted _).bind ?_
    rintro n t rfl
    exact (silent_expect _).then fun _ => Yields.pure ⟨rfl, trivial⟩
  · exact Yields.pure ⟨rfl, trivial⟩

/-- An instruction is well-formed once its action and its attachments are. -/
theorem tells_instruction : Tells Instruction.acts Instruction.WellFormed instruction := by
  refine Yields.bind tells_result? ?_
  rintro result t ⟨rfl, -⟩
  refine Yields.bind tells_action ?_
  rintro action u ⟨rfl, ha⟩
  refine Yields.bind (tells_many (tells_behind '!' tells_attachment)) ?_
  rintro attachments v ⟨rfl, typed⟩
  exact Yields.pure ⟨by simp [Instruction.acts], ha, typed⟩

theorem tells_blockItem : TellsIf Instruction.acts Instruction.WellFormed blockItem := by
  refine (silent_blanks _).then fun _ => silent_place.then fun _ => ?_
  split
  · exact tellsIf_none
  · refine Yields.bind tells_instruction ?_
    rintro i t ⟨rfl, hi⟩
    refine silent_expectLineEnd.then fun _ => Yields.pure ⟨by simp, ?_⟩
    rintro j ⟨⟩
    exact hi

/-- A block tells its label first and then its instructions. -/
theorem tells_block :
    Tells Block.acts (fun b => ∀ i ∈ b.instructions, i.WellFormed) block := by
  refine silent_place.then fun start => silent_name.then fun label => (silent_expect _).then
    fun _ => (yields_note _ _).bind ?_
  rintro - t rfl
  refine silent_expectLineEnd.then fun _ => Yields.bind (tells_many tells_blockItem) ?_
  rintro instructions u ⟨rfl, his⟩
  exact Yields.pure ⟨by simp [Block.acts], his⟩

/-! ## Initializers -/

/-- The leaves read so far in the arrays that are open, the innermost array first. -/
def openLeaves (outer : List (List Initializer)) : List Initializer :=
  outer.reverse.flatMap fun elements => Initializer.leavesOfList elements.reverse

@[simp] theorem openLeaves_nil_cons (outer : List (List Initializer)) :
    openLeaves ([] :: outer) = openLeaves outer := by
  simp [openLeaves, Initializer.leavesOfList]

/-- The elements of the innermost array are read last, and they are kept in reverse. -/
theorem openLeaves_cons (elements : List Initializer) (outer : List (List Initializer)) :
    openLeaves (elements :: outer) =
      openLeaves outer ++ Initializer.leavesOfList elements.reverse := by
  simp [openLeaves]

/-- A value that is complete adds its leaves behind all others. -/
theorem openLeaves_push (value : Initializer) (elements : List Initializer)
    (outer : List (List Initializer)) :
    openLeaves ((value :: elements) :: outer) =
      openLeaves (elements :: outer) ++ value.leaves := by
  rw [openLeaves_cons, openLeaves_cons, List.reverse_cons, Initializer.leavesOfList_append,
    List.append_assoc]
  simp [Initializer.leavesOfList]

def leafActs (i : Initializer) : List Act := i.symbol?.toList.map .useSymbol

theorem flatMap_leafActs (i : Initializer) :
    i.leaves.flatMap leafActs = i.symbols.map .useSymbol := by
  rw [Initializer.symbols_eq_leaves]
  induction i.leaves with
  | nil => rfl
  | cons leaf leaves ih =>
      rw [List.flatMap_cons, ih, leafActs, List.filterMap_cons]
      cases leaf.symbol? <;> rfl

/-- What reading adds: the leaves `new`, well typed, with their acts. -/
def AddsLeaves (before : List Initializer) (c : Cursor) (v : Initializer) (c' : Cursor) : Prop :=
  ∃ new, v.leaves = before ++ new ∧ c'.acts = c.acts ++ new.flatMap leafActs ∧
    ∀ leaf ∈ new, leaf.IsTypedLeaf

/-- A piece is the beginning of an array, which tells nothing, or a whole value, whose leaves are
typed. -/
theorem tells_piece :
    Yields (fun p t => match p with
      | .opening => t = []
      | .whole v => t = v.leaves.flatMap leafActs ∧ ∀ leaf ∈ v.leaves, leaf.IsTypedLeaf) piece := by
  refine (silent_tryChar _).then fun b => ?_
  cases b with
  | true =>
    refine (yields_noted _).map ?_
    rintro n t rfl
    exact ⟨rfl, by simp [Initializer.leaves, Initializer.IsTypedLeaf]⟩
  | false =>
    refine (silent_tryChar _).then fun b => ?_
    cases b with
    | true =>
      refine (silent_tryChar _).then fun b => ?_
      cases b with
      | true =>
        exact Yields.pure ⟨rfl, by simp [Initializer.leaves, Initializer.leavesOfList]⟩
      | false => exact Yields.pure rfl
    | false =>
      refine silent_peek?.then fun c => ?_
      split
      · refine silent_string.map ?_
        rintro s t rfl
        exact ⟨rfl, by simp [Initializer.leaves, Initializer.IsTypedLeaf]⟩
      · refine silent_place.then fun start => silent_keyword.then fun word => ?_
        split
        · exact Yields.pure ⟨rfl, by simp [Initializer.leaves, Initializer.IsTypedLeaf]⟩
        · split
          · rename_i type _
            refine (tells_literal type).map ?_
            rintro l t ⟨rfl, hl⟩
            exact ⟨rfl, by simpa [Initializer.leaves, Initializer.IsTypedLeaf] using hl⟩
          · exact yields_failAt _ _

theorem silent_separator : Silent separator := by
  refine (silent_tryChar _).then fun b => ?_
  cases b with
  | true => exact Yields.pure rfl
  | false => exact (silent_expect _).then fun _ => Yields.pure rfl

mutual

/-- Reading on inside of arrays adds the leaves behind those that are there; it goes by induction on
the text that is left, with `addsLeaves_resumeWithin`. -/
theorem addsLeaves_readWithin {outer : List (List Initializer)} {c c' : Cursor} {v : Initializer}
    (h : readWithin outer c = .ok v c') : AddsLeaves (openLeaves outer) c v c' := by
  rw [readWithin] at h
  split at h
  · cases h
  · rename_i d e
    have := shrinks_piece _ _ _ e
    obtain ⟨t, ht, rfl⟩ := tells_piece _ _ _ e
    obtain ⟨new, hv, hc, typed⟩ := addsLeaves_readWithin h
    exact ⟨new, by rw [hv, openLeaves_nil_cons], by rw [hc, ht, List.append_nil], typed⟩
  · rename_i w d e
    have := shrinks_piece _ _ _ e
    obtain ⟨t, ht, rfl, hw⟩ := tells_piece _ _ _ e
    obtain ⟨new, hv, hc, typed⟩ := addsLeaves_resumeWithin h
    refine ⟨w.leaves ++ new, by rw [hv, List.append_assoc], ?_, ?_⟩
    · rw [hc, ht, List.flatMap_append, List.append_assoc]
    · intro leaf hl
      exact (List.mem_append.mp hl).elim (hw leaf) (typed leaf)
termination_by c.rest.length

theorem addsLeaves_resumeWithin {outer : List (List Initializer)} {value v : Initializer}
    {c c' : Cursor} (h : resumeWithin outer value c = .ok v c') :
    AddsLeaves (openLeaves outer ++ value.leaves) c v c' := by
  cases outer with
  | nil =>
    rw [resumeWithin] at h
    cases h
    exact ⟨[], by simp [openLeaves], by simp, by simp⟩
  | cons elements outer =>
    rw [resumeWithin] at h
    split at h
    · cases h
    · rename_i d e
      have := shrinks_separator _ _ _ e
      obtain ⟨t, ht, rfl⟩ := silent_separator _ _ _ e
      obtain ⟨new, hv, hc, typed⟩ := addsLeaves_readWithin h
      exact ⟨new, by rw [hv, openLeaves_push], by rw [hc, ht, List.append_nil], typed⟩
    · rename_i d e
      have := shrinks_separator _ _ _ e
      obtain ⟨t, ht, rfl⟩ := silent_separator _ _ _ e
      obtain ⟨new, hv, hc, typed⟩ := addsLeaves_resumeWithin h
      refine ⟨new, ?_, by rw [hc, ht, List.append_nil], typed⟩
      rw [hv, Initializer.leaves, ← openLeaves_cons, openLeaves_push]
termination_by c.rest.length

end

theorem tells_initializer :
    Tells (fun i => i.symbols.map .useSymbol) (fun i => ∀ leaf ∈ i.leaves, leaf.IsTypedLeaf)
      initializer := by
  intro c v c' e
  obtain ⟨new, hv, hc, typed⟩ := addsLeaves_readWithin e
  obtain rfl : v.leaves = new := by simpa [openLeaves] using hv
  exact ⟨_, hc, flatMap_leafActs v, typed⟩

end Assembly.Scan

end DeviceCode
