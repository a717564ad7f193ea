import DeviceCode.Binary.Container
import DeviceCode.Proofs.Binary.Wire

/-!
# Modules are read back from bytes

What is written of each part of a module is read as that part, from literals up to the module, and
what follows a module is ignored (`Module.ofBytes_toBytes_append`).
-/

namespace DeviceCode

namespace Binary

/-! ## Choices -/

/-- A type is written as its place among all types. -/
theorem decodes_takeType (t : ValueType) : Decodes takeType (putType t) t :=
  decodes_takeVariant (by cases t <;> decide) (by decide)

theorem decodes_takeLinkage (l : Linkage) : Decodes takeLinkage (putLinkage l) l :=
  decodes_takeVariant (by cases l <;> decide) (by decide)

theorem decodes_takeConvention (c : CallingConvention) :
    Decodes takeConvention (putConvention c) c :=
  decodes_takeVariant (by cases c <;> decide) (by decide)

/-- The number of a form, and what that form is made of. -/
theorem decodes_form {α : Type} {f : Nat → Take α} {n : Nat} {s : Bytes} {a : α} (h : n < 2 ^ 32)
    (hf : Decodes (f n) s a) : Decodes (takeForm >>= f) (putNat n ++ s) a :=
  (decodes_takeNat32 h).bind hf

/-! ## Operands -/

/-- All bits of a number are kept, those of a NaN as well. -/
theorem decodes_takeDouble (x : Double) : Decodes takeDouble (putDouble x) x := by
  have h := (decodes_takeFixed 8 x.bits.toNat_lt).map fun n => Double.mk (.ofNat n)
  rwa [UInt64.ofNat_toNat] at h

/-- The numbers that tell integers from floats stay what they are. -/
theorem decodes_takeLiteral (l : Literal) : Decodes takeLiteral (putLiteral l) l := by
  cases l with
  | int v => exact decodes_form (by decide) ((decodes_takeInt64 v).map Literal.int)
  | float x => exact decodes_form (by decide) ((decodes_takeDouble x).map Literal.float)

/-- An operand is written as the number of its form and what is in it. -/
theorem decodes_takeOperand (o : Operand) : Decodes takeOperand (putOperand o) o := by
  cases o with
  | value name => exact decodes_form (by decide) ((decodes_takeString name).map Operand.value)
  | symbol name => exact decodes_form (by decide) ((decodes_takeString name).map Operand.symbol)
  | constant type literal =>
      rw [putOperand, List.append_assoc]
      exact decodes_form (by decide)
        ((decodes_takeType type).bind ((decodes_takeLiteral literal).map (Operand.constant type)))
  | string content =>
      exact decodes_form (by decide) ((decodes_takeString content).map Operand.string)
  | block label => exact decodes_form (by decide) ((decodes_takeString label).map Operand.block)
  | metadata id => exact decodes_form (by decide) ((decodes_takeUInt32 id).map Operand.metadata)

theorem decodes_takeCallee (c : Callee) : Decodes takeCallee (putCallee c) c := by
  cases c with
  | direct symbol => exact decodes_form (by decide) ((decodes_takeString symbol).map Callee.direct)
  | indirect value =>
      exact decodes_form (by decide) ((decodes_takeString value).map Callee.indirect)

/-! ## Lengths of members -/

/-- What begins with the bytes of something is not empty if those are not. -/
theorem length_append_pos {s : Bytes} (h : 0 < s.length) (t : Bytes) : 0 < (s ++ t).length := by
  rw [List.length_append]
  exact Nat.add_pos_left h _

theorem length_putOption_pos {α : Type} (put : α → Bytes) (o : Option α) :
    0 < (putOption put o).length := by
  cases o with
  | none => exact Nat.one_pos
  | some a => exact Nat.succ_pos _

theorem length_putOperand_pos (o : Operand) : 0 < (putOperand o).length := by
  cases o with
  | constant => exact length_append_pos (length_append_pos (length_putNat_pos 2) _) _
  | _ => exact length_append_pos (length_putNat_pos _) _

theorem length_putAttachment_pos (a : Attachment) : 0 < (putAttachment a).length :=
  length_append_pos (length_putString_pos _) _

/-- An instruction has a byte at least, as has each part of a module; so no count of them is greater
than the number of bytes that are left. -/
theorem length_putInstruction_pos (i : Instruction) : 0 < (putInstruction i).length :=
  length_append_pos (length_append_pos (length_putOption_pos _ _) _) _

theorem length_putBlock_pos (b : Block) : 0 < (putBlock b).length :=
  length_append_pos (length_putString_pos _) _

theorem length_putAttribute_pos (a : Attribute) : 0 < (putAttribute a).length :=
  length_append_pos (length_putString_pos _) _

theorem length_putFunction_pos (f : Function) : 0 < (putFunction f).length := by
  simp only [putFunction, List.append_assoc]
  exact length_append_pos (length_putString_pos _) _

theorem length_putInitializer_pos (i : Initializer) : 0 < (putInitializer i).length := by
  cases i with
  | zero => exact length_putNat_pos 4
  | scalar => exact length_append_pos (length_append_pos (length_putNat_pos 0) _) _
  | array => exact length_append_pos (length_append_pos (length_putNat_pos 2) _) _
  | _ => exact length_append_pos (length_putNat_pos _) _

theorem length_putGlobal_pos (g : GlobalVariable) : 0 < (putGlobal g).length := by
  simp only [putGlobal, List.append_assoc]
  exact length_append_pos (length_putString_pos _) _

theorem length_putDebugRecord_pos (r : DebugRecord) : 0 < (putDebugRecord r).length :=
  length_append_pos (length_putNat_pos _) _

/-! ## Functions -/

/-- A call is told from other operations by its form. -/
theorem decodes_takeAction (a : Action) : Decodes takeAction (putAction a) a := by
  have operands := decodes_takeList decodes_takeOperand length_putOperand_pos
  cases a with
  | call type callee arguments =>
      simp only [putAction, List.append_assoc]
      exact decodes_form (by decide) ((decodes_takeType type).bind
        ((decodes_takeCallee callee).bind ((operands arguments).map (Action.call type callee))))
  | operation opcode os =>
      simp only [putAction, List.append_assoc]
      exact decodes_form (by decide)
        ((decodes_takeString opcode).bind ((operands os).map (Action.operation opcode)))

theorem decodes_takeAttachment (a : Attachment) : Decodes takeAttachment (putAttachment a) a :=
  (decodes_takeString a.kind).bind ((decodes_takeOperand a.value).bind_nil (.pure _))

theorem decodes_takeInstruction (i : Instruction) :
    Decodes takeInstruction (putInstruction i) i := by
  simp only [putInstruction, List.append_assoc]
  exact (decodes_takeOption decodes_takeString i.result).bind ((decodes_takeAction i.action).bind
    ((decodes_takeList decodes_takeAttachment length_putAttachment_pos i.attachments).bind_nil
      (.pure _)))

theorem decodes_takeBlock (b : Block) : Decodes takeBlock (putBlock b) b :=
  (decodes_takeString b.label).bind
    ((decodes_takeList decodes_takeInstruction length_putInstruction_pos b.instructions).bind_nil
      (.pure _))

theorem decodes_takeAttribute (a : Attribute) : Decodes takeAttribute (putAttribute a) a :=
  (decodes_takeString a.key).bind ((decodes_takeString a.value).bind_nil (.pure _))

/-- A function is written member by member, and its body as a list that may be missing. -/
theorem decodes_takeFunction (f : Function) : Decodes takeFunction (putFunction f) f := by
  have blocks := decodes_takeList decodes_takeBlock length_putBlock_pos
  simp only [putFunction, List.append_assoc]
  refine (decodes_takeString f.name).bind ?_
  refine (decodes_takeLinkage f.linkage).bind ?_
  refine (decodes_takeConvention f.convention).bind ?_
  refine (decodes_takeType f.returnType).bind ?_
  refine (decodes_takeList decodes_takeString length_putString_pos f.parameters).bind ?_
  refine (decodes_takeList decodes_takeAttribute length_putAttribute_pos f.attributes).bind ?_
  refine (decodes_takeOption decodes_takeUInt32 f.debug).bind ?_
  exact (decodes_takeOption blocks f.body).bind_nil (.pure _)

/-! ## Global variables -/

/-- Reading goes on in the arrays that are still open, or is done. -/
def resume : Initializer ⊕ List OpenArray → Bytes → Except Fault (Initializer × Bytes)
  | .inl value, rest => .ok (value, rest)
  | .inr outer, rest => takeWithin outer rest

/-- An initializer is taken piece by piece: behind a piece the innermost array goes on. -/
theorem takeWithin_of_piece {outer : List OpenArray} {s rest : Bytes} {p : Piece}
    (h : takePiece s = .ok (p, rest)) : takeWithin outer s = resume (p.placeIn outer) rest := by
  rw [takeWithin]
  split
  · rename_i e
    rw [h] at e
    cases e
  · rename_i e
    rw [h] at e
    cases e
    cases p.placeIn outer with
    | inl value => rfl
    | inr outer => rfl

theorem takeWithin_eq_ok {outer : List OpenArray} {t r : Bytes} {v : Initializer}
    (h : takeWithin outer t = .ok (v, r)) :
    ∃ p t', takePiece t = .ok (p, t') ∧ resume (p.placeIn outer) t' = .ok (v, r) := by
  cases hp : takePiece t with
  | error fault =>
      rw [takeWithin] at h
      split at h
      case h_1 => cases h
      case h_2 e => rw [hp] at e; cases e
  | ok pr => exact ⟨pr.1, pr.2, rfl, by rwa [← takeWithin_of_piece hp]⟩

/-- An initializer that is no array is one piece. -/
theorem decodes_takePiece {i : Initializer} (h : ∀ es, i ≠ .array es) :
    Decodes takePiece (putInitializer i) (.whole i) := by
  cases i with
  | scalar type literal =>
      rw [putInitializer, List.append_assoc]
      exact decodes_form (by decide) ((decodes_takeType type).bind
        ((decodes_takeLiteral literal).bind_nil (.pure _)))
  | symbol name =>
      exact decodes_form (by decide)
        ((decodes_takeString name).map fun n => Piece.whole (.symbol n))
  | string content =>
      exact decodes_form (by decide)
        ((decodes_takeString content).map fun s => Piece.whole (.string s))
  | zero => exact (decodes_takeNat32 (n := 4) (by decide)).bind_nil (.pure _)
  | array elements => exact absurd rfl (h elements)

theorem pins_takePiece_array (size : Nat) :
    Pins takePiece (putNat 2 ++ putNat size) (.array size) :=
  (decodes_takeNat32 (n := 2) (by decide)).pins.bind ((pins_takeNat 1 10 size).map Piece.array)

/-- The beginning of an array is its form and the number of its elements. -/
theorem reads_takePiece_array (size : Nat) (h : size < 2 ^ 64) :
    Reads takePiece (putNat 2 ++ putNat size) (.array size) :=
  (decodes_takeNat32 (n := 2) (by decide)).reads.bind ((reads_takeNat64 h).map Piece.array)

/-- Every element of an array has a byte at least. -/
theorem length_le_length_putInitializers (es : List Initializer) :
    es.length ≤ (putInitializers es).length := by
  induction es with
  | nil => exact Nat.le_refl 0
  | cons e es ih =>
      have := length_putInitializer_pos e
      rw [putInitializers, List.length_append, List.length_cons]
      omega

mutual

/-- An initializer is read in whatever arrays are open, and put into the innermost one. -/
theorem takeWithin_putInitializer (i : Initializer) (hs : (putInitializer i).length < 2 ^ 64)
    (outer : List OpenArray) (rest : Bytes) :
    takeWithin outer (putInitializer i ++ rest) = resume (close i outer) rest := by
  cases i with
  | scalar | symbol | string | zero =>
      exact takeWithin_of_piece ((decodes_takePiece (by nofun)).reads hs rest)
  | array elements =>
      rw [putInitializer, List.length_append, List.length_append] at hs
      have hcount := length_le_length_putInitializers elements
      have opening := reads_takePiece_array elements.length (by omega)
      rw [putInitializer, List.append_assoc,
        takeWithin_of_piece (opening (by rw [List.length_append]; omega) _)]
      cases elements with
      | nil => rfl
      | cons e es =>
          rw [putInitializers, List.length_append] at hs
          rw [putInitializers, List.append_assoc]
          exact (takeWithin_putInitializer e (by omega) (⟨es.length, []⟩ :: outer) _).trans
            (resume_putInitializers es (by omega) e [] outer rest)

/-- Behind an element of an array, the elements that are left are read and the array is finished. -/
theorem resume_putInitializers (es : List Initializer) (hs : (putInitializers es).length < 2 ^ 64)
    (e : Initializer) (before : List Initializer) (outer : List OpenArray) (rest : Bytes) :
    resume (close e (⟨es.length, before⟩ :: outer)) (putInitializers es ++ rest) =
      resume (close (.array (before.reverse ++ e :: es)) outer) rest := by
  cases es with
  | nil => rw [List.length_nil, close, List.reverse_cons]; rfl
  | cons e' es =>
      rw [putInitializers, List.length_append] at hs
      have next := resume_putInitializers es (by omega) e' (e :: before) outer rest
      rw [List.reverse_cons, List.append_assoc] at next
      rw [putInitializers, List.append_assoc]
      exact (takeWithin_putInitializer e' (by omega)
        (⟨es.length, e :: before⟩ :: outer) _).trans next

end

mutual

/-- Where reading goes along with an initializer and succeeds, it has read the whole of it. -/
theorem resume_of_takeWithin (i : Initializer) (outer : List OpenArray) {t r : Bytes}
    {v : Initializer} (h : takeWithin outer t = .ok (v, r)) (ht : Along (putInitializer i) t) :
    ∃ t', t = putInitializer i ++ t' ∧ resume (close i outer) t' = .ok (v, r) := by
  obtain ⟨p, t₁, hp, h₁⟩ := takeWithin_eq_ok h
  cases i with
  | scalar | symbol | string | zero =>
      obtain ⟨rfl, rfl⟩ := (decodes_takePiece (by nofun)).pins _ _ _ hp ht
      exact ⟨t₁, rfl, h₁⟩
  | array elements =>
      rw [putInitializer] at ht ⊢
      obtain ⟨rfl, rfl⟩ := pins_takePiece_array _ _ _ _ hp ht.left
      have ht₁ := ht.right
      cases elements with
      | nil => exact ⟨t₁, by rw [putInitializers, List.append_nil], h₁⟩
      | cons e es =>
          rw [putInitializers] at ht₁ ⊢
          obtain ⟨t₂, rfl, h₂⟩ :=
            resume_of_takeWithin e (⟨es.length, []⟩ :: outer) h₁ ht₁.left
          obtain ⟨t₃, rfl, h₃⟩ := resume_of_resume es h₂ ht₁.right
          exact ⟨t₃, by simp only [List.append_assoc], h₃⟩

/-- If the elements that are left of an array are taken, their bytes are there. -/
theorem resume_of_resume (es : List Initializer) {e v : Initializer} {before : List Initializer}
    {outer : List OpenArray} {t r : Bytes}
    (h : resume (close e (⟨es.length, before⟩ :: outer)) t = .ok (v, r))
    (ht : Along (putInitializers es) t) :
    ∃ t', t = putInitializers es ++ t' ∧
      resume (close (.array (before.reverse ++ e :: es)) outer) t' = .ok (v, r) := by
  cases es with
  | nil =>
      rw [List.length_nil, close, List.reverse_cons] at h
      exact ⟨t, rfl, h⟩
  | cons e' es =>
      rw [putInitializers] at ht ⊢
      obtain ⟨t₁, rfl, h₁⟩ :=
        resume_of_takeWithin e' (⟨es.length, e :: before⟩ :: outer) h ht.left
      obtain ⟨t₂, rfl, h₂⟩ := resume_of_resume es h₁ ht.right
      rw [List.reverse_cons, List.append_assoc] at h₂
      exact ⟨t₂, (List.append_assoc _ _ _).symm, h₂⟩

end

theorem decodes_takeInitializer (i : Initializer) :
    Decodes takeInitializer (putInitializer i) i := by
  refine ⟨fun hs rest => takeWithin_putInitializer i hs [] rest, fun t v r h ht => ?_⟩
  obtain ⟨t', rfl, h'⟩ := resume_of_takeWithin i [] h ht
  cases h'
  exact ⟨rfl, rfl⟩

theorem decodes_takeGlobal (g : GlobalVariable) : Decodes takeGlobal (putGlobal g) g := by
  simp only [putGlobal, List.append_assoc]
  refine (decodes_takeString g.name).bind ?_
  refine (decodes_takeLinkage g.linkage).bind ?_
  refine (decodes_takeBool g.isConstant).bind ?_
  exact (decodes_takeOption decodes_takeInitializer g.initializer).bind_nil (.pure _)

/-! ## Modules -/

theorem decodes_takeDebugEntry (e : DebugEntry) : Decodes takeDebugEntry (putDebugEntry e) e := by
  cases e with
  | compileUnit file =>
      exact decodes_form (by decide) ((decodes_takeString file).map DebugEntry.compileUnit)
  | subprogram name unit =>
      rw [putDebugEntry, List.append_assoc]
      exact decodes_form (by decide) ((decodes_takeString name).bind
        ((decodes_takeUInt32 unit).map (DebugEntry.subprogram name)))

theorem decodes_takeDebugRecord (r : DebugRecord) : Decodes takeDebugRecord (putDebugRecord r) r :=
  (decodes_takeUInt32 r.id).bind ((decodes_takeDebugEntry r.entry).bind_nil (.pure _))

/-- A module is written as its name, its globals, its functions and its records. -/
theorem decodes_takeModule (m : Module) : Decodes takeModule (putModule m) m := by
  simp only [putModule, List.append_assoc]
  refine (decodes_takeOption decodes_takeString m.sourceName).bind ?_
  refine (decodes_takeList decodes_takeGlobal length_putGlobal_pos m.globals).bind ?_
  refine (decodes_takeList decodes_takeFunction length_putFunction_pos m.functions).bind ?_
  exact (decodes_takeList decodes_takeDebugRecord length_putDebugRecord_pos m.debugRecords).bind_nil
    (.pure _)

theorem reads_takeModule (m : Module) : Reads takeModule (putModule m) m :=
  (decodes_takeModule m).reads

end Binary

namespace Module

open Binary

/-- The number of bytes of a module does not get greater without the signature. -/
theorem length_putModule_lt {m : Module} (h : m.toBytes.length < 2 ^ 64) :
    (putModule m).length < 2 ^ 64 := by
  rw [toBytes, List.length_append] at h
  omega

/-- The signature tells a module in binary form. -/
theorem isBinary_signed (bytes : Bytes) : isBinary (magic ++ putFixed 2 version ++ bytes) := by
  rw [isBinary, List.isPrefixOf_iff_prefix, List.append_assoc]
  exact List.prefix_append _ _

/-- Behind the signature and the version stand the bytes of the module. -/
theorem ofBytes_signed {bytes rest : Bytes} {m : Module} (h : takeModule bytes = .ok (m, rest)) :
    ofBytes (magic ++ putFixed 2 version ++ bytes) = .ok m := by
  have hdrop : (magic ++ putFixed 2 version ++ bytes).drop magic.length =
      putFixed 2 version ++ bytes := by
    rw [List.append_assoc, List.drop_left]
  have hversion := (decodes_takeFixed 2 (n := version) (by decide)).reads (by decide) bytes
  rw [ofBytes, isBinary_signed, hdrop, hversion]
  simp [h]

/-- The bytes of a module are read as that module. -/
theorem ofBytes_toBytes {m : Module} (h : m.toBytes.length < 2 ^ 64) :
    ofBytes m.toBytes = .ok m := by
  have hread := reads_takeModule m (length_putModule_lt h) []
  rw [List.append_nil] at hread
  exact ofBytes_signed hread

/-- The bytes of a module, whatever follows them, are read as that module, bit for bit.  Lengths
are written in 64 bits, which the bytes of a module have to do with. -/
theorem ofBytes_toBytes_append (m : Module) (rest : Bytes) (h : m.toBytes.length < 2 ^ 64) :
    ofBytes (m.toBytes ++ rest) = .ok m := by
  rw [toBytes, List.append_assoc]
  exact ofBytes_signed (reads_takeModule m (length_putModule_lt h) rest)

/-- Names that clash, a NaN with a payload, the least number, and arrays in an array. -/
def oddities : Module where
  sourceName := some "é\n"
  globals := [
    ⟨"x", .internal, true, some (.array [.scalar .f32 (.float ⟨0xfff0000000000001⟩), .array [],
      .array [.zero, .symbol "x"], .string ""])⟩,
    ⟨"x", .weakODR, false, none⟩]
  functions := [
    ⟨"x", .external, .kernel, .ptr, ["a", "a"], [⟨"", "\""⟩], some 0xffffffff, some [
      ⟨"", [⟨some "", .call .void (.indirect "") [.constant .i64 (.int Int64.minValue),
        .metadata 128], [⟨"k", .block ""⟩]⟩]⟩,
      ⟨"", []⟩]⟩]
  debugRecords := [⟨300, .subprogram "f" 300⟩, ⟨300, .compileUnit ""⟩]

/-- A module that no text can express is read from its bytes, and bytes behind it do not matter. -/
theorem ofBytes_toBytes_oddities :
    oddities.toBytes.length < 2 ^ 64 ∧
      ofBytes (oddities.toBytes ++ [0xff, 0x00]) = .ok oddities := by
  have h : oddities.toBytes.length < 2 ^ 64 := by decide +kernel
  exact ⟨h, ofBytes_toBytes_append oddities [0xff, 0x00] h⟩

end Module

end DeviceCode
