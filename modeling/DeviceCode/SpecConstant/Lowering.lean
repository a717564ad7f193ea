import DeviceCode.Cleanup
import DeviceCode.SpecConstant.Ids

/-!
# Lowering specialization constants

When constants are set at run time, every string ID gets a number, in the order in which the IDs are
met and after the numbers already given, and its symbolic calls become lowered calls. Else the calls
are deleted and their results replaced by zeros. A failure leaves the functions and blocks that were
finished as they are then, and the block with the fault without instructions.
-/

namespace DeviceCode

namespace SpecConstant

/-- When specialization constants get their values. -/
inductive Mode where
  | runtime | default
deriving DecidableEq, Repr

/-- What is wrong with a symbolic call. -/
inductive Reason where
  | notOneString (callee : String)
  | unsupportedType (type : ValueType) (id : String)
deriving DecidableEq, Repr

def Reason.message : Reason → String
  | notOneString callee => "@" ++ callee ++ " expects a single string literal ID argument"
  | unsupportedType type id =>
    "unsupported type '" ++ type.name ++ "' for specialization constant \"" ++ id ++ "\""

inductive Failure where
  | malformedCall (function : String) (reason : Reason)
  /-- There is no number of 32 bits left. -/
  | idsExhausted
deriving DecidableEq, Repr

/-- A well-formed symbolic call. -/
structure SymbolicCall where
  id : String
  type : ValueType
  zero : Literal
deriving DecidableEq, Repr

/-- The zero of a type that a specialization constant may have. -/
def zeroOf? : ValueType → Option Literal
  | .void | .ptr => none
  | type => type.zero?

/-- The symbolic call that an instruction is, if it is one. -/
def symbolicCall? (i : Instruction) : Except Reason (Option SymbolicCall) :=
  match i.action with
  | .call type (.direct callee) arguments =>
    if isSymbolicName callee then
      match arguments with
      | [.string id] =>
        match zeroOf? type with
        | some zero => .ok (some ⟨id, type, zero⟩)
        | none => .error (.unsupportedType type id)
      | _ => .error (.notOneString callee)
    else .ok none
  | _ => .ok none

def SymbolicCall.zeroOperand (c : SymbolicCall) : Operand := .constant c.type c.zero

/-- The lowered form of a symbolic call. -/
def SymbolicCall.lower (c : SymbolicCall) (id : UInt32) (i : Instruction) : Instruction where
  result := i.result
  action := .call c.type (.direct (numberedName c.type))
    [.constant .i32 (.int (.ofInt id.toNat)), c.zeroOperand]
  attachments := i.attachments ++ [⟨attachmentKind, .string c.id⟩]

/-- The number after `n`. -/
def nextId? (n : UInt32) : Option UInt32 := if n.toNat + 1 < UInt32.size then some (n + 1) else none

/-- The number after all that are given, or zero. -/
def freeId? (ids : SpecIds) : Option UInt32 :=
  match ids.values with
  | [] => some 0
  | v :: vs => nextId? (vs.foldl max v)

/-- How far a lowering has come: the numbers given, the next one, the types of lowered calls in the
order of their first use, whether any call was met, and the zeros for the results of the calls that
were deleted from the current function. -/
structure Progress where
  ids : SpecIds
  next : UInt32
  types : List ValueType
  changed : Bool
  zeros : List (String × Operand)

namespace Progress

/-- The number of a constant, a new one if it has none. -/
def idFor (p : Progress) (name : String) : Except Failure (UInt32 × Progress) :=
  match p.ids.get? name with
  | some id => .ok (id, p)
  | none =>
    match nextId? p.next with
    | none => .error .idsExhausted
    | some next => .ok (p.next, { p with ids := p.ids.insert name p.next, next := next })

def noteType (p : Progress) (type : ValueType) : Progress :=
  if type ∈ p.types then p else { p with types := p.types ++ [type] }

def noteZero (p : Progress) (result : Option String) (zero : Operand) : Progress :=
  match result with
  | some name => { p with zeros := p.zeros ++ [(name, zero)] }
  | none => p

end Progress

/-- What becomes of an instruction of the function of that name: nothing, or one instruction. -/
def lowerInstruction (mode : Mode) (function : String) (p : Progress) (i : Instruction) :
    Except Failure (Option Instruction × Progress) :=
  match symbolicCall? i with
  | .error reason => .error (.malformedCall function reason)
  | .ok none => .ok (some i, p)
  | .ok (some c) =>
    let p := { p with changed := true }
    match mode with
    | .default => .ok (none, p.noteZero i.result c.zeroOperand)
    | .runtime => do
      let (id, p) ← p.idFor c.id
      pure (some (c.lower id i), p.noteType c.type)

def lowerInstructions (mode : Mode) (function : String) :
    Progress → List Instruction → Except Failure (List Instruction × Progress)
  | p, [] => .ok ([], p)
  | p, i :: is => do
    let (new, p) ← lowerInstruction mode function p i
    let (news, p) ← lowerInstructions mode function p is
    pure (new.toList ++ news, p)

/-- Updates the members of a list from left to right until an update fails, and leaves the members
behind that one as they are. -/
def sweep {σ ε α : Type} (update : σ → α → α × Except ε σ) : σ → List α → List α × Except ε σ
  | s, [] => ([], .ok s)
  | s, a :: as =>
    match update s a with
    | (a', .error e) => (a' :: as, .error e)
    | (a', .ok s') =>
      let (as', r) := sweep update s' as
      (a' :: as', r)

def lowerBlock (mode : Mode) (function : String) (p : Progress) (b : Block) :
    Block × Except Failure Progress :=
  match lowerInstructions mode function p b.instructions with
  | .ok (instructions, p) => ({ b with instructions := instructions }, .ok p)
  | .error e => ({ b with instructions := [] }, .error e)

/-- Replaces the uses of deleted results. -/
def substituteZeros (zeros : List (String × Operand)) (f : Function) : Function :=
  zeros.foldl (fun f z => f.mapInstructions (Instruction.substitute z.1 z.2)) f

def lowerFunction (mode : Mode) (p : Progress) (f : Function) :
    Function × Except Failure Progress :=
  match f.body with
  | none => (f, .ok p)
  | some blocks =>
    match sweep (lowerBlock mode f.name) { p with zeros := [] } blocks with
    | (blocks, .error e) => ({ f with body := some blocks }, .error e)
    | (blocks, .ok p) => (substituteZeros p.zeros { f with body := some blocks }, .ok p)

end SpecConstant

namespace Module

open SpecConstant

/-- Declares the intrinsic for numbered constants of a type, unless a function has its name. -/
def declareNumbered (m : Module) (type : ValueType) : Module :=
  if (m.function? (numberedName type)).isSome then m
  else { m with functions :=
    m.functions ++ [Function.declaration (numberedName type) type ["id", "default"]] }

/-- Lowers all symbolic calls. Gives the module that is left, and whether it was changed or why the
lowering failed. -/
def lowerSpecConstants (m : Module) (mode : Mode) : Module × Except Failure Bool :=
  match freeId? m.specIds with
  | none => (m, .error .idsExhausted)
  | some next =>
    match sweep (lowerFunction mode) ⟨m.specIds, next, [], false, []⟩ m.functions with
    | (functions, .error e) => ({ m with functions := functions }, .error e)
    | (functions, .ok p) =>
      let swept : Module := { m with functions := functions }
      if p.changed then
        ((p.types.foldl declareNumbered swept).dropPrototypes isSymbolicName, .ok true)
      else (swept, .ok false)

end Module

end DeviceCode
