import DeviceCode.Assembly.Fault

/-!
# Names and their scopes

Reading a text leaves a trace of what it does with names, in the order of the text. Symbols and
debug records may be used before they are defined anywhere in the text; values and blocks before
they are defined in the same body. `checkTrace` finds the first definition or the first end of a
body that breaks these rules, and `Scope.close` the first unresolved name at the end of the text.
-/

namespace DeviceCode.Assembly

/-- What a text does with a name. -/
inductive Act where
  | defineSymbol (name : String)
  | useSymbol (name : String)
  | defineMetadata (id : UInt32)
  | useMetadata (id : UInt32)
  | beginFunction
  | defineParameter (name : String)
  | defineValue (name : String)
  | useValue (name : String)
  | defineBlock (label : String)
  | useBlock (label : String)
  | endBody
deriving DecidableEq, Repr

/-- An act at the place where the name is written. -/
structure Occurrence where
  act : Act
  place : Place
deriving DecidableEq, Repr

/-- Names of one kind: those defined so far, and the uses that wait for a definition. -/
structure Names (α : Type) where
  defined : List α
  used : List (α × Place)

namespace Names

variable {α : Type} [DecidableEq α]

def empty : Names α := ⟨[], []⟩

def define (names : Names α) (name : α) (fault : Fault) : Except Fault (Names α) :=
  if name ∈ names.defined then .error fault
  else .ok { names with defined := name :: names.defined }

def use (names : Names α) (name : α) (place : Place) : Names α :=
  { names with used := (name, place) :: names.used }

/-- Faults at the first use, in the order of the text, of a name that is not defined. -/
def resolve (names : Names α) (cause : α → Cause) : Except Fault Unit :=
  match names.used.reverse.find? (fun u => !decide (u.1 ∈ names.defined)) with
  | some (name, place) => .error ⟨cause name, place⟩
  | none => .ok ()

end Names

/-- The names known at a place: those of the module, and those of the function around it. -/
structure Scope where
  symbols : Names String
  metadata : Names UInt32
  values : Names String
  blocks : Names String

namespace Scope

def empty : Scope := ⟨.empty, .empty, .empty, .empty⟩

def step (s : Scope) : Occurrence → Except Fault Scope
  | ⟨.defineSymbol name, place⟩ => do
    let symbols ← s.symbols.define name ⟨.redefinedSymbol name, place⟩
    pure { s with symbols := symbols }
  | ⟨.useSymbol name, place⟩ => pure { s with symbols := s.symbols.use name place }
  | ⟨.defineMetadata id, place⟩ => do
    let metadata ← s.metadata.define id ⟨.redefinedMetadata id, place⟩
    pure { s with metadata := metadata }
  | ⟨.useMetadata id, place⟩ => pure { s with metadata := s.metadata.use id place }
  | ⟨.beginFunction, _⟩ => pure { s with values := .empty, blocks := .empty }
  | ⟨.defineParameter name, place⟩ => do
    let values ← s.values.define name ⟨.duplicateParameter name, place⟩
    pure { s with values := values }
  | ⟨.defineValue name, place⟩ => do
    let values ← s.values.define name ⟨.redefinedValue name, place⟩
    pure { s with values := values }
  | ⟨.useValue name, place⟩ => pure { s with values := s.values.use name place }
  | ⟨.defineBlock label, place⟩ => do
    let blocks ← s.blocks.define label ⟨.redefinedBlock label, place⟩
    pure { s with blocks := blocks }
  | ⟨.useBlock label, place⟩ => pure { s with blocks := s.blocks.use label place }
  | ⟨.endBody, _⟩ => do
    s.values.resolve .undefinedValue
    s.blocks.resolve .undefinedBlock
    pure s

/-- Resolves the names that may be defined anywhere in the text. -/
def close (s : Scope) : Except Fault Unit := do
  s.symbols.resolve .undefinedSymbol
  s.metadata.resolve .undefinedMetadata

end Scope

/-- The scope after a trace, or its first fault. -/
def checkTrace (trace : List Occurrence) : Except Fault Scope := trace.foldlM Scope.step .empty

end DeviceCode.Assembly
