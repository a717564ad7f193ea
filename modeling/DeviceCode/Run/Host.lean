import DeviceCode.Run.Plan

/-!
# Runs

A run reads its input, makes its plan and carries it out, in whichever world its host stands for. It
stops at the first file that is refused, since it would go to a terminal, or cannot be opened.
-/

namespace DeviceCode

/-- What a run asks of the world it runs in. -/
structure Host (m : Type → Type) where
  read : String → m (Except FileFault (List UInt8))
  write : String → List UInt8 → m (Except FileFault Unit)
  /-- Whether the standard output is a terminal. -/
  isTerminal : m Bool

section Host

variable {m : Type → Type} [Monad m]

namespace Host

/-- Whether a file is refused: it would go to a terminal and may not. -/
def refuses (host : Host m) (a : Artifact) : m Bool :=
  if a.guarded && a.path == "-" then host.isTerminal else pure false

/-- Writes files in order up to the first that is refused or cannot be opened. -/
def writeAll (host : Host m) : List Artifact → m (Except RunError Unit)
  | [] => return .ok ()
  | a :: as => do
    if ← host.refuses a then return .error .binaryToTerminal
    else
      match ← host.write a.path a.content with
      | .error fault => return .error (.file a.path fault)
      | .ok () => host.writeAll as

/-- Carries a plan out. -/
def perform (host : Host m) (p : Plan) : m (Except RunError Outcome) := do
  match ← host.writeAll p.writes with
  | .error e => return .error e
  | .ok () => return p.result

end Host

/-- Nothing is read unless the options go together. -/
def Options.runOn (o : Options) (host : Host m) : m (Except RunError Outcome) :=
  match o.validate with
  | .error e => return .error (.usage e)
  | .ok () => do host.perform (o.planContent (← host.read o.input))

end Host

/-! ## Stores -/

/-- Places where files are read and written, as they are in a state. -/
structure FileStore (σ : Type) where
  read : σ → String → Except FileFault (List UInt8)
  write : σ → String → List UInt8 → Except FileFault σ
  /-- Whether the standard output is a terminal. -/
  isTerminal : Bool

namespace FileStore

variable {σ : Type}

/-- A store as a host. A file that cannot be opened leaves the store as it is. -/
def host (fs : FileStore σ) : Host (StateM σ) where
  read path := return fs.read (← get) path
  write path content := do
    match fs.write (← get) path content with
    | .error fault => return .error fault
    | .ok s =>
      set s
      return .ok ()
  isTerminal := return fs.isTerminal

/-- The state that an action leaves, and what it gives. -/
def after {α : Type} (action : StateM σ α) (s : σ) : σ × α :=
  let (a, s) := action.run s
  (s, a)

def writeAll (fs : FileStore σ) (s : σ) (as : List Artifact) : σ × Except RunError Unit :=
  after (fs.host.writeAll as) s

def perform (fs : FileStore σ) (s : σ) (p : Plan) : σ × Except RunError Outcome :=
  after (fs.host.perform p) s

end FileStore

/-- Runs on a store. -/
def Options.run {σ : Type} (o : Options) (fs : FileStore σ) (s : σ) :
    σ × Except RunError Outcome :=
  FileStore.after (o.runOn fs.host) s

end DeviceCode
