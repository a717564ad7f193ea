import DeviceCode.File.Tree
import DeviceCode.Run.CommandLine
import DeviceCode.Run.Host

/-!
# Sessions

What a program with a directory tree and standard streams does for its arguments: it answers them,
or runs and writes files, and ends with an exit code and a line on the error stream.
-/

namespace DeviceCode

/-- A directory tree and the standard streams; the path `-` stands for them. -/
structure Session where
  tree : FileTree
  input : List UInt8
  output : List UInt8

namespace Session

def read (s : Session) (path : String) : Except FileFault (List UInt8) :=
  if path = "-" then .ok s.input else s.tree.read path

def write (s : Session) (path : String) (content : List UInt8) : Except FileFault Session :=
  if path = "-" then .ok { s with output := s.output ++ content }
  else (s.tree.write path content).map fun tree => { s with tree := tree }

/-- The sessions whose standard output is a terminal, or those where it is not. -/
def storeOn (terminal : Bool) : FileStore Session := ⟨read, write, terminal⟩

/-- The sessions whose standard output is no terminal. -/
def store : FileStore Session := storeOn false

end Session

/-- How a program ends. -/
inductive Ending where
  | helped
  | versioned
  | misused
  | finished (result : Except RunError Outcome)

namespace CommandLine

/-- What the program calls itself. -/
def programName : String := "sycl-post-link"

def versionText : String := programName ++ " 0.1.0\n"

/-- The line on the error stream for a failure. -/
def errorLine (e : RunError) : String := programName ++ ": " ++ e.message ++ "\n"

/-- Whether a failure is a limit of the program and not a fault of its input. -/
def isCrash : RunError → Bool
  | .specConstant .idsExhausted => true
  | _ => false

def exitCode : Ending → UInt32
  | .helped | .versioned | .finished (.ok _) => 0
  | .misused => 1
  | .finished (.error e) => if isCrash e then 101 else 1

/-- What the program does for its arguments, on a terminal or not. -/
def performOn (terminal : Bool) (arguments : List String) (s : Session) : Session × Ending :=
  match read arguments with
  | none => (s, .misused)
  | some .help => (s, .helped)
  | some .version => ({ s with output := s.output ++ utf8 versionText }, .versioned)
  | some (.run o) =>
    let (s, result) := o.run (Session.storeOn terminal) s
    (s, .finished result)

def perform (arguments : List String) (s : Session) : Session × Ending :=
  performOn false arguments s

end CommandLine

end DeviceCode
