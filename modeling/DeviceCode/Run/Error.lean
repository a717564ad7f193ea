import DeviceCode.Assembly.Reading
import DeviceCode.Binary.Container
import DeviceCode.File.Tree
import DeviceCode.Output.Table
import DeviceCode.SpecConstant.Lowering
import DeviceCode.Text.Utf8

/-!
# Why a run fails

Each failure has a message of one line, which names the file or the function it is about.
-/

namespace DeviceCode

/-- Options that do not go together. -/
inductive UsageError where
  | noAction
  | splitSingleModule
  | symbolsSingleModule
deriving DecidableEq, Repr

def UsageError.message : UsageError → String
  | noAction => "no actions specified; try --help for usage info"
  | splitSingleModule => "--split can't be used with --ir-output-only"
  | symbolsSingleModule => "--symbols can't be used with --ir-output-only"

/-- Why a run fails. Of the paths only the one that the failure is about is kept. -/
inductive RunError where
  | usage (error : UsageError)
  | file (path : String) (fault : FileFault)
  | syntaxError (path : String) (diagnostic : Assembly.Diagnostic)
  | notText (path : String) (fault : Utf8Fault)
  | binary (path : String) (error : Binary.ReadError)
  | table (error : TableError)
  | specConstant (failure : SpecConstant.Failure)
  /-- The standard output is a terminal, and a binary module was not asked for by force. -/
  | binaryToTerminal
deriving DecidableEq, Repr

def SpecConstant.Failure.message : SpecConstant.Failure → String
  | malformedCall function reason =>
    "specialization constant in '" ++ function ++ "': " ++ reason.message
  | idsExhausted => "attempt to add with overflow"

def RunError.message : RunError → String
  | usage error => error.message
  | file path fault => "error opening the file '" ++ path ++ "': " ++ fault.message
  | syntaxError path diagnostic => path ++ ":" ++ diagnostic.message
  | notText path fault => path ++ ":1:1: input is not valid UTF-8: " ++ fault.message
  | binary path error => path ++ ": invalid binary module: " ++ error.message
  | table error => "file table: " ++ error.message
  | specConstant failure => failure.message
  | binaryToTerminal => "refusing to write binary IR to a terminal; use -f to force it"

/-- The module in the content of a file, which is binary or text. -/
def Module.ofContent (path : String) (content : List UInt8) : Except RunError Module :=
  if Binary.isBinary content then (Module.ofBytes content).mapError (.binary path)
  else
    match Utf8.fault? content, String.fromUTF8? ⟨content.toArray⟩ with
    | none, some text => (Module.read text).mapError (.syntaxError path)
    | some fault, _ => .error (.notText path fault)
    | none, none => .error (.notText path (.incomplete content.length))

end DeviceCode
