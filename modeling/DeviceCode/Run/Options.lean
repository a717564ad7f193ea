import DeviceCode.File.Path
import DeviceCode.Partition.KernelGroups
import DeviceCode.Run.Error

/-!
# Options of a run

What is read, what is done with it, and the names of the files that are written.
-/

namespace DeviceCode

structure Options where
  /-- The input, `-` for the standard input. -/
  input : String
  /-- The file table, or the module if a single module is written. -/
  output : Option String
  /-- The directory of the other files. -/
  outDir : Option String
  /-- Whether binary output may go to a terminal. -/
  force : Bool
  singleModule : Bool
  /-- Whether modules are written as text. -/
  assembly : Bool
  split : Option Granularity
  symbols : Bool
  specConstants : Option SpecConstant.Mode
deriving DecidableEq, Repr

namespace Options

def standard : Options := ⟨"-", none, none, false, false, false, none, false, none⟩

def validate (o : Options) : Except UsageError Unit :=
  if o.split.isNone && o.specConstants.isNone && !o.symbols then .error .noAction
  else if o.singleModule && o.split.isSome then .error .splitSingleModule
  else if o.singleModule && o.symbols then .error .symbolsSingleModule
  else .ok ()

/-- The output, by default named after the input, in the working directory. -/
def outputPath (o : Options) : String :=
  match o.output with
  | some path => path
  | none => (Path.fileStem? o.input).getD "-" ++ ".files"

/-- The directory of the other files, by default that of the output. -/
def resultDirectory (o : Options) : String :=
  match o.outDir with
  | some directory => directory
  | none => (Path.parent? o.outputPath).getD ""

def codeExtension (o : Options) : String := if o.assembly then ".ll" else ".bc"

/-- The path of the file for the module of a number, by its extension. -/
def resultPath (o : Options) (extension : String) (index : Nat) : String :=
  Path.join o.resultDirectory
    ((Path.fileStem? o.outputPath).getD "" ++ "_" ++ index.repr ++ extension)

/-- How kernels are grouped: by source unless each is to have a module of its own. -/
def granularity (o : Options) : Granularity := o.split.getD .source

end Options

end DeviceCode
