import DeviceCode.Run.Session

/-!
# The program

Runs on the files and streams of the process.
-/

open DeviceCode

namespace DeviceCode.Program

def usage : String :=
  "Usage: sycl-post-link [OPTIONS] [INPUT]\n\n" ++
  "  INPUT                     module as text or binary, - for standard input\n" ++
  "  -o, --output FILE         file table, or the module with --ir-output-only\n" ++
  "      --out-dir DIR         directory of the files in the table\n" ++
  "  -f, --force               allow binary output on terminals\n" ++
  "      --ir-output-only      write a single module and nothing else\n" ++
  "  -S                        write modules as text\n" ++
  "      --split MODE          split by source or by kernel\n" ++
  "      --symbols             write lists of kernel names\n" ++
  "      --spec-const MODE     lower specialization constants, rt or default\n" ++
  "  -h, --help                show this text\n" ++
  "  -V, --version             show the version\n"

/-- The faults that a message tells apart; all others keep the words of the system. -/
def faultOf : IO.Error → FileFault
  | .noFileOrDirectory .. => .notFound
  | .inappropriateType .. => .notADirectory
  | e => .other (toString e)

/-- Does an action that opens a file. -/
def attempt {α : Type} (action : IO α) : IO (Except FileFault α) := do
  try
    return .ok (← action)
  catch e =>
    return .error (faultOf e)

/-- A dash stands for the standard input. No file has a name with a NUL in it. -/
def readFile (path : String) : IO (Except FileFault (List UInt8)) := do
  if path.toList.contains '\x00' then return .error .containsNul
  attempt do
    let bytes ← if path = "-" then (← IO.getStdin).readBinToEnd else IO.FS.readBinFile path
    return bytes.toList

/-- A dash stands for the standard output, which is flushed before the next file is written. -/
def writeFile (path : String) (content : List UInt8) : IO (Except FileFault Unit) := do
  if path.toList.contains '\x00' then return .error .containsNul
  attempt do
    let bytes := ByteArray.mk content.toArray
    if path = "-" then
      let out ← IO.getStdout
      out.write bytes
      out.flush
    else IO.FS.writeBinFile path bytes

/-- The files and streams of the process. -/
def host : Host IO where
  read := readFile
  write := writeFile
  isTerminal := do (← IO.getStdout).isTty

end DeviceCode.Program

open DeviceCode.Program in
def main (arguments : List String) : IO UInt32 := do
  match CommandLine.read arguments with
  | none =>
    IO.eprint usage
    return CommandLine.exitCode .misused
  | some .help =>
    IO.print usage
    return CommandLine.exitCode .helped
  | some .version =>
    IO.print CommandLine.versionText
    return CommandLine.exitCode .versioned
  | some (.run o) =>
    let result ← o.runOn host
    if let .error e := result then IO.eprint (CommandLine.errorLine e)
    return CommandLine.exitCode (.finished result)
