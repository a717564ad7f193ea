import DeviceCode.Assembly.Entity

/-!
# Reading a module

A text is scanned to its end or its first fault of syntax, and then the trace of its names is
checked. A fault of the names that were read comes before the fault of syntax behind them; names
that may be defined anywhere are resolved when all else is right.
-/

namespace DeviceCode

namespace Assembly

/-- Reads a module from the characters of a text. -/
def readChars (text : List Char) : Except Fault Module :=
  match Scan.entities ⟨text, []⟩ with
  | .ok entities c => do
    let scope ← checkTrace c.trace.reverse
    scope.close
    pure (Module.ofEntities entities)
  | .error fault c => do
    let _ ← checkTrace c.trace.reverse
    throw fault

end Assembly

/-- Reads a module from its written form. -/
def Module.read (text : String) : Except Assembly.Diagnostic Module :=
  (Assembly.readChars text.toList).mapError (·.diagnostic text.toList)

end DeviceCode
