import DeviceCode.Binary.Encoding

/-!
# Binary modules

A binary module is a signature of four bytes, the number of the format, and the module. What follows
the module is ignored.
-/

namespace DeviceCode

namespace Binary

/-- The bytes of `DVBC`. -/
def magic : Bytes := [0x44, 0x56, 0x42, 0x43]

/-- The number of the format that is written and read, in two bytes. -/
def version : Nat := 1

def isBinary (bytes : Bytes) : Bool := magic.isPrefixOf bytes

/-- Why bytes are no binary module. -/
inductive ReadError where
  | noSignature
  | unsupportedVersion (found : Nat)
  | malformed (fault : Fault)
deriving DecidableEq, Repr

def ReadError.message : ReadError → String
  | noSignature => "missing 'DVBC' signature"
  | unsupportedVersion found =>
    "unsupported format version " ++ found.repr ++ " (expected " ++ version.repr ++ ")"
  | malformed fault => fault.message

end Binary

open Binary

def Module.toBytes (m : Module) : Bytes := magic ++ putFixed 2 version ++ putModule m

/-- The module behind the signature and the number of the format, whatever follows it. -/
def Module.ofBytes (bytes : Bytes) : Except ReadError Module :=
  if !isBinary bytes then .error .noSignature
  else
    match takeFixed 2 (bytes.drop magic.length) with
    | .error fault => .error (.malformed fault)
    | .ok (found, rest) =>
      if found ≠ version then .error (.unsupportedVersion found)
      else
        match takeModule rest with
        | .error fault => .error (.malformed fault)
        | .ok (m, _) => .ok m

end DeviceCode
