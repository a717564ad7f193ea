import DeviceCode.Module.Basic
import DeviceCode.Text.Escape

/-!
# What can be wrong with a text

A fault is a cause at a place. A place is what remains of the text from there on, so it needs no
counting while reading; `location` counts lines and columns in the end.
-/

namespace DeviceCode.Assembly

open Text (shownNext)

/-- The text from a place on. -/
abbrev Place := List Char

inductive Cause where
  | expectedLineEnd (found : Option Char)
  | expectedChar (expected : Char) (found : Option Char)
  | expectedName (found : Option Char)
  | expectedKeyword (found : Option Char)
  | expectedNumber
  | expectedTopLevel (word : String)
  | expectedVariableKind (word : String)
  | expectedInitializer (word : String)
  | expectedReturnType (word : String)
  | expectedDebugAttachment
  | expectedCallee (found : Option Char)
  | expectedOperand
  | unterminatedString
  | invalidEscape (found : Option Char)
  | numberTooLarge
  | unknownType (word : String)
  | invalidLiteral (type : ValueType) (word : String)
  | unknownDebugEntry (word : String)
  | unclosedBody (function : String)
  | variableDeclarationLinkage (name : String)
  | functionDeclarationLinkage
  | redefinedSymbol (name : String)
  | redefinedValue (name : String)
  | redefinedBlock (label : String)
  | redefinedMetadata (id : UInt32)
  | duplicateParameter (name : String)
  | undefinedSymbol (name : String)
  | undefinedValue (name : String)
  | undefinedBlock (label : String)
  | undefinedMetadata (id : UInt32)
deriving DecidableEq, Repr

def Cause.message : Cause → String
  | expectedLineEnd found => "expected end of line but found " ++ shownNext found
  | expectedChar expected found =>
    "expected '" ++ expected.toString ++ "' but found " ++ shownNext found
  | expectedName found => "expected name but found " ++ shownNext found
  | expectedKeyword (some c) => "expected keyword but found '" ++ c.toString ++ "'"
  | expectedKeyword none => "expected keyword but found EOF"
  | expectedNumber => "expected number"
  | expectedTopLevel word => "expected top-level entity but found '" ++ word ++ "'"
  | expectedVariableKind word => "expected 'global' or 'constant' but found '" ++ word ++ "'"
  | expectedInitializer word => "expected constant but found '" ++ word ++ "'"
  | expectedReturnType word => "expected return type but found '" ++ word ++ "'"
  | expectedDebugAttachment => "expected '!dbg' attachment"
  | expectedCallee found => "expected callee but found " ++ shownNext found
  | expectedOperand => "expected operand but found EOF"
  | unterminatedString => "unterminated string literal"
  | invalidEscape found => "invalid escape sequence " ++ shownNext found
  | numberTooLarge => "failed to parse number: number too large to fit in target type"
  | unknownType word => "unknown type '" ++ word ++ "'"
  | invalidLiteral type word => "invalid " ++ type.name ++ " literal '" ++ word ++ "'"
  | unknownDebugEntry word => "unknown metadata kind '" ++ word ++ "'"
  | unclosedBody function => "unexpected EOF in body of '@" ++ function ++ "'"
  | variableDeclarationLinkage name =>
    "declaration of '@" ++ name ++ "' must have external linkage"
  | functionDeclarationLinkage => "declarations must have external linkage"
  | redefinedSymbol name => "redefinition of '@" ++ name ++ "'"
  | redefinedValue name => "redefinition of '%" ++ name ++ "'"
  | redefinedBlock label => "redefinition of block '" ++ label ++ "'"
  | redefinedMetadata id => "redefinition of metadata !" ++ id.toNat.repr
  | duplicateParameter name => "duplicate parameter '%" ++ name ++ "'"
  | undefinedSymbol name => "use of undefined global '@" ++ name ++ "'"
  | undefinedValue name => "use of undefined value '%" ++ name ++ "'"
  | undefinedBlock label => "use of undefined block '^" ++ label ++ "'"
  | undefinedMetadata id => "use of undefined metadata '!" ++ id.toNat.repr ++ "'"

structure Fault where
  cause : Cause
  place : Place
deriving DecidableEq, Repr

/-- The line and the column, both from one, of the character after the text `before`. -/
def locationAfter (before : List Char) : Nat × Nat :=
  (before.count '\n' + 1, (before.reverse.takeWhile (· != '\n')).length + 1)

/-- The line and the column of a place in a text. -/
def location (text : List Char) (place : Place) : Nat × Nat :=
  locationAfter (text.take (text.length - place.length))

/-- A fault with its place as line and column. -/
structure Diagnostic where
  line : Nat
  column : Nat
  cause : Cause
deriving DecidableEq, Repr

def Fault.diagnostic (text : List Char) (f : Fault) : Diagnostic :=
  let (line, column) := location text f.place
  ⟨line, column, f.cause⟩

def Diagnostic.message (d : Diagnostic) : String :=
  d.line.repr ++ ":" ++ d.column.repr ++ ": " ++ d.cause.message

end DeviceCode.Assembly
