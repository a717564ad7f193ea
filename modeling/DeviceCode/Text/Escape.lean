import DeviceCode.Text.Combining
import DeviceCode.Text.Printable

/-!
# Escapes

How strings are quoted in assembly text, and how diagnostics show a character.
-/

namespace DeviceCode.Text

/-! ## Quoted strings

A string is written between double quotes, with a backslash before a quote or a backslash and
`\n` and `\t` for a line end and a tab; every other character stands for itself.
-/

def escapeChar : Char → List Char
  | '"' => ['\\', '"']
  | '\\' => ['\\', '\\']
  | '\n' => ['\\', 'n']
  | '\t' => ['\\', 't']
  | c => [c]

def quoted (s : String) : String :=
  String.ofList ('"' :: (s.toList.flatMap escapeChar ++ ['"']))

/-- The character an escape stands for, by the character after the backslash. -/
def unescape? : Char → Option Char
  | 'n' => some '\n'
  | 't' => some '\t'
  | '"' => some '"'
  | '\\' => some '\\'
  | _ => none

/-! ## Characters as diagnostics show them

A diagnostic names the character it met, or says that the text has ended. Characters that would not
show, or would change how their neighbours show, appear as their code point.
-/

/-- The code point in hexadecimal between braces. -/
def codePoint (c : Char) : String :=
  "\\u\x7b" ++ String.ofList (Nat.toDigits 16 c.toNat) ++ "\x7d"

def shownChar (c : Char) : String :=
  if c = '\x00' then "\\0"
  else if c = '\t' then "\\t"
  else if c = '\r' then "\\r"
  else if c = '\n' then "\\n"
  else if c = '\'' then "\\'"
  else if c = '\\' then "\\\\"
  else if isCombining c || !isPrintable c then codePoint c
  else c.toString

/-- The next character of a text, or `None` at its end. -/
def shownNext : Option Char → String
  | none => "None"
  | some c => "Some('" ++ shownChar c ++ "')"

end DeviceCode.Text
