/-!
# Blanks and lines

Words are separated by the characters with the property White_Space, line ends among them. A line
ends with a line feed, or with a carriage return and a line feed; the last line may do without, and
then keeps a carriage return.
-/

namespace DeviceCode.Text

/-- The code points with the property White_Space, as ascending ranges with both ends. -/
def blankRanges : List (Nat × Nat) := [
  (0x9, 0xd), (0x20, 0x20), (0x85, 0x85), (0xa0, 0xa0), (0x1680, 0x1680), (0x2000, 0x200a),
  (0x2028, 0x2029), (0x202f, 0x202f), (0x205f, 0x205f), (0x3000, 0x3000)]

def isBlank (c : Char) : Bool :=
  blankRanges.any fun r => decide (r.1 ≤ c.toNat ∧ c.toNat ≤ r.2)

/-- The content of a line whose characters before the line feed are given in reverse. -/
def endedLine : List Char → List Char
  | '\r' :: r => r.reverse
  | cs => cs.reverse

/-- The lines of a text, where `current` are the characters of the first line so far in reverse. -/
def linesFrom (current : List Char) : List Char → List (List Char)
  | [] => if current = [] then [] else [current.reverse]
  | c :: r =>
    if c = '\n' then endedLine current :: linesFrom [] r else linesFrom (c :: current) r

def lines (s : List Char) : List (List Char) := linesFrom [] s

end DeviceCode.Text
