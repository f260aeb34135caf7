/-! # Lines of a text

Ten characters and the pair carriage return, line feed end a line. A text that ends with a line
break has no empty line after it.
-/

namespace CommandScript.Text

def isLineBreak (c : Char) : Bool :=
  [0xA, 0xB, 0xC, 0xD, 0x1C, 0x1D, 0x1E, 0x85, 0x2028, 0x2029].contains c.toNat

/-- Splits after every line break; `acc` holds the started line in reverse. -/
def splitLines : List Char → List Char → List (List Char)
  | [], [] => []
  | acc, [] => [acc.reverse]
  | acc, '\r' :: '\n' :: rest => ('\n' :: '\r' :: acc).reverse :: splitLines [] rest
  | acc, c :: rest =>
    if isLineBreak c then (c :: acc).reverse :: splitLines [] rest else splitLines (c :: acc) rest

def dropBreak (line : List Char) : List Char :=
  match line.reverse with
  | '\n' :: '\r' :: rest => rest.reverse
  | c :: rest => if isLineBreak c then rest.reverse else line
  | [] => []

/-- The lines of a text with their line breaks. -/
def linesWithBreaks (text : String) : List (List Char) := splitLines [] text.toList

/-- The lines of a text without their line breaks. -/
def lines (text : String) : List (List Char) := (linesWithBreaks text).map dropBreak

/-- Turns every carriage return, with the line feed after it if there is one, into a line feed. -/
def unifyBreaks : List Char → List Char
  | [] => []
  | '\r' :: '\n' :: rest => '\n' :: unifyBreaks rest
  | c :: rest => (if c = '\r' then '\n' else c) :: unifyBreaks rest

/-- Text files are UTF-8; every style of line end is read as a line feed. -/
def decodeFile? (bytes : ByteArray) : Option String :=
  (String.fromUTF8? bytes).map fun text => String.ofList (unifyBreaks text.toList)

/-- The number of UTF-16 units of a character. -/
def units (c : Char) : Nat := if c.toNat ≤ 0xFFFF then 1 else 2

def unitLength : List Char → Nat
  | [] => 0
  | c :: rest => units c + unitLength rest

end CommandScript.Text
