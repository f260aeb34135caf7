import CommandScript.Text.CharClass

/-! # Integers as text

Reading accepts decimal digits of any script, padded with blanks, with one optional sign and
single underscores between digits. Neither direction handles more than `digitLimit` digits:
reading counts digit characters, writing counts the digits of the value.
-/

namespace CommandScript.Text

def digitLimit : Nat := 4300

/-- The first magnitude that has more than `digitLimit` digits. -/
def textBound : Nat := Nat.pow 10 digitLimit

/-- Blanks that may surround an integer: all but the four separators U+001C to U+001F. -/
def isPadding (c : Char) : Bool := isBlank c && !(0x1C ≤ c.toNat && c.toNat ≤ 0x1F)

/-- The digit values of a run of digits, in which an underscore may stand between two digits. -/
def digitValues? : List Char → Option (List Nat)
  | [] => none
  | [c] => (digitValue? c).map fun d => [d]
  | c :: '_' :: rest => do
    let d ← digitValue? c
    let ds ← digitValues? rest
    return d :: ds
  | c :: rest => do
    let d ← digitValue? c
    let ds ← digitValues? rest
    return d :: ds

def positional (digits : List Nat) : Nat :=
  digits.foldl (fun n d => n * 10 + d) 0

def readNat? (cs : List Char) : Option Nat := do
  let digits ← digitValues? cs
  if digits.length ≤ digitLimit then return positional digits else none

def readSigned? : List Char → Option Int
  | '+' :: cs => (readNat? cs).map Int.ofNat
  | '-' :: cs => (readNat? cs).map fun n => -(n : Int)
  | cs => (readNat? cs).map Int.ofNat

def readInt? (text : String) : Option Int :=
  readSigned? (trim isPadding text.toList)

/-- Whether an integer is short enough to be written in decimal. -/
def writable (n : Int) : Bool := n.natAbs < textBound

def decimal? (n : Int) : Option String :=
  if writable n then some n.repr else none

end CommandScript.Text
