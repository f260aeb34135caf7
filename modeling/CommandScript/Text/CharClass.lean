import CommandScript.Text.Letter
import CommandScript.Text.Digit

/-! # Character classes

The lexer tells five classes apart. Every character that is neither blank, letter nor digit is a
symbol, so brackets and commas are read like `+`. Only the line feed is a newline.
-/

namespace CommandScript.Text

def blankRanges : List (Nat × Nat) :=
  [(0x9, 0xD), (0x1C, 0x20), (0x85, 0x85), (0xA0, 0xA0), (0x1680, 0x1680), (0x2000, 0x200A),
   (0x2028, 0x2029), (0x202F, 0x202F), (0x205F, 0x205F), (0x3000, 0x3000)]

/-- White space, the line feed included. -/
def isBlank (c : Char) : Bool := inRanges blankRanges c.toNat

inductive CharClass where
  | newline | blank | letter | digit | symbol
  deriving DecidableEq, Repr

def CharClass.of (c : Char) : CharClass :=
  if c = '\n' then .newline
  else if isBlank c then .blank
  else if isLetter c then .letter
  else if isDigit c then .digit
  else .symbol

/-- Drops what satisfies `p` from both ends. -/
def trim (p : Char → Bool) (cs : List Char) : List Char :=
  ((cs.dropWhile p).reverse.dropWhile p).reverse

end CommandScript.Text
