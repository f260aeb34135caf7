import CommandScript.Diagnostic

/-! # Documents

Editors count characters in UTF-16 units. Positions are first moved into the document and
turned into code points; edits and words are then taken on the lines of the text.
-/

namespace CommandScript

namespace Document

/-- How many characters cover `target` units. -/
def charsCovering : List Char → Nat → Nat → Nat
  | [], _, _ => 0
  | c :: rest, target, covered =>
    if covered < target then charsCovering rest target (covered + Text.units c) + 1 else 0

/-- Turns the final pair of carriage return and line feed into a line feed. -/
def plainBreak (line : List Char) : List Char :=
  match line.reverse with
  | '\n' :: '\r' :: rest => ('\n' :: rest).reverse
  | _ => line

def column (line : List Char) (character : Nat) : Nat :=
  let line := plainBreak line
  let width := Text.unitLength line
  charsCovering line (if width < character then width - 1 else character) 0

/-- The position in code points that an editor's position stands for. -/
def resolve (lines : List (List Char)) (p : Position) : Position :=
  match lines.getLast? with
  | none => ⟨0, 0⟩
  | some last =>
    if lines.length ≤ p.line then ⟨lines.length - 1, Text.unitLength last⟩
    else ⟨p.line, column (lines.getD p.line []) p.character⟩

def isWordChar (c : Char) : Bool := c.isAlphanum || c = '_'

/-- The word that ends a text, before a line feed at its end if there is one. -/
def wordBefore (cs : List Char) : List Char :=
  let reversed := match cs.reverse with
    | '\n' :: rest => rest
    | rest => rest
  (reversed.takeWhile isWordChar).reverse

def wordAt (text : String) (p : Position) : String :=
  let lines := Text.linesWithBreaks text
  if lines.length ≤ p.line then ""
  else
    let q := resolve lines p
    let line := lines.getD q.line []
    String.ofList
      (wordBefore (line.take q.character) ++ (line.drop q.character).takeWhile isWordChar)

/-- What an edit of `range` leaves of a line. -/
def editLine (range : Range) (text : List Char) (index : Nat) (line : List Char) : List Char :=
  if index < range.start.line || range.stop.line < index then line
  else
    (if index = range.start.line then line.take range.start.character ++ text else [])
      ++ (if index = range.stop.line then line.drop range.stop.character else [])

def edit (source : String) (range : Range) (text : String) : String :=
  let lines := Text.linesWithBreaks source
  let range : Range := ⟨resolve lines range.start, resolve lines range.stop⟩
  if range.start.line = lines.length then source ++ text
  else String.ofList (lines.mapIdx (editLine range text.toList)).flatten

end Document

/-- A change of a document: a new text for all of it or for a range. -/
structure Change where
  range : Option Range
  text : String
  deriving DecidableEq, Repr

def Change.apply (source : String) (change : Change) : String :=
  match change.range with
  | none => change.text
  | some range => Document.edit source range change.text

end CommandScript
