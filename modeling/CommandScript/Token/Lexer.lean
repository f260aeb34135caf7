import CommandScript.Token
import CommandScript.Text.CharClass

/-! # Lexing

A machine reads one character at a time. A character either extends the pending lexeme or
delimits it, in which case the lexeme becomes a token and the character starts afresh. Lexing
feeds a final newline, so the last lexeme is always delivered and the last token is a newline.
Lexing cannot fail.
-/

namespace CommandScript

open Text

def keywords : List String := ["If", "While", "Method", "Endif", "Endloop", "Endmethod"]

inductive Mode where
  | idle | identifier | number | operator
  deriving DecidableEq, Repr

def Mode.label : Mode → String
  | .idle => "idle"
  | .identifier => "identifier"
  | .number => "number"
  | .operator => "operator"

/-- Whether a character of this class extends the lexeme pending in this mode. -/
def Mode.absorbs : Mode → CharClass → Bool
  | .identifier, .letter => true
  | .identifier, .digit => true
  | .number, .digit => true
  | .operator, .symbol => true
  | _, _ => false

structure Machine where
  mode : Mode := .idle
  lexeme : String := ""
  tokens : Array Token := #[]

namespace Machine

def emit (m : Machine) (kind : TokenKind) (value : String) : Machine :=
  { m with tokens := m.tokens.push ⟨kind, value⟩ }

/-- Delivers the pending lexeme as a token of the mode's kind. -/
def flush (m : Machine) : Machine :=
  let idle := { m with mode := .idle, lexeme := "" }
  match m.mode with
  | .idle => idle
  | .identifier =>
    idle.emit (if keywords.contains m.lexeme then .keyword else .identifier) m.lexeme
  | .number => idle.emit .number m.lexeme
  | .operator => idle.emit .operator m.lexeme

/-- Reads a character with nothing pending. -/
def start (m : Machine) (c : Char) : Machine :=
  match CharClass.of c with
  | .newline => m.emit .newLine "\n"
  | .blank => m
  | .letter => { m with mode := .identifier, lexeme := c.toString }
  | .digit => { m with mode := .number, lexeme := c.toString }
  | .symbol => { m with mode := .operator, lexeme := c.toString }

def read (m : Machine) (c : Char) : Machine :=
  if m.mode.absorbs (CharClass.of c) then { m with lexeme := m.lexeme.push c }
  else m.flush.start c

def readAll (m : Machine) (cs : List Char) : Machine := cs.foldl read m

/-- Mode, pending lexeme and number of tokens after each character. -/
def trace : Machine → List Char → List (Mode × String × Nat)
  | _, [] => []
  | m, c :: cs =>
    let m := m.read c
    (m.mode, m.lexeme, m.tokens.size) :: trace m cs

end Machine

def lex (script : String) : List Token :=
  ((Machine.readAll {} script.toList).read '\n').tokens.toList

end CommandScript
