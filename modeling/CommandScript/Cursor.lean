import CommandScript.Fault
import CommandScript.Token

/-! # The token cursor

Parsers consume tokens from the front of a list and count the newlines they consume. A parser
that refuses its input leaves the cursor where it stood at that moment.
-/

namespace CommandScript

structure Cursor where
  rest : List Token
  position : Nat := 0
  line : Int := 1
  deriving DecidableEq, Repr

/-- Why a parser gave up. -/
inductive Refusal where
  | malformed (reason : String) (incomplete : Bool) (line : Int)
  | tooDeep
  deriving DecidableEq, Repr

def Refusal.toHalt (file : Option String) : Refusal → Halt
  | malformed reason incomplete line => .fault ⟨.malformed reason incomplete, some line, file⟩
  | tooDeep => .overflow

abbrev Parser := EStateM Refusal Cursor

namespace Parser

/-- Refuses the input at the current line. -/
def fail {α : Type} (reason : String) : Parser α := do
  throw (.malformed reason false (← get).line)

/-- Refuses an input that more text could complete. -/
def failIncomplete {α : Type} (reason : String) : Parser α := do
  throw (.malformed reason true (← get).line)

def endOfScript {α : Type} : Parser α := failIncomplete "Unexpected end of script"

/-- The end is one token early: the last token of a lexed script is a newline of its own. -/
def atEnd : Parser Bool := do
  match (← get).rest with
  | _ :: _ :: _ => return false
  | _ => return true

def peek : Parser Token := do
  match (← get).rest with
  | token :: _ => return token
  | [] => endOfScript

def advance : Parser Token := do
  let cursor ← get
  match cursor.rest with
  | token :: rest =>
    let line := if token.kind = .newLine then cursor.line + 1 else cursor.line
    set { cursor with rest := rest, position := cursor.position + 1, line := line }
    return token
  | [] => endOfScript

/-- Consumes the next token if its lexeme is `value`. -/
def accept (value : String) : Parser Bool := do
  if (← peek).value = value then
    let _ ← advance
    return true
  else
    return false

/-- Consumes the next token if it is of this kind. -/
def acceptKind (kind : TokenKind) : Parser Bool := do
  if (← peek).kind = kind then
    let _ ← advance
    return true
  else
    return false

def eatNewline : Parser Unit := do
  if ← acceptKind .newLine then return
  fail ("Expected newline instead received: " ++ (← peek).value)

def expect (value : String) : Parser Unit := do
  if ← accept value then return
  fail ("Expected " ++ value ++ " instead received: " ++ (← peek).describe)

/-- A bound on the rounds of a loop that consumes a token in each. -/
def rounds : Parser Nat := do
  return (← get).rest.length + 1

/-- Collects items until `stop` accepts, in at most the given number of rounds. -/
def itemsUntil {α : Type} (stop : Parser Bool) (item : Parser α) :
    Nat → Array α → Parser (List α)
  | 0, _ => endOfScript
  | n + 1, items => do
    if ← stop then return items.toList
    let a ← item
    itemsUntil stop item n (items.push a)

end Parser

end CommandScript
