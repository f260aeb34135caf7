import CommandScript.Expr.Parser
import CommandScript.Stmt
import CommandScript.Token.Lexer

/-! # Parsing statements

The first token of a line decides what statement it starts. A block runs to the next word that
closes a block, which must be the one that fits.
-/

namespace CommandScript

namespace Parser

def terminators : List String := ["Endif", "Endloop", "Endmethod"]

/-- Collects statements, passing over newlines, until `stop` holds. -/
def statementsUntil (stop : Parser Bool) (statement : Parser Stmt) :
    Nat → Array Stmt → Parser Program
  | 0, _ => endOfScript
  | n + 1, statements => do
    if ← stop then return statements.toList
    if (← peek).kind = .newLine then
      eatNewline
      statementsUntil stop statement n statements
    else
      let s ← statement
      statementsUntil stop statement n (statements.push s)

/-- Whether the block that `terminator` should close ends here. -/
def atTerminator (terminator : String) : Parser Bool := do
  if terminators.contains (← peek).value then return true
  if ← atEnd then failIncomplete ("Expected " ++ terminator ++ " but reached end of script")
  return false

def block (statement : Parser Stmt) (terminator : String) : Parser Stmt := do
  let statements ← statementsUntil (atTerminator terminator) statement (← rounds) #[]
  expect terminator
  return .block statements

def skipNewlines : Nat → Parser Unit
  | 0 => endOfScript
  | n + 1 => do
    if (← peek).kind = .newLine then
      eatNewline
      skipNewlines n

def conditional (depth : Nat) (statement : Parser Stmt) : Parser Stmt := do
  let line := (← get).line
  let _ ← advance
  let condition ← comparison depth
  eatNewline
  let body ← block statement "Endif"
  return .conditional condition body line

def loop (depth : Nat) (statement : Parser Stmt) : Parser Stmt := do
  let line := (← get).line
  let _ ← advance
  let condition ← comparison depth
  eatNewline
  let body ← block statement "Endloop"
  return .loop condition body line

def definition (depth : Nat) (statement : Parser Stmt) : Parser Stmt := do
  let line := (← get).line
  let _ ← advance
  let name ← peek
  if name.kind ≠ .identifier then
    fail ("Expected method name instead received: " ++ name.describe)
  let _ ← advance
  if !(← accept "(") then
    fail "Expecting param list in method declaration"
  let params ← parameters depth
  eatNewline
  let body ← block statement "Endmethod"
  return .define name.value params body line

/-- An assignment, a method invocation or a command, told apart by the second token. -/
def plainStatement (depth : Nat) : Parser Stmt := do
  let line := (← get).line
  let name ← advance
  if ← accept "=" then
    let value ← sum depth
    eatNewline
    return .assign name.value value line
  if ← accept "(" then
    let args ← arguments depth
    return .invoke name.value args line
  let args ← lineArguments depth
  return .command name.value args line

/-- How many terms may nest in place of a statement. -/
def termsPerStatement : Nat := 3

/-- A statement, with statements nested at most `depth` deep in it. -/
def statement : Nat → Parser Stmt
  | 0 => throw .tooDeep
  | depth + 1 => do
    skipNewlines (← rounds)
    let token ← peek
    match token.kind with
    | .keyword =>
      if token.value = "If" then conditional (termsPerStatement * depth) (statement depth)
      else if token.value = "While" then loop (termsPerStatement * depth) (statement depth)
      else if token.value = "Method" then definition (termsPerStatement * depth) (statement depth)
      else fail ("Unexpected " ++ token.value)
    | .identifier => plainStatement (termsPerStatement * depth)
    | _ => fail ("Couldn't parse token: " ++ token.value)

def program (depth : Nat) : Parser Program := do
  statementsUntil atEnd (statement depth) (← rounds) #[]

end Parser

/-- How many calls a nested statement takes to parse. -/
def callsPerStatement : Nat := 6

/-- Parses tokens with so many calls at most. -/
def parseTokens (calls : Nat) (tokens : List Token) : Except Refusal Program :=
  match (Parser.program (calls / callsPerStatement)).run { rest := tokens } with
  | .ok program _ => .ok program
  | .error refusal _ => .error refusal

/-- Lexes and parses a script with so many calls at most; `file` names it in faults. -/
def parseWithin (calls : Nat) (file : Option String) (script : String) : Except Halt Program :=
  (parseTokens calls (lex script)).mapError (Refusal.toHalt file)

def parse (file : Option String) (script : String) : Except Halt Program :=
  parseWithin stackLimit file script

end CommandScript
