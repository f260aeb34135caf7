import CommandScript.Cursor
import CommandScript.Expr

/-! # Parsing expressions

Products bind tighter than sums, both group to the left, and a comparison joins two sums.
Parentheses enclose a single term. Commas between arguments may be left out.
-/

namespace CommandScript.Parser

/-- The operator that a token spells, if it is among the allowed ones. -/
def operator? (allowed : Op → Bool) (token : Token) : Option Op :=
  if token.kind = .operator then (Op.ofLexeme? token.value).filter allowed else none

def term : Nat → Parser Expr
  | 0 => throw .tooDeep
  | depth + 1 => do
    let token ← peek
    if token.kind = .number then
      match Text.readInt? token.value with
      | some value =>
        let _ ← advance
        return .int value
      | none => fail ("Could not parse term: " ++ token.value)
    else if token.kind = .identifier then
      let _ ← advance
      return .var token.value
    else if token.value = "(" then
      let _ ← advance
      let inner ← term depth
      if ← accept ")" then return inner
      fail ("Expected ) instead received: " ++ (← peek).describe)
    else
      fail ("Could not parse term: " ++ token.describe)

/-- Folds operands joined by allowed operators to the left. -/
def chain (allowed : Op → Bool) (operand : Parser Expr) : Nat → Expr → Parser Expr
  | 0, _ => endOfScript
  | n + 1, left => do
    match operator? allowed (← peek) with
    | none => return left
    | some op =>
      let _ ← advance
      let right ← operand
      chain allowed operand n (.arith left (.known op) right)

def product (depth : Nat) : Parser Expr := do
  let first ← term depth
  chain Op.isProduct (term depth) (← rounds) first

def sum (depth : Nat) : Parser Expr := do
  let first ← product depth
  chain Op.isSum (product depth) (← rounds) first

def comparison (depth : Nat) : Parser Expr := do
  let left ← sum depth
  let token ← peek
  match operator? Op.isComparison token with
  | none => fail ("Expected comparison operator instead received: " ++ token.describe)
  | some op =>
    let _ ← advance
    let right ← sum depth
    return .compare left (.known op) right

/-- A term and the comma after it, if there is one. -/
def argument (depth : Nat) : Parser Expr := do
  let value ← term depth
  let _ ← accept ","
  return value

/-- Arguments up to and with the closing parenthesis. -/
def arguments (depth : Nat) : Parser (List Expr) := do
  itemsUntil (accept ")") (argument depth) (← rounds) #[]

/-- Arguments up to and with the end of the line. -/
def lineArguments (depth : Nat) : Parser (List Expr) := do
  itemsUntil (acceptKind .newLine) (argument depth) (← rounds) #[]

def parameter : Expr → Parser String
  | .var name => return name
  | e => fail ("Method parameters must be identifiers, received: " ++ e.text)

def parameters (depth : Nat) : Parser (List String) := do
  (← arguments depth).mapM parameter

end CommandScript.Parser
