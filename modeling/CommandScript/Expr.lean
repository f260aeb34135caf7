import CommandScript.Tree

/-! # Expressions -/

namespace CommandScript

inductive Expr where
  | int (value : Int)
  | var (name : String)
  /-- Arithmetic on two integers. -/
  | arith (left : Expr) (operator : Operator) (right : Expr)
  /-- A relation of two integers or a connective of two booleans. -/
  | compare (left : Expr) (operator : Operator) (right : Expr)
  /-- A statement where an expression belongs. -/
  | misplaced (tree : Tree)
  deriving Repr

def Tree.toExpr : Tree → Expr
  | .integer value => .int value
  | .identifier name => .var name
  | .arith left operator right => .arith left.toExpr operator right.toExpr
  | .compare left operator right => .compare left.toExpr operator right.toExpr
  | tree => .misplaced tree

namespace Expr

def toTree : Expr → Tree
  | int value => .integer value
  | var name => .identifier name
  | arith left operator right => .arith left.toTree operator right.toTree
  | compare left operator right => .compare left.toTree operator right.toTree
  | misplaced tree => tree

/-- The expression in source form, every operation in parentheses. -/
def text : Expr → String
  | int value => value.repr
  | var name => name
  | arith left operator right =>
    "(" ++ left.text ++ " " ++ operator.lexeme ++ " " ++ right.text ++ ")"
  | compare left operator right =>
    "(" ++ left.text ++ " " ++ operator.lexeme ++ " " ++ right.text ++ ")"
  | misplaced tree => "<expr " ++ tree.kind ++ ">"

/-- Whether every integer in the expression is short enough to be written. -/
def writable : Expr → Bool
  | int value => Text.writable value
  | arith left _ right => left.writable && right.writable
  | compare left _ right => left.writable && right.writable
  | _ => true

def height : Expr → Nat
  | arith left _ right => max left.height right.height + 1
  | compare left _ right => max left.height right.height + 1
  | _ => 1

/-- The text of an expression for a message. -/
def describe (e : Expr) : Except Halt String :=
  if e.writable then .ok e.text else .error .integerText

/-- The text of an expression that may nest at most `depth` deep. -/
def describeWithin (depth : Nat) (e : Expr) : Except Halt String :=
  if e.height ≤ depth then e.describe else .error .overflow

end Expr

end CommandScript
