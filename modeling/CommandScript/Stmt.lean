import CommandScript.Expr

/-! # Statements

Every statement but a block knows the line it starts on.
-/

namespace CommandScript

inductive Stmt where
  | block (statements : List Stmt)
  | conditional (condition : Expr) (body : Stmt) (line : Int)
  | loop (condition : Expr) (body : Stmt) (line : Int)
  | assign (name : String) (value : Expr) (line : Int)
  | define (name : String) (params : List String) (body : Stmt) (line : Int)
  | invoke (name : String) (args : List Expr) (line : Int)
  | command (name : String) (args : List Expr) (line : Int)
  /-- An expression where a statement belongs. -/
  | misplaced (tree : Tree)
  deriving Repr

/-- A program is the list of its statements. -/
abbrev Program := List Stmt

mutual

def Tree.toStmt : Tree → Stmt
  | .block statements => .block (Tree.toStmts statements)
  | .conditional condition body line => .conditional condition.toExpr body.toStmt line
  | .loop condition body line => .loop condition.toExpr body.toStmt line
  | .assign name value line => .assign name value.toExpr line
  | .define name params body line => .define name params body.toStmt line
  | .invoke name args line => .invoke name (args.map Tree.toExpr) line
  | .command name args line => .command name (args.map Tree.toExpr) line
  | tree => .misplaced tree

def Tree.toStmts : List Tree → List Stmt
  | [] => []
  | tree :: rest => tree.toStmt :: Tree.toStmts rest

end

mutual

def Stmt.toTree : Stmt → Tree
  | .block statements => .block (Stmt.toTrees statements)
  | .conditional condition body line => .conditional condition.toTree body.toTree line
  | .loop condition body line => .loop condition.toTree body.toTree line
  | .assign name value line => .assign name value.toTree line
  | .define name params body line => .define name params body.toTree line
  | .invoke name args line => .invoke name (args.map Expr.toTree) line
  | .command name args line => .command name (args.map Expr.toTree) line
  | .misplaced tree => tree

def Stmt.toTrees : List Stmt → List Tree
  | [] => []
  | statement :: rest => statement.toTree :: Stmt.toTrees rest

end

namespace Program

def toTree (program : Program) : Tree := .block (Stmt.toTrees program)

/-- Whether two programs differ at most in lines. -/
def same (p q : Program) : Except Halt Bool := Tree.same stackLimit p.toTree q.toTree

/-- The listing of a program. -/
def listing (program : Program) : Except Halt String := Tree.listing stackLimit program.toTree

end Program

end CommandScript
