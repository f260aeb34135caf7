import CommandScript.Text.Quoted

/-! # Operators -/

namespace CommandScript

inductive Op where
  | add | sub | mul | div
  | eq | ne | le | ge | gt | lt
  | and | or
  deriving DecidableEq, Repr

namespace Op

def all : List Op := [add, sub, mul, div, eq, ne, le, ge, gt, lt, and, or]

def lexeme : Op → String
  | add => "+"
  | sub => "-"
  | mul => "*"
  | div => "/"
  | eq => "=="
  | ne => "!="
  | le => "<="
  | ge => ">="
  | gt => ">"
  | lt => "<"
  | and => "&&"
  | or => "||"

def name : Op → String
  | add => "ADD"
  | sub => "SUB"
  | mul => "MUL"
  | div => "DIV"
  | eq => "EQ"
  | ne => "NE"
  | le => "LE"
  | ge => "GE"
  | gt => "GT"
  | lt => "LT"
  | and => "AND"
  | or => "OR"

def ofLexeme? (s : String) : Option Op := all.find? fun op => op.lexeme == s

@[simp] theorem ofLexeme?_lexeme (op : Op) : ofLexeme? op.lexeme = some op := by
  cases op <;> decide

def isSum : Op → Bool
  | add | sub => true
  | _ => false

def isProduct : Op → Bool
  | mul | div => true
  | _ => false

def isLogical : Op → Bool
  | and | or => true
  | _ => false

def isComparison (op : Op) : Bool := !op.isSum && !op.isProduct

end Op

/-- The operator of a tree. Trees made by hand may hold a lexeme that is no operator. -/
inductive Operator where
  | known (op : Op)
  | unknown (text : String)
  deriving DecidableEq, Repr

namespace Operator

def ofLexeme (s : String) : Operator := (Op.ofLexeme? s).elim (unknown s) known

def lexeme : Operator → String
  | known op => op.lexeme
  | unknown s => s

/-- The operator as shown in a listing. -/
def text : Operator → String
  | known op => "<Op." ++ op.name ++ ": " ++ Text.quoted op.lexeme ++ ">"
  | unknown s => Text.quoted s

end Operator

end CommandScript
