import CommandScript.Fault
import CommandScript.Operator
import CommandScript.Text.Integer

/-! # Trees

A tree is a node of any kind with nodes of any kind below it, as a host may build it by hand.
Programs proper are made of `Expr` and `Stmt`; a tree that does not fit in is kept whole.
-/

namespace CommandScript

inductive Tree where
  | integer (value : Int)
  | identifier (name : String)
  | arith (left : Tree) (operator : Operator) (right : Tree)
  | compare (left : Tree) (operator : Operator) (right : Tree)
  | block (statements : List Tree)
  | conditional (condition body : Tree) (line : Int)
  | loop (condition body : Tree) (line : Int)
  | assign (name : String) (value : Tree) (line : Int)
  | define (name : String) (params : List String) (body : Tree) (line : Int)
  | invoke (name : String) (args : List Tree) (line : Int)
  | command (name : String) (args : List Tree) (line : Int)
  deriving Repr

namespace Tree

/-- The name of a node's kind. -/
def kind : Tree → String
  | integer _ => "Integer"
  | identifier _ => "Identifier"
  | arith .. => "BinaryOp"
  | compare .. => "Comparison"
  | block _ => "Block"
  | conditional .. => "If"
  | loop .. => "While"
  | assign .. => "Assignment"
  | define .. => "MethodDef"
  | invoke .. => "MethodInvoke"
  | command .. => "CommandInvoke"

/-- A parenthesised sequence; a comma marks a sequence of one. -/
def sequence : List String → String
  | [] => "()"
  | [item] => "(" ++ item ++ ",)"
  | items => "(" ++ ", ".intercalate items ++ ")"

def node (kind : String) (fields : List (String × String)) : String :=
  kind ++ "(" ++ ", ".intercalate (fields.map fun (name, value) => name ++ "=" ++ value) ++ ")"

/-- The listing of a tree: every node by kind and fields. A node takes three calls, and a
sequence of nodes one more. -/
def listing : Nat → Tree → Except Halt String
  | _ + 3, integer value =>
    match Text.decimal? value with
    | some text => .ok (node "Integer" [("value", text)])
    | none => .error .integerText
  | _ + 3, identifier name => .ok (node "Identifier" [("name", Text.quoted name)])
  | depth + 3, arith left operator right => do
    let left ← listing depth left
    let right ← listing depth right
    return node "BinaryOp" [("left", left), ("operator", operator.text), ("right", right)]
  | depth + 3, compare left operator right => do
    let left ← listing depth left
    let right ← listing depth right
    return node "Comparison" [("left", left), ("operator", operator.text), ("right", right)]
  | depth + 4, block statements => do
    let items ← statements.mapM (listing depth)
    return node "Block" [("statements", sequence items)]
  | depth + 3, conditional condition body line => do
    let condition ← listing depth condition
    let body ← listing depth body
    return node "If" [("condition", condition), ("body", body), ("line", line.repr)]
  | depth + 3, loop condition body line => do
    let condition ← listing depth condition
    let body ← listing depth body
    return node "While" [("condition", condition), ("body", body), ("line", line.repr)]
  | depth + 3, assign name value line => do
    let value ← listing depth value
    return node "Assignment" [("name", Text.quoted name), ("value", value), ("line", line.repr)]
  | depth + 3, define name params body line => do
    let items := params.map fun p => node "Identifier" [("name", Text.quoted p)]
    let body ← listing depth body
    return node "MethodDef" [("name", Text.quoted name), ("params", sequence items),
      ("body", body), ("line", line.repr)]
  | depth + 4, invoke name args line => do
    let items ← args.mapM (listing depth)
    return node "MethodInvoke" [("name", Text.quoted name), ("args", sequence items),
      ("line", line.repr)]
  | depth + 4, command name args line => do
    let items ← args.mapM (listing depth)
    return node "CommandInvoke" [("name", Text.quoted name), ("args", sequence items),
      ("line", line.repr)]
  | _, _ => .error .overflow

/-- Listings in messages are cut after this many characters. -/
def shownLength : Nat := 100

def shown (listing : String) : String :=
  if listing.length ≤ shownLength then listing
  else String.ofList (listing.toList.take shownLength) ++ "..."

/-- The halt of a tree that was reached where its kind does not belong. -/
def outOfPlace (depth : Nat) (tree : Tree) : Halt :=
  match listing depth tree with
  | .ok text => .unreachable (shown text)
  | .error halt => halt

/-- Compares item by item, from the left, up to the first difference. -/
def sameItems (same : Tree → Tree → Except Halt Bool) :
    List Tree → List Tree → Except Halt Bool
  | [], [] => .ok true
  | a :: as, b :: bs => do if ← same a b then sameItems same as bs else return false
  | _, _ => .ok false

/-- Equality of trees with every line ignored, compared from the left. A pair of nodes takes
three calls, and a pair of sequences one more. -/
def same : Nat → Tree → Tree → Except Halt Bool
  | _ + 3, integer m, integer n => .ok (m == n)
  | _ + 3, identifier x, identifier y => .ok (x == y)
  | depth + 3, arith l o r, arith l' o' r' => do
    if ← same depth l l' then if o = o' then same depth r r' else return false else return false
  | depth + 3, compare l o r, compare l' o' r' => do
    if ← same depth l l' then if o = o' then same depth r r' else return false else return false
  | depth + 4, block ss, block ss' => sameItems (same depth) ss ss'
  | depth + 3, conditional c s _, conditional c' s' _ => do
    if ← same depth c c' then same depth s s' else return false
  | depth + 3, loop c s _, loop c' s' _ => do
    if ← same depth c c' then same depth s s' else return false
  | depth + 3, assign x e _, assign x' e' _ => if x = x' then same depth e e' else .ok false
  | depth + 3, define x ps s _, define x' ps' s' _ =>
    if x = x' ∧ ps = ps' then same depth s s' else .ok false
  | depth + 4, invoke x as _, invoke x' as' _ =>
    if x = x' then sameItems (same depth) as as' else .ok false
  | depth + 4, command x as _, command x' as' _ =>
    if x = x' then sameItems (same depth) as as' else .ok false
  | depth, a, b => if depth < 3 ∨ a.kind = b.kind then .error .overflow else .ok false

end Tree

end CommandScript
