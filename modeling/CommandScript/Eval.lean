import CommandScript.Context

/-! # Evaluating expressions

Both operands are evaluated, left first, before either is checked. Division truncates toward
zero. An expression nested deeper than the given depth overflows.
-/

namespace CommandScript

/-- Where the faults of an evaluation are located. -/
structure Site where
  line : Option Int
  file : Option String
  deriving DecidableEq, Repr

def Site.halt (site : Site) (cause : Cause) : Halt := .fault ⟨cause, site.line, site.file⟩

/-- The value must be an integer; `e` names its expression in the fault. -/
def requireInt (site : Site) (e : Expr) : Value → Except Halt Int
  | .int n => .ok n
  | .bool _ => do
    let text ← e.describe
    .error (site.halt (.typeMismatch ("Expected an integer but " ++ text ++ " is bool")))

def arithmetic (site : Site) (operator : Operator) (m n : Int) : Except Halt Value :=
  match operator with
  | .known .add => .ok (.int (m + n))
  | .known .sub => .ok (.int (m - n))
  | .known .mul => .ok (.int (m * n))
  | .known .div => if n = 0 then .error (site.halt .divisionByZero) else .ok (.int (m.tdiv n))
  | _ => .error (site.halt (.unknownOperator operator.lexeme))

/-- Which integers an operator relates. -/
def relation? : Operator → Option (Int → Int → Bool)
  | .known .eq => some fun m n => m == n
  | .known .ne => some fun m n => m != n
  | .known .le => some fun m n => m ≤ n
  | .known .ge => some fun m n => m ≥ n
  | .known .gt => some fun m n => m > n
  | .known .lt => some fun m n => m < n
  | _ => none

def mismatch (site : Site) (operator : Operator) (needs : String) (whole : Expr) :
    Except Halt Value := do
  let text ← whole.describe
  .error (site.halt (.typeMismatch
    ("Operator " ++ operator.lexeme ++ " requires " ++ needs ++ " operands " ++ text)))

/-- The comparison `whole`, applied to the values of its operands. -/
def compareValues (site : Site) (whole : Expr) (operator : Operator) (a b : Value) :
    Except Halt Value :=
  match operator, a, b with
  | .known .and, .bool p, .bool q => .ok (.bool (p && q))
  | .known .or, .bool p, .bool q => .ok (.bool (p || q))
  | .known .and, _, _ => mismatch site operator "boolean" whole
  | .known .or, _, _ => mismatch site operator "boolean" whole
  | _, .int m, .int n =>
    match relation? operator with
    | some related => .ok (.bool (related m n))
    | none => .error (site.halt (.unknownOperator operator.lexeme))
  | _, _, _ => mismatch site operator "integer" whole

def eval (site : Site) (scope : Scope) : Nat → Expr → Except Halt Value
  | 0, _ => .error .overflow
  | _ + 1, .int n => .ok (.int n)
  | _ + 1, .var name =>
    match scope.get? name with
    | some value => .ok value
    | none => .error (site.halt (.undefinedVariable name))
  | depth + 1, .arith left operator right => do
    let a ← eval site scope depth left
    let b ← eval site scope depth right
    let m ← requireInt site left a
    let n ← requireInt site right b
    arithmetic site operator m n
  | depth + 1, .compare left operator right => do
    let a ← eval site scope depth left
    let b ← eval site scope depth right
    compareValues site (.compare left operator right) operator a b
  | depth + 1, .misplaced tree => .error (tree.outOfPlace depth)

def evalInt (site : Site) (scope : Scope) (depth : Nat) (e : Expr) : Except Halt Int := do
  requireInt site e (← eval site scope depth e)

/-- The value of a condition. -/
def evalBool (site : Site) (scope : Scope) (depth : Nat) (e : Expr) : Except Halt Bool := do
  match ← eval site scope depth e with
  | .bool b => return b
  | .int _ =>
    let text ← e.describe
    .error (site.halt (.typeMismatch ("Condition " ++ text ++ " must be a boolean")))

/-- A command argument as the decimal text that the command receives. -/
def evalText (site : Site) (scope : Scope) (depth : Nat) (e : Expr) : Except Halt String := do
  match Text.decimal? (← evalInt site scope depth e) with
  | some text => return text
  | none => .error (site.halt .integerOverflow)

end CommandScript
