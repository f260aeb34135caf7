/-! # Faults

A fault is what stops a script: a cause, and where it struck as far as that is known. The first
location wins: once a fault has a line, locating it again changes nothing.
-/

namespace CommandScript

inductive FaultKind where
  | malformed | unknownCommand | undefinedVariable | arithmetic | methodResolution
  | typeMismatch | command | recursion | internal
  deriving DecidableEq, Repr

def FaultKind.label : FaultKind → String
  | .malformed => "syntax"
  | .unknownCommand => "invalid_command"
  | .undefinedVariable => "undefined_variable"
  | .arithmetic => "arithmetic"
  | .methodResolution => "method_resolution"
  | .typeMismatch => "type_mismatch"
  | .command => "command"
  | .recursion => "recursion"
  | .internal => "internal"

inductive Cause where
  /-- The text does not match the grammar; `incomplete` if more text could mend it. -/
  | malformed (text : String) (incomplete : Bool)
  | unknownCommand (name : String)
  | undefinedVariable (name : String)
  | divisionByZero
  | integerOverflow
  | unresolvedMethod (name : String) (arity : Int)
  | typeMismatch (text : String)
  | unknownOperator (lexeme : String)
  | recursionLimit
  | invalidArgument (text : String)
  | outOfBounds (text : String)
  | argumentCount (expected actual : Int)
  /-- An error that is not a fault, raised while a command ran. -/
  | commandFailed (name detail : String)
  | command (text : String)
  | general (text : String)
  deriving DecidableEq, Repr

namespace Cause

def reason : Cause → String
  | malformed text _ => text
  | unknownCommand name => s!"Invalid command '{name}' was entered"
  | undefinedVariable name => s!"Undefined variable '{name}'"
  | divisionByZero => "Division by zero"
  | integerOverflow => "Integer too large to convert to a decimal argument"
  | unresolvedMethod name arity => s!"No method accepting {arity} argument(s) found for '{name}'"
  | typeMismatch text => text
  | unknownOperator lexeme => s!"Unknown operation '{lexeme}'"
  | recursionLimit => "Maximum method invocation depth exceeded"
  | invalidArgument text => text
  | outOfBounds text => text
  | argumentCount expected actual => s!"Expected {expected} arguments instead received {actual}."
  | commandFailed name detail => s!"Command '{name}' failed: {detail}"
  | command text => text
  | general text => text

def kind : Cause → FaultKind
  | malformed .. => .malformed
  | unknownCommand _ => .unknownCommand
  | undefinedVariable _ => .undefinedVariable
  | divisionByZero => .arithmetic
  | integerOverflow => .arithmetic
  | unresolvedMethod .. => .methodResolution
  | typeMismatch _ => .typeMismatch
  | unknownOperator _ => .internal
  | recursionLimit => .recursion
  | invalidArgument _ => .command
  | outOfBounds _ => .command
  | argumentCount .. => .command
  | commandFailed .. => .command
  | command _ => .command
  | general _ => .internal

/-- The name a report puts before the message. -/
def label : Cause → String
  | malformed .. => "SyntaxException"
  | unknownCommand _ => "InvalidCommandException"
  | undefinedVariable _ => "UndefinedVariableException"
  | divisionByZero => "DivisionByZeroException"
  | integerOverflow => "IntegerOverflowException"
  | unresolvedMethod .. => "MethodResolutionException"
  | typeMismatch _ => "TypeMismatchException"
  | unknownOperator _ => "UnknownOpException"
  | recursionLimit => "RecursionLimitException"
  | invalidArgument _ => "InvalidArgumentException"
  | outOfBounds _ => "IntegerOutOfBoundsException"
  | argumentCount .. => "InvalidArgumentSizeException"
  | commandFailed .. => "CommandFailedException"
  | command _ => "CommandException"
  | general _ => "ScriptException"

end Cause

structure Fault where
  cause : Cause
  line : Option Int := none
  file : Option String := none
  deriving DecidableEq, Repr

namespace Fault

def message (f : Fault) : String :=
  f.cause.reason
    ++ f.line.elim "" (fun n => " on line " ++ n.repr)
    ++ f.file.elim "" (fun file => " in " ++ file)

/-- Locates a fault that has no line yet. A call without a line may still set the file. -/
def locate (f : Fault) (line : Option Int) (file : Option String) : Fault :=
  match f.line with
  | some _ => f
  | none => { f with line := line, file := f.file.or file }

def incomplete (f : Fault) : Bool :=
  match f.cause with
  | .malformed _ incomplete => incomplete
  | _ => false

def report (f : Fault) : String := f.cause.label ++ ": " ++ f.message

end Fault

/-- Why a computation stopped without a result. -/
inductive Halt where
  | fault (f : Fault)
  /-- A tree stood where its kind does not belong. -/
  | unreachable (shown : String)
  /-- An integer has too many digits to be written. -/
  | integerText
  /-- The nesting exceeds the stack. -/
  | overflow
  /-- A loop exceeded the bound on its rounds. -/
  | endless
  deriving DecidableEq, Repr

/-- The text of a halt as a detail of another fault. -/
def Halt.text : Halt → String
  | .fault f => f.message
  | .unreachable shown => "Expected code to be unreachable, but got: " ++ shown
  | .integerText => "Exceeds the limit (4300 digits) for integer string conversion; " ++
      "use sys.set_int_max_str_digits() to increase the limit"
  | .overflow => "maximum recursion depth exceeded"
  | .endless => "endless"

/-- How many calls may be under way at a time. What nests takes calls: a statement that is parsed
six, a term two, a statement or expression that runs one. -/
def stackLimit : Nat := 990

end CommandScript
