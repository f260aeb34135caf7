import CommandScript.Context

/-! # Events

What happens while scripts run. A verbose run reports it.
-/

namespace CommandScript

inductive Event where
  | registered (name : String)
  | parsed (program : Program)
  | defined (signature : Signature)
  /-- The method `target` was invoked under the name `written`. -/
  | invoking (written target : String) (locals : Scope)
  | dispatching (name : String) (args : List String)
  | failed (fault : Fault)
  deriving Repr

def Value.text : Value → String
  | .int n => n.repr
  | .bool true => "True"
  | .bool false => "False"

def Scope.text (scope : Scope) : String :=
  let items := scope.entries.map fun (name, value) => Text.quoted name ++ ": " ++ value.text
  "\x7b" ++ ", ".intercalate items ++ "\x7d"

/-- An echo command as shown in reports. -/
def echoText (name : String) : String := "EchoCommand(" ++ Text.quoted name ++ ")"

def Event.text : Event → String
  | registered name => "asescript.commands: Registered command " ++ echoText name
  | parsed program =>
    "asescript.parser.parser: Parsed " ++ program.length.repr ++ " top-level statement(s)"
  | defined signature => "asescript.interpreter: Defined method " ++ signature.text
  | invoking written target locals =>
    "asescript.interpreter: Invoking " ++ written ++ " as " ++ target ++ " with " ++ locals.text
  | dispatching name args =>
    "asescript.commands: Dispatching " ++ name ++ " " ++ Text.quotedList args
  | failed fault => "asescript.environment: Execution failed: " ++ fault.message

end CommandScript
