import CommandScript.Fault
import CommandScript.Text.Integer

/-! # Commands

A command answers to its name and to its aliases. A registry lists commands in the order of
their registration, and the first that answers to a name carries it out.
-/

namespace CommandScript

/-- What a command does when it is carried out. -/
inductive Action where
  /-- Writes its name and the arguments as a line. -/
  | echo
  /-- Takes `count` integers from `low` to `high`. -/
  | integers (count low high : Int)
  /-- Takes any number of switches. -/
  | switches
  /-- Stops with an error that is no fault. -/
  | crash (text : String)
  | raise (fault : Fault)
  /-- Runs a script, in the shared context or in one of its own. -/
  | script (text : String) (file : Option String) (shared : Bool)
  deriving DecidableEq, Repr

structure Command where
  name : String
  aliases : List String := []
  action : Action := .echo
  deriving DecidableEq, Repr

namespace Command

def hasName (c : Command) (name : String) : Bool := c.name == name

def hasAlias (c : Command) (name : String) : Bool := c.aliases.contains name

def answersTo (c : Command) (name : String) : Bool := c.hasName name || c.hasAlias name

/-- The colon-separated fields of a spec. -/
def specFields (spec : String) : List String :=
  (spec.toList.splitOn ':').map String.ofList

/-- The echo command of a spec `name[:alias...]`; empty aliases do not count. -/
def ofSpec? (spec : String) : Option Command :=
  match specFields spec with
  | name :: aliases =>
    if name.isEmpty then none
    else some { name := name, aliases := aliases.filter fun a => !a.isEmpty }
  | [] => none

def specError (spec : String) : String := "Command spec '" ++ spec ++ "' has no name"

/-- The aliases without repetition, ordered by code points. -/
def sortedAliases (c : Command) : List String :=
  c.aliases.eraseDups.mergeSort fun a b => !decide (b < a)

/-- The line that an echo command writes. -/
def echoLine (name : String) (args : List String) : String :=
  " ".intercalate (name :: args) ++ "\n"

/-- The line that a command writes on success, with the values it took. -/
def successLine (name : String) (values : List String) : String :=
  echoLine "ok" (name :: values)

end Command

abbrev Registry := List Command

namespace Registry

def find? (registry : Registry) (name : String) : Option Command :=
  List.find? (fun c => c.answersTo name) registry

/-- The place and name of the first command that answers to a name. -/
def locate? (registry : Registry) (name : String) : Option (Nat × String) := do
  let index ← List.findIdx? (fun c : Command => c.answersTo name) registry
  let command ← registry[index]?
  return (index, command.name)

end Registry

end CommandScript
