import CommandScript.Command

/-! # Checking arguments

Commands receive text and check it themselves.
-/

namespace CommandScript.Argument

def fault (cause : Cause) : Halt := .fault { cause := cause }

def outOfBounds (n low high : Int) : Halt :=
  match Text.decimal? n, Text.decimal? low, Text.decimal? high with
  | some n, some low, some high =>
    fault (.outOfBounds
      ("Integer, " ++ n ++ ", was not within the bounds of " ++ low ++ " and " ++ high))
  | _, _, _ => .integerText

/-- An integer from `low` to `high`, both included. -/
def integer (low high : Int) (argument : String) : Except Halt Int :=
  match Text.readInt? argument with
  | none =>
    .error (fault (.invalidArgument ("Could not parse " ++ argument ++ " into a valid integer.")))
  | some n => if n < low ∨ high < n then .error (outOfBounds n low high) else .ok n

/-- A switch is on or off. -/
def switch (argument : String) : Except Halt Bool :=
  if argument = "on" ∨ argument = "true" then .ok true
  else if argument = "off" ∨ argument = "false" then .ok false
  else .error (fault (.invalidArgument
    "Could not parse argument to boolean. (on/off) or (true/false)"))

def checkCount (args : List String) (expected : Int) : Except Halt Unit :=
  if (args.length : Int) = expected then .ok ()
  else .error (fault (.argumentCount expected args.length))

end CommandScript.Argument
