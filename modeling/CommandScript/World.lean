import CommandScript.Command.Argument
import CommandScript.Exec

/-! # The world of a registry

Commands write output and may run scripts of their own. Every attempt to dispatch is recorded,
whether a command answers or not. A session has one shared context; while a script runs in a
context of its own, the shared context is kept aside.
-/

namespace CommandScript

structure World where
  output : String := ""
  dispatched : Array (String × List String) := #[]
  /-- Whether the log is shown. -/
  verbose : Bool := false
  log : Array Event := #[]
  /-- The shared context, unless it is the one that is running. -/
  aside : Option Context := none

namespace World

def write (w : World) (text : String) : World := { w with output := w.output ++ text }

def note (event : Event) (w : World) : World := { w with log := w.log.push event }

def record (w : World) (name : String) (args : List String) : World :=
  { w with dispatched := w.dispatched.push (name, args) }

end World

abbrev Job := Task World

namespace Job

def write (text : String) : Job Unit :=
  modify fun s => { s with world := s.world.write text }

/-- Runs a job in a context of its own. -/
def inOwnContext (job : Job Unit) : Job Unit := fun s =>
  let own := { s.world with aside := some (s.world.aside.getD s.context) }
  let back (after : State World) : State World :=
    match s.world.aside with
    | some _ => { after with context := s.context }
    | none =>
      { context := after.world.aside.getD s.context, world := { after.world with aside := none } }
  match job { context := {}, world := own } with
  | .ok _ after => .ok () (back after)
  | .error halt after => .error halt (back after)

/-- Runs a job in the shared context. -/
def inSharedContext (job : Job Unit) : Job Unit := fun s =>
  match s.world.aside with
  | none => job s
  | some shared =>
    let back (after : State World) : State World :=
      { context := s.context, world := { after.world with aside := some after.context } }
    match job { context := shared, world := { s.world with aside := none } } with
    | .ok _ after => .ok () (back after)
    | .error halt after => .error halt (back after)

/-- Only faults leave a command: any other error in it makes the command a failed one. -/
def guarded (name : String) (job : Job Unit) : Job Unit := fun s =>
  match job s with
  | .error (.fault f) after => .error (.fault f) after
  | .error .endless after => .error .endless after
  | .error halt after => .error (.fault { cause := .commandFailed name halt.text }) after
  | result => result

end Job

/-- Carries out an action; `runScript` runs the scripts of commands. -/
def Action.perform (runScript : Option String → String → Job Unit)
    (called name : String) (args : List String) : Action → Job Unit
  | echo => Job.write (Command.echoLine name args)
  | integers count low high => do
    Task.ofExcept (Argument.checkCount args count)
    let values ← Task.ofExcept (args.mapM (Argument.integer low high))
    Job.write (Command.successLine name (values.map Int.repr))
  | switches => do
    let values ← Task.ofExcept (args.mapM Argument.switch)
    Job.write (Command.successLine name (values.map fun b => if b then "true" else "false"))
  | crash text => throw (.fault { cause := .commandFailed called text })
  | raise fault => throw (.fault fault)
  | script text file shared => do
    if shared then Job.inSharedContext (runScript file text)
    else Job.inOwnContext (runScript file text)
    Job.write (Command.successLine name [])

namespace Registry

def dispatch (registry : Registry) (runScript : Option String → String → Job Unit)
    (name : String) (args : List String) : Job Unit := do
  modify fun s => { s with world := s.world.record name args }
  match registry.find? name with
  | none => throw (.fault { cause := .unknownCommand name })
  | some command =>
    modify fun s => { s with world := s.world.note (.dispatching command.name args) }
    Job.guarded name (command.action.perform runScript name command.name args)

/-- How many calls lie between a command in a script and the script that it runs. -/
def callsPerScript : Nat := 5

/-- The host whose commands may run scripts that run commands, `levels` deep. -/
def hostWithin (registry : Registry) : Nat → Host World
  | 0 =>
    { dispatch := fun _ => registry.dispatch fun file _ =>
        throw (.fault ⟨.recursionLimit, none, file⟩)
      note := World.note }
  | levels + 1 =>
    { dispatch := fun calls => registry.dispatch fun file script =>
        executeWithin (registry.hostWithin levels) (calls - callsPerScript) file script
      note := World.note }

/-- More levels than the stack has room for. -/
def scriptLevels : Nat := 200

def host (registry : Registry) : Host World := registry.hostWithin scriptLevels

end Registry

end CommandScript
