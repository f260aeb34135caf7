import CommandScript.World

/-! # Sessions

A session runs scripts one after another over one registry. They share a context unless a
script asks for a fresh one.
-/

namespace CommandScript

structure Session where
  file : Option String
  registry : Registry := []
  context : Context := {}
  world : World := {}

/-- What came of a step: the context it ran in, and the halt if it stopped. -/
structure Outcome where
  context : Context
  halt : Option Halt := none

namespace Session

/-- Forgets the effects of earlier steps. -/
def clear (s : Session) : Session :=
  { s with world := { s.world with output := "", dispatched := #[], log := #[] } }

/-- Registers a command after the others; the number of commands is the answer. -/
def register (s : Session) (command : Command) : Session × Nat :=
  let registry := s.registry ++ [command]
  ({ s with registry := registry, world := s.world.note (.registered command.name) },
    registry.length)

def ofResult : EStateM.Result Halt (State World) Unit → Outcome × World
  | .ok _ after => ({ context := after.context }, after.world)
  | .error halt after => ({ context := after.context, halt := some halt }, after.world)

/-- Runs a job in the shared context. -/
def perform (s : Session) (job : Job Unit) : Session × Outcome :=
  let (outcome, world) := ofResult (job { context := s.context, world := s.world })
  ({ s with context := outcome.context, world := world }, outcome)

def execute (s : Session) (script : String) : Session × Outcome :=
  s.perform (CommandScript.execute s.registry.host s.file script)

/-- Runs a job in the given context while the shared one is kept aside. -/
def performIn (s : Session) (context : Context) (job : Job Unit) : Session × Outcome :=
  let world := { s.world with aside := some s.context }
  let (outcome, after) := ofResult (job { context := context, world := world })
  ({ s with context := after.aside.getD s.context, world := { after with aside := none } }, outcome)

/-- Runs a script in a context of its own. -/
def executeFresh (s : Session) (script : String) : Session × Outcome :=
  s.performIn {} (CommandScript.execute s.registry.host s.file script)

/-- Runs a statement made by hand. -/
def runStatement (s : Session) (statement : Stmt) : Session × Outcome :=
  s.perform (run s.registry.host s.file statement)

/-- Runs a statement made by hand in a context of its own, with the given variables. -/
def runStatementWith (s : Session) (globals : Scope) (statement : Stmt) : Session × Outcome :=
  s.performIn { globals := globals } (run s.registry.host s.file statement)

def dispatch (s : Session) (name : String) (args : List String) : Session × Outcome :=
  s.perform (s.registry.host.dispatch stackLimit name args)

end Session

end CommandScript
