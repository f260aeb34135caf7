import CommandScript.Eval
import CommandScript.Event
import CommandScript.Stmt.Parser

/-! # Running statements

A statement runs in a frame: the context, the local scope of the running method if there is
one, and the state of the host that carries out commands. Identifiers are looked up in the
active scope, but the right hand side of an assignment reads the global scope wherever it
stands. A run that stops keeps what it did.
-/

namespace CommandScript

structure State (ω : Type) where
  context : Context
  world : ω

/-- Computations of a host: they change contexts and the host's own state. -/
abbrev Task (ω : Type) := EStateM Halt (State ω)

structure Host (ω : Type) where
  /-- Carries out the command of this name, with so many calls at most. -/
  dispatch : Nat → String → List String → Task ω Unit
  /-- Takes note of an event. -/
  note : Event → ω → ω

structure Frame (ω : Type) extends State ω where
  /-- The scope of the running method; at the top level the globals are active. -/
  locals : Option Scope := none

namespace Frame

variable {ω : Type}

def active (frame : Frame ω) : Scope := frame.locals.getD frame.context.globals

def assign (frame : Frame ω) (name : String) (value : Value) : Frame ω :=
  match frame.locals with
  | some locals => { frame with locals := some (locals.put name value) }
  | none =>
    { frame with
      context := { frame.context with globals := frame.context.globals.put name value } }

end Frame

abbrev Run (ω : Type) := EStateM Halt (Frame ω)

namespace Run

variable {ω : Type}

def ofExcept {α : Type} : Except Halt α → Run ω α
  | .ok a => return a
  | .error halt => throw halt

/-- Runs `body` in a local scope of its own and then goes back to the old scope. -/
def inScope (locals : Scope) (body : Run ω Unit) : Run ω Unit := fun ⟨state, outer⟩ =>
  match body ⟨state, some locals⟩ with
  | .ok _ after => .ok () { after with locals := outer }
  | .error halt after => .error halt { after with locals := outer }

/-- Has the host carry out a command. Its fault gets the given location if it has none. -/
def dispatch (host : Host ω) (site : Site) (calls : Nat) (name : String) (args : List String) :
    Run ω Unit :=
  fun ⟨state, locals⟩ =>
    match host.dispatch calls name args state with
    | .ok _ after => .ok () ⟨after, locals⟩
    | .error (.fault f) after => .error (.fault (f.locate site.line site.file)) ⟨after, locals⟩
    | .error halt after => .error halt ⟨after, locals⟩

def note (host : Host ω) (event : Event) : Run ω Unit :=
  modify fun frame => { frame with world := host.note event frame.world }

/-- Runs `body` as long as `test` holds, for fewer than the given number of rounds. -/
def repeatWhile (test : Run ω Bool) (body : Run ω Unit) : Nat → Run ω Unit
  | 0 => throw .endless
  | n + 1 => do
    if ← test then
      body
      repeatWhile test body n

def each {α : Type} (f : α → Run ω Unit) : List α → Run ω Unit
  | [] => return
  | a :: rest => do
    f a
    each f rest

end Run

/-- The local scope of an invocation: the arguments, evaluated in order, under the names of the
parameters. -/
def bindArguments (site : Site) (scope : Scope) (depth : Nat) :
    List (String × Expr) → Scope → Except Halt Scope
  | [], locals => .ok locals
  | (name, arg) :: rest, locals => do
    let n ← evalInt site scope depth arg
    bindArguments site scope depth rest (locals.put name (.int n))

section

variable {ω : Type} (host : Host ω) (file : Option String) (rounds : Nat)

def exec : Nat → Stmt → Run ω Unit
  | 0, _ => throw .overflow
  | depth + 1, statement => do
    match statement with
    | .block statements => Run.each (exec depth) statements
    | .conditional condition body line =>
      if ← Run.ofExcept (evalBool ⟨some line, file⟩ (← get).active (depth - 1) condition) then
        exec depth body
    | .loop condition body line =>
      let test := do
        Run.ofExcept (evalBool ⟨some line, file⟩ (← get).active (depth - 1) condition)
      Run.repeatWhile test (exec depth body) rounds
    | .assign name value line =>
      let n ← Run.ofExcept (evalInt ⟨some line, file⟩ (← get).context.globals depth value)
      modify fun frame => frame.assign name (.int n)
    | .define name params body line =>
      let method : Method := ⟨name, params, body, line⟩
      modify fun frame => { frame with context := frame.context.define method }
      Run.note host (.defined method.signature)
    | .invoke name args line =>
      match depth with
      | 0 => throw .overflow
      | inner + 1 =>
        let site : Site := ⟨some line, file⟩
        let frame ← get
        match frame.context.resolve? args.length with
        | none => throw (site.halt (.unresolvedMethod name args.length))
        | some method =>
          let locals ← Run.ofExcept
            (bindArguments site frame.active inner (method.params.zip args) {})
          Run.note host (.invoking name method.name locals)
          Run.inScope locals (exec inner method.body)
    | .command name args line =>
      let site : Site := ⟨some line, file⟩
      let texts ← Run.ofExcept (args.mapM (evalText site (← get).active depth))
      Run.dispatch host site depth name texts
    | .misplaced tree => throw (tree.outOfPlace depth)

end

section

variable {ω : Type}

/-- Runs a statement against the global scope. -/
def runStatement (host : Host ω) (file : Option String) (rounds depth : Nat) (s : Stmt) :
    Task ω Unit := fun state =>
  match exec host file rounds depth s { toState := state } with
  | .ok _ frame => .ok () frame.toState
  | .error halt frame => .error halt frame.toState

/-- No loop of a script that ends is expected to run this often. -/
def roundLimit : Nat := Nat.pow 2 62

def run (host : Host ω) (file : Option String) (s : Stmt) : Task ω Unit :=
  runStatement host file roundLimit stackLimit s

def Task.ofExcept {α : Type} : Except Halt α → Task ω α
  | .ok a => return a
  | .error halt => throw halt

def Task.note (host : Host ω) (event : Event) : Task ω Unit :=
  modify fun state => { state with world := host.note event state.world }

/-- Stops with a fault and takes note of it. -/
def Task.refuse (host : Host ω) (fault : Fault) : Task ω Unit := do
  Task.note host (.failed fault)
  throw (.fault fault)

/-- Parses a script and runs it, with so many calls at most. Exhausting them is a fault like any
other. -/
def executeWithin (host : Host ω) (calls : Nat) (file : Option String) (script : String) :
    Task ω Unit := fun state =>
  let attempt : Task ω Unit := do
    let program ← Task.ofExcept (parseWithin calls file script)
    Task.note host (.parsed program)
    runStatement host file roundLimit calls (.block program)
  match attempt state with
  | .error (.fault fault) after => Task.refuse host fault after
  | .error .overflow after => Task.refuse host ⟨.recursionLimit, none, file⟩ after
  | result => result

def execute (host : Host ω) (file : Option String) (script : String) : Task ω Unit :=
  executeWithin host stackLimit file script

end

end CommandScript
