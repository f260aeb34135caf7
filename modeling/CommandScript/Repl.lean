import CommandScript.World

/-! # The interactive loop

Lines are gathered in a buffer as long as they end inside an open block. Variables and methods
stay from one input to the next.
-/

namespace CommandScript

structure Repl where
  registry : Registry
  state : State World
  /-- The lines of the started input, the last one first. -/
  buffer : List String := []

/-- How the loop ends. -/
inductive Ending where
  | endOfInput
  | interrupt
  deriving DecidableEq, Repr

namespace Repl

def file : Option String := some "<stdin>"

def banner : String := "ASE Script Interpreter - REPL\nType `exit` or `quit` to leave.\n"

def write (r : Repl) (text : String) : Repl :=
  { r with state := { r.state with world := r.state.world.write text } }

def prompt (r : Repl) : String := if r.buffer.isEmpty then ">>> " else "... "

/-- Whether a line asks to leave. -/
def leaves (line : String) : Bool :=
  let word := String.ofList (Text.trim Text.isBlank line.toList)
  word = "exit" || word = "quit"

def input (r : Repl) : String := "\n".intercalate r.buffer.reverse

/-- Runs what has been gathered. Input that is not complete yet stays in the buffer. -/
def runBuffer (r : Repl) : Except (Halt × Repl) Repl :=
  match execute r.registry.host file r.input r.state with
  | .ok _ after => .ok { r with state := after, buffer := [] }
  | .error (.fault f) after =>
    let r := { r with state := after }
    if f.incomplete then .ok r
    else .ok (({ r with buffer := [] } : Repl).write (f.report ++ "\n"))
  | .error halt after => .error (halt, { r with state := after })

/-- What a line leads to. -/
inductive Next where
  | again (r : Repl)
  | leave (r : Repl)
  | escape (halt : Halt) (r : Repl)

def step (r : Repl) (line : String) : Next :=
  if r.buffer.isEmpty && leaves line then .leave r
  else
    match runBuffer { r with buffer := line :: r.buffer } with
    | .ok r => .again r
    | .error (halt, r) => .escape halt r

def farewell : Ending → String
  | .endOfInput => "\n"
  | .interrupt => "\nInterrupted.\n"

/-- Feeds lines, each after a prompt, and then ends. -/
def feed (ending : Ending) : List String → Repl → Except (Halt × Repl) Repl
  | [], r => .ok ((r.write r.prompt).write (farewell ending))
  | line :: rest, r =>
    match (r.write r.prompt).step line with
    | .again r => feed ending rest r
    | .leave r => .ok r
    | .escape halt r => .error (halt, r)

end Repl

end CommandScript
