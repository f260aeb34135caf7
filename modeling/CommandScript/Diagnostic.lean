import CommandScript.Stmt.Parser
import CommandScript.Text.Line

/-! # Diagnostics

A text that does not parse has one diagnostic: the reason, over the whole line of the fault.
-/

namespace CommandScript

/-- A place in a document: line and character, both from zero. -/
structure Position where
  line : Nat
  character : Nat
  deriving DecidableEq, Repr

structure Range where
  start : Position
  stop : Position
  deriving DecidableEq, Repr

structure Diagnostic where
  range : Range
  message : String
  deriving DecidableEq, Repr

namespace Diagnostic

def severity : String := "Error"

def source : String := "ase"

/-- The diagnostic for a refusal at this line, which counts from one and is moved into the
text. -/
def atLine (text reason : String) (line : Int) : Diagnostic :=
  let lines := match Text.lines text with
    | [] => [[]]
    | lines => lines
  let index := min (line - 1).toNat (lines.length - 1)
  ⟨⟨⟨index, 0⟩, ⟨index, (lines.getD index []).length⟩⟩, reason⟩

/-- The diagnostics of a text with the program it parses to, if it does. -/
def check (text : String) : Except Halt (Except Diagnostic Program) :=
  match parseTokens stackLimit (lex text) with
  | .ok program => .ok (.ok program)
  | .error (.malformed reason _ line) => .ok (.error (atLine text reason line))
  | .error .tooDeep => .error .overflow

def collect (text : String) : Except Halt (List Diagnostic) := do
  match ← check text with
  | .ok _ => return []
  | .error diagnostic => return [diagnostic]

end Diagnostic

end CommandScript
