import CommandScript.Fault

/-! # Raised faults

A fault that has been raised holds its text: it is written when the fault is raised, and anew when
the fault is located, not whenever somebody reads it.
-/

namespace CommandScript

structure Raised extends Fault where
  text : String
  deriving DecidableEq, Repr

def Fault.raise (f : Fault) : Raised := { f with text := f.message }

/-- Locates a raised fault that has no line yet. The text is written anew even if the call brings
no line. -/
def Raised.locate (r : Raised) (line : Option Int) (file : Option String) : Raised :=
  match r.line with
  | some _ => r
  | none =>
    let located : Fault := { r.toFault with line := line, file := r.file.or file }
    { located with text := located.message }

end CommandScript
