import CommandScript.Stmt

/-! # Symbols

The methods and variables that a program defines at its top level. A variable is listed once,
where it is first assigned. Lines count from zero.
-/

namespace CommandScript

inductive SymbolKind where
  | method | binding
  deriving DecidableEq, Repr

def SymbolKind.label : SymbolKind → String
  | .method => "Method"
  | .binding => "Variable"

structure Symbol where
  name : String
  kind : SymbolKind
  uri : String
  line : Int
  detail : String
  deriving DecidableEq, Repr

namespace Symbol

def ofMethod (uri name : String) (params : List String) (line : Int) : Symbol :=
  ⟨name, .method, uri, line - 1, "Method " ++ name ++ "(" ++ ", ".intercalate params ++ ")"⟩

def ofBinding (uri name text : String) (line : Int) : Symbol :=
  ⟨name, .binding, uri, line - 1, name ++ " = " ++ text⟩

/-- The symbols of the statements, of which `seen` are the variables assigned before them. -/
def collectFrom (uri : String) : List String → Program → Except Halt (List Symbol)
  | _, [] => .ok []
  | seen, .define name params _ line :: rest => do
    return ofMethod uri name params line :: (← collectFrom uri seen rest)
  | seen, .assign name value line :: rest =>
    if seen.contains name then collectFrom uri seen rest
    else do
      let text ← value.describeWithin stackLimit
      return ofBinding uri name text line :: (← collectFrom uri (name :: seen) rest)
  | seen, _ :: rest => collectFrom uri seen rest

def collect (uri : String) (program : Program) : Except Halt (List Symbol) :=
  collectFrom uri [] program

end Symbol

end CommandScript
