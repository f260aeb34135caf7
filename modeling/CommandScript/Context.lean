import CommandScript.Stmt
import CommandScript.Table

/-! # Contexts

All state of a running script: its global variables and its method table. A method is filed
under its name and arity, but an invocation is resolved by arity alone.
-/

namespace CommandScript

inductive Value where
  | int (n : Int)
  | bool (b : Bool)
  deriving DecidableEq, Repr

abbrev Scope := Table String Value

structure Signature where
  name : String
  arity : Nat
  deriving DecidableEq, Repr

def Signature.text (s : Signature) : String := s.name ++ "/" ++ s.arity.repr

structure Method where
  name : String
  params : List String
  body : Stmt
  line : Int
  deriving Repr

def Method.signature (m : Method) : Signature := ⟨m.name, m.params.length⟩

structure Context where
  globals : Scope := {}
  methods : Table Signature Method := {}

namespace Context

def define (c : Context) (m : Method) : Context :=
  { c with methods := c.methods.put m.signature m }

/-- The first method in the table that takes this many arguments. -/
def resolve? (c : Context) (arity : Nat) : Option Method :=
  (c.methods.entries.find? fun entry => entry.1.arity == arity).map Prod.snd

end Context

end CommandScript
