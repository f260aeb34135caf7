/-! # Tables

A table maps keys to values and keeps the order in which keys were first put. Putting a key
again keeps its place.
-/

namespace CommandScript

structure Table (κ α : Type) where
  entries : List (κ × α) := []
  deriving DecidableEq, Repr

namespace Table

variable {κ α : Type} [DecidableEq κ]

def keys (t : Table κ α) : List κ := t.entries.map Prod.fst

def values (t : Table κ α) : List α := t.entries.map Prod.snd

def get? (t : Table κ α) (k : κ) : Option α := t.entries.lookup k

/-- Replaces the value of a key in its place, or appends it. -/
def putEntry (k : κ) (v : α) : List (κ × α) → List (κ × α)
  | [] => [(k, v)]
  | (k', v') :: rest => if k' = k then (k', v) :: rest else (k', v') :: putEntry k v rest

def put (t : Table κ α) (k : κ) (v : α) : Table κ α := ⟨putEntry k v t.entries⟩

end Table

end CommandScript
