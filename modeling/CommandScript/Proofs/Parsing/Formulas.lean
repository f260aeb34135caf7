import CommandScript.Proofs.Rendering

/-! # Formulas

A formula is a flat sequence of operands with arithmetic operators between them. Read from the left,
it keeps a sum and the product after it: an operator of a product goes on with the product, a sign
joins the product to the sum. The tree that comes of it is the one the tokens derive.
-/

namespace CommandScript

open Token Grammar

/-- A number or a name, in parentheses or not. -/
inductive Operand where
  | number (text : String)
  | name (x : String)
  | group (inner : Operand)
  deriving DecidableEq, Repr

/-- The digits of a numeral as a number. -/
def Text.numeralValue (text : String) : Nat :=
  positional (text.toList.filterMap digitValue?)

namespace Operand

def tokens : Operand → List Token
  | number text => [Token.number text]
  | name x => [Token.name x]
  | group inner => symbol "(" :: (inner.tokens ++ [symbol ")"])

/-- Parentheses leave no trace in the tree. -/
def tree : Operand → Expr
  | number text => .int (Text.numeralValue text)
  | name x => .var x
  | group inner => inner.tree

/-- The numbers are digits and not too many, the names are no keywords. -/
def WellFormed : Operand → Prop
  | number text => Text.IsNumeral text.toList ∧ text.length ≤ Text.digitLimit
  | name x => IsName x
  | group inner => inner.WellFormed

end Operand

/-- Operands with an operator before each one but the first. -/
structure Formula where
  first : Operand
  rest : List (Op × Operand)
  deriving DecidableEq, Repr

/-- A tree under way: the sum so far with the sign behind it, and the product after the sign. -/
structure Sketch where
  sum : Option (Expr × Op) := none
  product : Expr

namespace Sketch

/-- The sum that the product ends. -/
def tree : Sketch → Expr
  | ⟨none, p⟩ => p
  | ⟨some (e, op), p⟩ => .arith e (.known op) p

def step (k : Sketch) (op : Op) (e : Expr) : Sketch :=
  if op.isProduct then { k with product := .arith k.product (.known op) e }
  else { sum := some (k.tree, op), product := e }

def steps (k : Sketch) (rest : List (Op × Operand)) : Sketch :=
  rest.foldl (fun k p => k.step p.1 p.2.tree) k

end Sketch

/-- The tokens of operands with an operator before each. -/
def Operand.tail (rest : List (Op × Operand)) : List Token :=
  rest.flatMap fun (op, a) => symbol op.lexeme :: a.tokens

/-- The operands are well formed, and the operators are `+`, `-`, `*` and `/`. -/
def Operand.WellFormedTail (rest : List (Op × Operand)) : Prop :=
  ∀ p ∈ rest, p.1.isComparison = false ∧ p.2.WellFormed

namespace Formula

def tokens (f : Formula) : List Token := f.first.tokens ++ Operand.tail f.rest

def tree (f : Formula) : Expr := (Sketch.steps { product := f.first.tree } f.rest).tree

def WellFormed (f : Formula) : Prop := f.first.WellFormed ∧ Operand.WellFormedTail f.rest

end Formula

/-! ## Deriving the tree -/

theorem Text.filterMap_eq_of_mapM {cs : List Char} {ds : List Nat}
    (h : cs.mapM digitValue? = some ds) : cs.filterMap digitValue? = ds := by
  have hf := forall₂_of_mapM h
  clear h
  induction hf with
  | nil => rfl
  | cons hd _ ih => rw [List.filterMap_cons_some hd, ih]

theorem Operand.WellFormed.term {a : Operand} (h : a.WellFormed) :
    Term a.tokens a.tree ∧ ∀ t ∈ a.tokens, t.WellFormed := by
  induction a with
  | number text =>
    obtain ⟨hn, hl⟩ := h
    obtain ⟨ds, hds, hd⟩ := hn.mapM_digitValue?
    refine ⟨?_, List.forall_mem_singleton.mpr hn⟩
    rw [tree, Text.numeralValue, Text.filterMap_eq_of_mapM hds]
    exact .number hds (by rwa [hd, String.length_toList])
  | name x => exact ⟨.name x, List.forall_mem_singleton.mpr (isName_iff.mp h)⟩
  | group inner ih =>
    obtain ⟨ht, hw⟩ := ih h
    exact ⟨.group ht, List.forall_mem_cons.mpr ⟨Parser.open_wellFormed, List.forall_mem_append.mpr
      ⟨hw, List.forall_mem_singleton.mpr Parser.close_wellFormed⟩⟩⟩

namespace Sketch

variable {k : Sketch} {ts us : List Token} {e : Expr} {op : Op} {rest : List (Op × Operand)}

/-- The tokens spell the sum, its sign and the product. -/
inductive Spells : Sketch → List Token → Prop where
  | product {ts : List Token} {p : Expr} : Product ts p → Spells { product := p } ts
  | sum {ts us : List Token} {e p : Expr} {op : Op} : Sum ts e → op.isSum = true → Product us p →
      Spells { sum := some (e, op), product := p } (ts ++ symbol op.lexeme :: us)

theorem Spells.tree (h : Spells k ts) : Sum ts k.tree := by
  cases h with
  | product hp => exact .single hp
  | sum hs ho hp => exact .join hs ho hp

theorem Spells.step (h : Spells k ts) (ho : op.isComparison = false) (he : Term us e) :
    Spells (k.step op e) (ts ++ symbol op.lexeme :: us) := by
  unfold Sketch.step
  split
  · next hm =>
    cases h with
    | product hp => exact .product (.join hp hm he)
    | sum hs hp hq =>
      rw [List.append_assoc, List.cons_append]
      exact .sum hs hp (.join hq hm he)
  · next hm =>
    have hp : op.isSum = true := by
      simpa [Op.isComparison, hm] using ho
    exact .sum h.tree hp (.single he)

theorem Spells.steps (h : Spells k ts) (hr : Operand.WellFormedTail rest) :
    Spells (k.steps rest) (ts ++ Operand.tail rest) := by
  induction rest generalizing k ts with
  | nil => exact (List.append_nil ts).symm ▸ h
  | cons p rest ih =>
    obtain ⟨⟨ho, ha⟩, hr⟩ := List.forall_mem_cons.mp hr
    rw [Operand.tail, List.flatMap_cons, ← List.append_assoc]
    exact ih (h.step ho ha.term.1) hr

end Sketch

namespace Formula

variable {f : Formula}

theorem WellFormed.sum (h : f.WellFormed) : Sum f.tokens f.tree :=
  ((Sketch.Spells.product (.single h.1.term.1)).steps h.2).tree

theorem WellFormed.tokens_wellFormed (h : f.WellFormed) : ∀ t ∈ f.tokens, t.WellFormed := by
  obtain ⟨hf, hr⟩ := h
  refine List.forall_mem_append.mpr ⟨hf.term.2, ?_⟩
  intro t ht
  obtain ⟨p, hp, ht⟩ := List.mem_flatMap.mp ht
  rcases List.mem_cons.mp ht with rfl | ht
  · exact Expr.lexeme_wellFormed p.1
  · exact (hr p hp).2.term.2 t ht

end Formula

/-! ## The height of a tree -/

namespace Grammar

variable {ts : List Token} {e : Expr}

theorem Term.height_le (h : Term ts e) : e.height ≤ ts.length := by
  induction h with
  | number => exact Nat.le_refl 1
  | name => exact Nat.le_refl 1
  | group _ ih =>
    rw [List.length_cons, List.length_append]
    omega

theorem Chain.height_le {allowed : Op → Bool} {Operand : List Token → Expr → Prop}
    (ho : ∀ ts e, Operand ts e → e.height ≤ ts.length) (h : Chain allowed Operand ts e) :
    e.height ≤ ts.length := by
  induction h with
  | single h => exact ho _ _ h
  | join _ _ hr ih =>
    have := ho _ _ hr
    rw [Expr.height, List.length_append, List.length_cons]
    omega

theorem Sum.height_le (h : Sum ts e) : e.height ≤ ts.length :=
  Chain.height_le (fun _ _ => Chain.height_le fun _ _ => Term.height_le) h

end Grammar

/-! ## Lines that assign a formula -/

namespace Formula

variable {f : Formula} {x script : String}

/-- The tokens of an assignment of the formula. -/
def assignment (x : String) (f : Formula) : List Token := name x :: symbol "=" :: f.tokens

theorem WellFormed.lex_eq (h : f.WellFormed) (hx : IsName x)
    (hs : Spaced (f.assignment x) script) : lex script = f.assignment x ++ [newline] :=
  hs.lex_eq (List.forall_mem_cons.mpr ⟨isName_iff.mp hx, List.forall_mem_cons.mpr
    ⟨Parser.equals_wellFormed, h.tokens_wellFormed⟩⟩)

/-- A line that assigns a formula derives the assignment of its tree. -/
theorem WellFormed.derives (h : f.WellFormed) (hx : IsName x)
    (hs : Spaced (f.assignment x) script) : Derives (lex script) [.assign x f.tree 1] := by
  have ht : lex script = f.assignment x ++ [newline] ++ [] := by
    rw [h.lex_eq hx hs, List.append_nil]
  rw [Derives, ht]
  exact .statement (.assign h.sum) (.nil _)

theorem WellFormed.height_lt (h : f.WellFormed) (hx : IsName x)
    (hs : Spaced (f.assignment x) script) : f.tree.height + 2 < (lex script).length := by
  have := h.sum.height_le
  rw [h.lex_eq hx hs, assignment, List.length_append, List.length_cons, List.length_cons,
    List.length_singleton]
  omega

end Formula

end CommandScript
