import CommandScript.Proofs.Parsing.Formulas
import CommandScript.Proofs.Running.Script
import CommandScript.Proofs.Running.Typing

/-! # Scanning formulas

What a line computes that assigns a formula can be read off its operands and operators, in one scan
from the left that keeps a running sum and a running product. The scan meets undefined variables and
divisions by zero in the order in which the tree of the formula raises them.
-/

namespace CommandScript

open Token

/-! ## The scan -/

/-- What an operand stands for in a scope of integers. -/
def Operand.read (scope : Scope) : Operand → Except Cause Int
  | number text => .ok (Text.numeralValue text)
  | name x =>
    match scope.get? x with
    | some (.int n) => .ok n
    | _ => .error (.undefinedVariable x)
  | group inner => inner.read scope

/-- A running sum and a running product, with the sign between them. -/
structure Tally where
  sum : Int := 0
  sign : Op := .add
  product : Int

namespace Tally

/-- The sum with the product joined to it. -/
def total (t : Tally) : Int :=
  if t.sign = .sub then t.sum - t.product else t.sum + t.product

/-- Reads an operator and the operand after it. Division truncates toward zero. -/
def step (t : Tally) (op : Op) (n : Int) : Except Cause Tally :=
  match op with
  | .mul => .ok { t with product := t.product * n }
  | .div =>
    if n = 0 then .error .divisionByZero else .ok { t with product := t.product.tdiv n }
  | sign => .ok { sum := t.total, sign := sign, product := n }

def steps (scope : Scope) (t : Tally) (rest : List (Op × Operand)) : Except Cause Tally :=
  rest.foldlM (fun t p => do t.step p.1 (← p.2.read scope)) t

end Tally

/-- Scans a formula from the left. -/
def Formula.scan (scope : Scope) (f : Formula) : Except Cause Int := do
  let t ← Tally.steps scope { product := ← f.first.read scope } f.rest
  return t.total

/-! ## What a tree computes -/

/-- An operator applied to integers. -/
def Op.apply : Op → Int → Int → Except Cause Int
  | .add, m, n => .ok (m + n)
  | .sub, m, n => .ok (m - n)
  | .mul, m, n => .ok (m * n)
  | .div, m, n => if n = 0 then .error .divisionByZero else .ok (m.tdiv n)
  | op, _, _ => .error (.unknownOperator op.lexeme)

theorem Tally.step_product {op : Op} (ho : op.isProduct = true) (t : Tally) (n : Int) :
    t.step op n = do let p ← op.apply t.product n; return { t with product := p } := by
  cases op with
  | mul => rfl
  | div =>
    rw [step, Op.apply]
    split <;> rfl
  | _ => cases ho

theorem Tally.step_sign {op : Op} (ho : op.isSum = true) (t : Tally) (n : Int) :
    t.step op n = pure { sum := t.total, sign := op, product := n } := by
  cases op with
  | add => rfl
  | sub => rfl
  | _ => cases ho

theorem Tally.apply_sign {t : Tally} (ho : t.sign.isSum = true) :
    t.sign.apply t.sum t.product = .ok t.total := by
  obtain ⟨sum, sign, product⟩ := t
  cases sign with
  | add => rfl
  | sub => rfl
  | _ => cases ho

/-- A value, or a fault at the site. -/
def Site.outcome (site : Site) : Except Cause Int → Except Halt Value
  | .ok n => .ok (.int n)
  | .error cause => .error (site.halt cause)

theorem arithmetic_eq (site : Site) (op : Op) (m n : Int) :
    arithmetic site (.known op) m n = site.outcome (op.apply m n) := by
  cases op with
  | div =>
    rw [arithmetic, Op.apply]
    split <;> rfl
  | _ => rfl

section

variable {site : Site} {scope : Scope} {e e' : Expr} {r r' : Except Cause Int} {op : Op}

/-- The expression has this outcome, if it does not overflow. -/
def Expr.Computes (site : Site) (scope : Scope) (e : Expr) (r : Except Cause Int) : Prop :=
  ∀ depth, eval site scope depth e = .error .overflow ∧ depth < e.height ∨
    eval site scope depth e = site.outcome r

theorem Expr.Computes.arith (h : e.Computes site scope r) (h' : e'.Computes site scope r') :
    (Expr.arith e (.known op) e').Computes site scope (do let m ← r; let n ← r'; op.apply m n) := by
  intro depth
  cases depth with
  | zero => exact Or.inl ⟨rfl, Nat.zero_lt_succ _⟩
  | succ depth =>
    rw [eval]
    rcases h depth with ⟨hx, hd⟩ | hx
    · exact Or.inl ⟨by rw [hx]; rfl, by rw [height]; omega⟩
    rw [hx]
    cases r with
    | error cause => exact Or.inr rfl
    | ok m =>
      rcases h' depth with ⟨hy, hd⟩ | hy
      · exact Or.inl ⟨by rw [hy]; rfl, by rw [height]; omega⟩
      rw [hy]
      cases r' with
      | error cause => exact Or.inr rfl
      | ok n => exact Or.inr (arithmetic_eq site op m n)

theorem Operand.tree_computes (hs : scope.Integers) (a : Operand) :
    a.tree.Computes site scope (a.read scope) := by
  induction a with
  | number text =>
    rintro (_ | depth)
    · exact Or.inl ⟨rfl, Nat.zero_lt_one⟩
    · exact Or.inr rfl
  | name x =>
    rintro (_ | depth)
    · exact Or.inl ⟨rfl, Nat.zero_lt_one⟩
    · right
      rw [tree, read, eval]
      cases hv : Table.get? scope x with
      | none => rfl
      | some v =>
        obtain ⟨n, rfl⟩ := hs.get? hv
        rfl
  | group inner ih => exact ih

namespace Sketch

/-- The parts of a tree under way compute the parts of a tally. -/
inductive Tallies (site : Site) (scope : Scope) : Sketch → Except Cause Tally → Prop where
  | product {p : Expr} {r : Except Cause Int} : p.Computes site scope r →
      Tallies site scope { product := p } (do let n ← r; return { product := n })
  | sum {e p : Expr} {op : Op} {r r' : Except Cause Int} : e.Computes site scope r →
      op.isSum = true → p.Computes site scope r' →
      Tallies site scope { sum := some (e, op), product := p }
        (do let m ← r; let n ← r'; return { sum := m, sign := op, product := n })

variable {k : Sketch} {t : Except Cause Tally} {rest : List (Op × Operand)}

theorem Tallies.tree (h : k.Tallies site scope t) :
    k.tree.Computes site scope (do let t ← t; return t.total) := by
  cases h with
  | @product p r hp =>
    have ht : (do let t ← (do let n ← r; return ({ product := n } : Tally)); return t.total) =
        r := by
      cases r with
      | error cause => rfl
      | ok n => exact congrArg Except.ok (Int.zero_add n)
    rw [ht]
    exact hp
  | @sum e p op r r' he ho hp =>
    have ht : (do
        let t ← (do let m ← r; let n ← r'; return (⟨m, op, n⟩ : Tally))
        return t.total) = (do let m ← r; let n ← r'; op.apply m n) := by
      cases r with
      | error cause => rfl
      | ok m =>
        cases r' with
        | error cause => rfl
        | ok n => exact (Tally.apply_sign (t := ⟨m, op, n⟩) ho).symm
    rw [ht]
    exact he.arith hp

theorem Tallies.step (h : k.Tallies site scope t) (ho : op.isComparison = false)
    (he : e.Computes site scope r) :
    (k.step op e).Tallies site scope (do let t ← t; let n ← r; t.step op n) := by
  unfold Sketch.step
  split
  · next hm =>
    simp only [Tally.step_product hm]
    cases h with
    | @product p q hp =>
      have hq := Tallies.product (p := .arith p (.known op) e) (hp.arith he)
      simpa [bind_assoc] using hq
    | @sum l p sign q q' hl hs hp =>
      have hq := Tallies.sum (p := .arith p (.known op) e) hl hs (hp.arith he)
      simpa [bind_assoc] using hq
  · next hm =>
    have hp : op.isSum = true := by
      simpa [Op.isComparison, hm] using ho
    simp only [Tally.step_sign hp]
    have hq := Tallies.sum h.tree hp he
    simpa [bind_assoc] using hq

/-- Reading on, the tree and the tally stay in step. -/
theorem Tallies.steps (hs : scope.Integers) (h : k.Tallies site scope t)
    (hr : Operand.WellFormedTail rest) :
    (k.steps rest).Tallies site scope (do let t ← t; t.steps scope rest) := by
  induction rest generalizing k t with
  | nil =>
    have ht : (do let t ← t; t.steps scope []) = t := by
      cases t <;> rfl
    rw [ht]
    exact h
  | cons p rest ih =>
    obtain ⟨⟨ho, -⟩, hr⟩ := List.forall_mem_cons.mp hr
    have hk := ih (h.step ho (p.2.tree_computes hs)) hr
    change ((k.step p.1 p.2.tree).steps rest).Tallies site scope _
    simpa [Tally.steps, bind_assoc] using hk

end Sketch

theorem Formula.WellFormed.tree_computes {f : Formula} (h : f.WellFormed) (hs : scope.Integers)
    (site : Site) :
    f.tree.Computes site scope (f.scan scope) := by
  have hp : f.first.tree.Computes site scope (f.first.read scope) := f.first.tree_computes hs
  have hk := ((Sketch.Tallies.product hp).steps hs h.2).tree
  simpa [Formula.scan, Formula.tree, bind_assoc] using hk

-- the division is applied before the variable is read
example : Formula.scan {} ⟨.number "1", [(.div, .number "0"), (.add, .name "y")]⟩ =
    .error .divisionByZero := by
  decide +kernel

end

/-! ## Running an assignment -/

section

variable {ω : Type} {file : Option String} {x script : String} {e : Expr}
  {r : Except Cause Int} {f : Formula} {s : State ω}

/-- What an assignment at the top level makes of the outcome of its right hand side. -/
def Site.assign (site : Site) (x : String) (s : State ω) :
    Except Cause Int → EStateM.Result Halt (State ω) Unit
  | .ok n => .ok ()
      { s with context := { s.context with globals := s.context.globals.put x (.int n) } }
  | .error cause => .error (site.halt cause) s

theorem runStatement_assign (host : Host ω) (rounds calls : Nat) (x : String)
    (h : e.Computes ⟨some 1, file⟩ s.context.globals r) :
    runStatement host file rounds calls (.block [.assign x e 1]) s = .error .overflow s ∧
        calls < e.height + 2 ∨
      runStatement host file rounds calls (.block [.assign x e 1]) s =
        Site.assign ⟨some 1, file⟩ x s r := by
  match calls with
  | 0 => exact Or.inl ⟨rfl, by omega⟩
  | 1 => exact Or.inl ⟨rfl, by omega⟩
  | depth + 2 =>
    unfold runStatement
    rw [exec_block, Run.each_cons, bind_apply, exec_assign, evalInt]
    rcases h depth with ⟨he, hd⟩ | he
    · exact Or.inl ⟨by rw [he]; rfl, by omega⟩
    · right
      rw [he]
      cases r <;> rfl

/-- A line that assigns a formula does what one scan of the formula from the left says, or runs out
of calls. It assigns the integer that the scan gives and changes nothing else, or fails with the
first fault that the scan meets and changes nothing. -/
theorem formula_scanned (host : Host ω) (calls : Nat) (file : Option String) (hx : IsName x)
    (hf : f.WellFormed) (ht : Spaced (f.assignment x) script)
    (hs : s.context.globals.Integers) :
    (calls < callsPerStatement * ((lex script).length + 1) ∧
      ∃ world, executeWithin host calls file script s =
        .error (.fault ⟨.recursionLimit, none, file⟩) { s with world := world }) ∨
    executeWithin host calls file script s =
      match f.scan s.context.globals with
      | .ok n => .ok ()
          { context := { s.context with globals := s.context.globals.put x (.int n) }
            world := host.note (.parsed [.assign x f.tree 1]) s.world }
      | .error cause => .error (.fault ⟨cause, some 1, file⟩)
          { context := s.context
            world := host.note (.failed ⟨cause, some 1, file⟩)
              (host.note (.parsed [.assign x f.tree 1]) s.world) } := by
  rcases parseWithin_of_derives calls file (hf.derives hx ht) with hp | hp
  · rw [executeWithin_parsed hp]
    have hl := hf.height_lt hx ht
    have he := hf.tree_computes hs ⟨some 1, file⟩
    rcases runStatement_assign host roundLimit calls x
      (s := { s with world := host.note (.parsed [.assign x f.tree 1]) s.world }) he with
      ⟨hr, hc⟩ | hr
    · refine Or.inl ⟨?_, _, congrArg (settle host file) hr⟩
      simp only [callsPerStatement]
      omega
    · right
      refine (congrArg (settle host file) hr).trans ?_
      cases f.scan s.context.globals <;> rfl
  · exact Or.inl ⟨lt_of_overflow hp, _, executeWithin_unparsed hp s⟩

theorem formula_scanned_truncating :
    execute (Registry.host []) none "x = 7 - ( y ) /\t2 * 3"
        { context := { globals := ⟨[("y", .int (-5))]⟩ }, world := {} } =
      .ok ()
        { context := { globals := ⟨[("y", .int (-5)), ("x", .int 13)]⟩ }
          world := (Registry.host []).note (.parsed [.assign "x" (.arith (.int 7) (.known .sub)
            (.arith (.arith (.var "y") (.known .div) (.int 2)) (.known .mul) (.int 3))) 1]) {} } := by
  have hx : ∀ x ∈ ["x", "y"], IsName x := by
    simp only [List.forall_mem_cons]
    refine ⟨?_, ?_, by simp⟩ <;>
      exact isName_iff.mpr ⟨⟨by decide +kernel, by simp⟩, by decide +kernel⟩
  have hn : ∀ text ∈ ["7", "2", "3"], (Operand.number text).WellFormed := by
    simp only [List.forall_mem_cons]
    refine ⟨?_, ?_, ?_, by simp⟩ <;>
      exact ⟨⟨by decide, List.forall_mem_singleton.mpr (by decide +kernel)⟩, by decide⟩
  have hf : Formula.WellFormed ⟨.number "7", [(.sub, .group (.name "y")), (.div, .number "2"),
      (.mul, .number "3")]⟩ := by
    refine ⟨hn "7" (by simp), ?_⟩
    simp only [Operand.WellFormedTail, List.forall_mem_cons]
    exact ⟨⟨rfl, hx "y" (by simp)⟩, ⟨rfl, hn "2" (by simp)⟩, ⟨rfl, hn "3" (by simp)⟩, by simp⟩
  have hb : Text.IsGap [' '] := List.forall_mem_singleton.mpr (by decide +kernel)
  have htab : Text.IsGap ['\t'] := List.forall_mem_singleton.mpr (by decide +kernel)
  have he : Text.IsGap [] := by simp [Text.IsGap]
  have ht : Spaced (Formula.assignment "x" ⟨.number "7", [(.sub, .group (.name "y")),
      (.div, .number "2"), (.mul, .number "3")]⟩) "x = 7 - ( y ) /\t2 * 3" :=
    ⟨[], [(name "x", [' ']), (symbol "=", [' ']), (number "7", [' ']), (symbol "-", [' ']),
      (symbol "(", [' ']), (name "y", [' ']), (symbol ")", [' ']), (symbol "/", ['\t']),
      (number "2", [' ']), (symbol "*", [' ']), (number "3", [])], by decide +kernel, rfl,
      he, by simp [hb, htab, he], by simp⟩
  have hs : Scope.Integers ⟨[("y", .int (-5))]⟩ :=
    List.forall_mem_singleton.mpr ⟨-5, rfl⟩
  rcases formula_scanned (Registry.host []) stackLimit none (hx "x" (by simp)) hf ht
    (s := { context := { globals := ⟨[("y", .int (-5))]⟩ }, world := {} }) hs with ⟨hc, -⟩ | h
  · exact absurd hc (by decide +kernel)
  · exact h

end

end CommandScript
