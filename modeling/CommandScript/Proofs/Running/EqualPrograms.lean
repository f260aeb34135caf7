import CommandScript.Proofs.Equality
import CommandScript.Proofs.Running.Commands
import CommandScript.Proofs.Tables

/-! # Programs that compare equal

The comparison of programs ignores lines, and so does a run, but for where it locates a fault and
how it shows a misplaced tree. Programs that compare equal go the same way in contexts that do.
-/

namespace CommandScript

/-- Nothing that may stand where it stands is kept as misplaced. Every statement that is made of a
tree is such. -/
def Stmt.Placed (s : Stmt) : Prop := s.toTree.toStmt = s

def Context.Placed (c : Context) : Prop := ∀ m ∈ c.methods.values, m.body.Placed

/-- Contexts with equal variables, and with methods that compare equal, one after the other. -/
structure Context.Same (c c' : Context) : Prop where
  globals : ∀ x, c.globals.get? x = c'.globals.get? x
  methods : List.Forall₂ (fun e e' => e.1 = e'.1 ∧ Tree.Same e.2.toTree e'.2.toTree)
    c.methods.entries c'.methods.entries

/-- Halts that differ at most in the line of a fault, and in the lines of a tree that is shown. -/
inductive Halt.SameButLine : Halt → Halt → Prop where
  | same (h : Halt) : SameButLine h h
  | fault {f g : Fault} : f.cause = g.cause → f.file = g.file → SameButLine (.fault f) (.fault g)
  | unreachable {t t' : Tree} {depth : Nat} {text text' : String} : Tree.Same t t' →
      t.outOfPlace depth = .unreachable text → t'.outOfPlace depth = .unreachable text' →
      SameButLine (.unreachable text) (.unreachable text')

namespace Tree

variable {α β : Type} {t t' : Tree}

/-- Whether and why a computation stops. -/
def stop (x : Except Halt α) : Except Halt Unit := x.map fun _ => ()

theorem stop_bind {x y : Except Halt α} {k l : α → Except Halt β} (hx : stop x = stop y)
    (hk : ∀ a b, stop (k a) = stop (l b)) : stop (x >>= k) = stop (y >>= l) := by
  cases x with
  | ok a =>
    cases y with
    | ok b => exact hk a b
    | error h => cases hx
  | error h =>
    cases y with
    | ok b => cases hx
    | error h' => cases hx; rfl

theorem stop_one {x y : Except Halt α} {k l : α → β} (hx : stop x = stop y) :
    stop (do let a ← x; return k a) = stop (do let a ← y; return l a) :=
  stop_bind hx fun _ _ => rfl

theorem stop_pair {x x' y y' : Except Halt α} {k l : α → α → β} (hx : stop x = stop x')
    (hy : stop y = stop y') :
    stop (do let a ← x; let b ← y; return k a b) =
      stop (do let a ← x'; let b ← y'; return l a b) :=
  stop_bind hx fun _ _ => stop_one hy

theorem stop_mapM {k : Tree → Except Halt String}
    (hk : ∀ {t t' : Tree}, t.withoutLines = t'.withoutLines → stop (k t) = stop (k t'))
    {ts ts' : List Tree} (h : withoutLinesAll ts = withoutLinesAll ts') :
    stop (ts.mapM k) = stop (ts'.mapM k) := by
  induction ts generalizing ts' with
  | nil =>
    cases ts' with
    | nil => rfl
    | cons t' ts' => cases h
  | cons t ts ih =>
    cases ts' with
    | nil => cases h
    | cons t' ts' =>
      obtain ⟨ht, hts⟩ := List.cons.inj h
      rw [List.mapM_cons, List.mapM_cons]
      apply stop_bind (hk ht)
      intro _ _
      apply stop_bind (ih hts)
      intro _ _
      rfl

theorem stop_listing (d : Nat) (h : t.withoutLines = t'.withoutLines) :
    stop (listing d t) = stop (listing d t') := by
  induction d using Nat.strongRecOn generalizing t t' with
  | ind d ih =>
    have items : ∀ k < d, ∀ {ts ts'}, withoutLinesAll ts = withoutLinesAll ts' →
        stop (ts.mapM (listing k)) = stop (ts'.mapM (listing k)) :=
      fun k hk _ _ h => stop_mapM (fun h => ih k hk h) h
    have hc := cases_of_withoutLines h
    cases t with
    | integer n => rw [hc]
    | identifier x => rw [hc]
    | arith l o r =>
      obtain ⟨l', r', rfl, hl, hr⟩ := hc
      match d, ih with
      | 0, _ | 1, _ | 2, _ => rfl
      | d + 3, ih => exact stop_pair (ih d (by omega) hl) (ih d (by omega) hr)
    | compare l o r =>
      obtain ⟨l', r', rfl, hl, hr⟩ := hc
      match d, ih with
      | 0, _ | 1, _ | 2, _ => rfl
      | d + 3, ih => exact stop_pair (ih d (by omega) hl) (ih d (by omega) hr)
    | block ts =>
      obtain ⟨ts', rfl, hs⟩ := hc
      match d, items with
      | 0, _ | 1, _ | 2, _ | 3, _ => rfl
      | d + 4, items => exact stop_one (items d (by omega) hs)
    | conditional c body i =>
      obtain ⟨c', body', j, rfl, hc, hb⟩ := hc
      match d, ih with
      | 0, _ | 1, _ | 2, _ => rfl
      | d + 3, ih => exact stop_pair (ih d (by omega) hc) (ih d (by omega) hb)
    | loop c body i =>
      obtain ⟨c', body', j, rfl, hc, hb⟩ := hc
      match d, ih with
      | 0, _ | 1, _ | 2, _ => rfl
      | d + 3, ih => exact stop_pair (ih d (by omega) hc) (ih d (by omega) hb)
    | assign x e i =>
      obtain ⟨e', j, rfl, he⟩ := hc
      match d, ih with
      | 0, _ | 1, _ | 2, _ => rfl
      | d + 3, ih => exact stop_one (ih d (by omega) he)
    | define x params body i =>
      obtain ⟨body', j, rfl, hb⟩ := hc
      match d, ih with
      | 0, _ | 1, _ | 2, _ => rfl
      | d + 3, ih => exact stop_one (ih d (by omega) hb)
    | invoke x args i =>
      obtain ⟨args', j, rfl, hs⟩ := hc
      match d, items with
      | 0, _ | 1, _ | 2, _ | 3, _ => rfl
      | d + 4, items => exact stop_one (items d (by omega) hs)
    | command x args i =>
      obtain ⟨args', j, rfl, hs⟩ := hc
      match d, items with
      | 0, _ | 1, _ | 2, _ | 3, _ => rfl
      | d + 4, items => exact stop_one (items d (by omega) hs)

theorem outOfPlace_sameButLine (d : Nat) (h : t.withoutLines = t'.withoutLines) :
    (t.outOfPlace d).SameButLine (t'.outOfPlace d) := by
  have hs := stop_listing d h
  cases hx : listing d t with
  | ok x =>
    cases hy : listing d t' with
    | ok y =>
      have ht : t.outOfPlace d = .unreachable (shown x) := by rw [outOfPlace, hx]
      have ht' : t'.outOfPlace d = .unreachable (shown y) := by rw [outOfPlace, hy]
      rw [ht, ht']
      exact .unreachable (same_of_withoutLines h) ht ht'
    | error e =>
      rw [hx, hy] at hs
      cases hs
  | error e =>
    cases hy : listing d t' with
    | ok y =>
      rw [hx, hy] at hs
      cases hs
    | error e' =>
      rw [hx, hy] at hs
      cases hs
      rw [outOfPlace, outOfPlace, hx, hy]
      exact .same e

theorem kind_withoutLines (t : Tree) : t.withoutLines.kind = t.kind := by
  cases t <;> rfl

/-- The trees differ in lines only. -/
def Alike (t t' : Tree) : Prop := t.withoutLines = t'.withoutLines

theorem like_toExpr : ∀ {t t' : Tree}, t.Alike t' →
    t.toExpr.Like (fun _ => True) Alike t'.toExpr
  | .integer n, t', h => by
    obtain rfl := cases_of_withoutLines h
    exact .int n
  | .identifier x, t', h => by
    obtain rfl := cases_of_withoutLines h
    exact .var trivial
  | .arith l o r, t', h => by
    obtain ⟨l', r', rfl, hl, hr⟩ := cases_of_withoutLines h
    exact .arith o (like_toExpr hl) (like_toExpr hr)
  | .compare l o r, t', h => by
    obtain ⟨l', r', rfl, hl, hr⟩ := cases_of_withoutLines h
    exact .compare o (like_toExpr hl) (like_toExpr hr)
  | .block ts, t', h => by
    obtain ⟨ts', rfl, -⟩ := cases_of_withoutLines h
    exact .misplaced h
  | .conditional c body i, t', h => by
    obtain ⟨c', body', j, rfl, -⟩ := cases_of_withoutLines h
    exact .misplaced h
  | .loop c body i, t', h => by
    obtain ⟨c', body', j, rfl, -⟩ := cases_of_withoutLines h
    exact .misplaced h
  | .assign x e i, t', h => by
    obtain ⟨e', j, rfl, -⟩ := cases_of_withoutLines h
    exact .misplaced h
  | .define x params body i, t', h => by
    obtain ⟨body', j, rfl, -⟩ := cases_of_withoutLines h
    exact .misplaced h
  | .invoke x args i, t', h => by
    obtain ⟨args', j, rfl, -⟩ := cases_of_withoutLines h
    exact .misplaced h
  | .command x args i, t', h => by
    obtain ⟨args', j, rfl, -⟩ := cases_of_withoutLines h
    exact .misplaced h

theorem forall₂_alike {ts ts' : List Tree} (h : withoutLinesAll ts = withoutLinesAll ts') :
    List.Forall₂ Alike ts ts' := by
  rw [withoutLinesAll_eq_map, withoutLinesAll_eq_map] at h
  exact forall₂_of_map_eq h

theorem toStmts_eq_map (ts : List Tree) : toStmts ts = ts.map toStmt := by
  induction ts with
  | nil => rfl
  | cons t ts ih => rw [toStmts, ih, List.map_cons]

end Tree

namespace Likeness

variable {ω : Type} {R : ω → ω → Prop}

/-- The statements are made of trees that differ in lines only. -/
def nodes (R : ω → ω → Prop) : Likeness ω where
  lines _ _ := True
  occurs _ := True
  trees := Tree.Alike
  stmts s s' := ∃ t t' : Tree, s = t.toStmt ∧ s' = t'.toStmt ∧ t.Alike t'
  files := True
  scopes a b := ∀ x, a.get? x = b.get? x
  worlds := R
  kind_eq {t t'} h := by
    rw [← t.kind_withoutLines, ← t'.kind_withoutLines, (h : t.withoutLines = _)]
  parts := by
    rintro _ _ ⟨t, t', rfl, rfl, h⟩
    have args : ∀ {ts ts' : List Tree}, Tree.withoutLinesAll ts = Tree.withoutLinesAll ts' →
        List.Forall₂ (Expr.Like (fun _ => True) Tree.Alike) (ts.map Tree.toExpr)
          (ts'.map Tree.toExpr) := by
      intro ts ts' h
      rw [List.forall₂_map_left_iff, List.forall₂_map_right_iff]
      exact (Tree.forall₂_alike h).imp fun _ _ h => Tree.like_toExpr h
    have hc := Tree.cases_of_withoutLines h
    cases t with
    | integer n =>
      subst hc
      exact .misplaced h
    | identifier x =>
      subst hc
      exact .misplaced h
    | arith l o r =>
      obtain ⟨l', r', rfl, -⟩ := hc
      exact .misplaced h
    | compare l o r =>
      obtain ⟨l', r', rfl, -⟩ := hc
      exact .misplaced h
    | block ts =>
      obtain ⟨ts', rfl, hs⟩ := hc
      rw [Tree.toStmt, Tree.toStmt, Tree.toStmts_eq_map, Tree.toStmts_eq_map]
      apply Matching.Parts.block
      rw [List.forall₂_map_left_iff, List.forall₂_map_right_iff]
      exact (Tree.forall₂_alike hs).imp fun t t' h => ⟨t, t', rfl, rfl, h⟩
    | conditional c body i =>
      obtain ⟨c', body', j, rfl, hc, hb⟩ := hc
      exact .conditional (Tree.like_toExpr hc) ⟨body, body', rfl, rfl, hb⟩ trivial
    | loop c body i =>
      obtain ⟨c', body', j, rfl, hc, hb⟩ := hc
      exact .loop (Tree.like_toExpr hc) ⟨body, body', rfl, rfl, hb⟩ trivial
    | assign x e i =>
      obtain ⟨e', j, rfl, he⟩ := hc
      exact .assign trivial (Tree.like_toExpr he) trivial
    | define x params body i =>
      obtain ⟨body', j, rfl, hb⟩ := hc
      exact .define x params ⟨body, body', rfl, rfl, hb⟩ trivial
    | invoke x es i =>
      obtain ⟨es', j, rfl, hs⟩ := hc
      exact .invoke x (args hs) trivial
    | command x es i =>
      obtain ⟨es', j, rfl, hs⟩ := hc
      exact .command x (args hs) trivial
  get?_eq h _ := h _
  put {a b x} v h _ := by
    intro y
    by_cases hy : y = x
    · rw [hy, Table.get?_put_self, Table.get?_put_self]
    · rw [Table.get?_put_of_ne _ hy, Table.get?_put_of_ne _ hy, h y]

theorem sameButLine_of_nodes {h h' : Halt} (hh : (nodes R).Halts h h') : h.SameButLine h' := by
  cases hh with
  | same => exact .same h
  | fault hc _ hf => exact .fault hc (hf trivial)
  | outOfPlace depth ht => exact Tree.outOfPlace_sameButLine depth ht

theorem nodes_stmts {s s' : Stmt} (hs : s.Placed) (hs' : s'.Placed)
    (h : Tree.Same s.toTree s'.toTree) : (nodes R).stmts s s' :=
  ⟨s.toTree, s'.toTree, hs.symm, hs'.symm, Tree.same_iff.mp h⟩

theorem nodes_methods {m m' : Method} (hm : m.body.Placed) (hm' : m'.body.Placed)
    (h : Tree.Same m.toTree m'.toTree) : (nodes R).Methods m m' := by
  obtain ⟨body, j, he, hb⟩ := Tree.cases_of_withoutLines (Tree.same_iff.mp h)
  obtain ⟨hn, hp, rfl, -⟩ := Tree.define.inj he
  exact ⟨hn.symm, hp.symm, nodes_stmts hm hm' (Tree.same_iff.mpr hb), trivial⟩

theorem same_of_nodes_methods {m m' : Method} (h : (nodes R).Methods m m') :
    Tree.Same m.toTree m'.toTree := by
  obtain ⟨hn, hp, ⟨t, t', hb, hb', ht⟩, -⟩ := h
  rw [Method.toTree, Method.toTree, hn, hp, hb, hb', Tree.toStmt_toTree, Tree.toStmt_toTree]
  exact .define (Tree.same_of_withoutLines ht) _ _ _ _

theorem nodes_frames {c c' : Context} {w w' : ω} (hc : c.Placed) (hc' : c'.Placed)
    (h : c.Same c') (hw : R w w') :
    (nodes R).Frames { context := c, world := w } { context := c', world := w' } := by
  obtain ⟨hl, hz⟩ := List.forall₂_iff_zip.mp h.methods
  refine ⟨h.globals, List.forall₂_iff_zip.mpr ⟨hl, ?_⟩, rfl, hw⟩
  intro e e' he
  obtain ⟨hm, hm'⟩ := List.of_mem_zip he
  obtain ⟨hk, ht⟩ := hz he
  exact ⟨hk, nodes_methods (hc _ (List.mem_map_of_mem hm)) (hc' _ (List.mem_map_of_mem hm')) ht⟩

end Likeness

open Likeness in
/-- Lines are inert. Programs that compare equal, run in contexts that do, end both or neither. They
dispatch the same commands, and leave equal variables and methods that compare equal, in the same
order. They both succeed, or both stop for one reason, wherever that is. -/
theorem lines_inert {ω : Type} {R : ω → ω → Prop} {host : Host ω} (hh : host.Respects R)
    {t t' : Stmt} (ht : t.Placed) (ht' : t'.Placed) (hs : Tree.Same t.toTree t'.toTree)
    {c c' : Context} (hc : c.Placed) (hc' : c'.Placed) (hcc : c.Same c') {w w' : ω} (hw : R w w')
    (file : Option String) (depth : Nat) :
    (Ends host file depth t ⟨c, w⟩ ↔ Ends host file depth t' ⟨c', w'⟩) ∧
    ∀ rounds,
      let r := runStatement host file rounds depth t ⟨c, w⟩
      let r' := runStatement host file rounds depth t' ⟨c', w'⟩
      issued host file rounds depth t { context := c, world := w } =
        issued host file rounds depth t' { context := c', world := w' } ∧
      (lastState r).context.Same (lastState r').context ∧
      R (lastState r).world (lastState r').world ∧
      Option.Rel Halt.SameButLine (failure? r) (failure? r') := by
  have hm : (nodes R).stmts t t' := nodes_stmts ht ht' hs
  have hf := nodes_frames hc hc' hcc hw
  refine ⟨ends_like hh (fun _ => rfl) depth hm hf, ?_⟩
  intro rounds
  obtain ⟨hr, he⟩ := runStatement_like hh (fun _ => rfl) rounds depth hm hf
  refine ⟨issued_like hh (fun _ => rfl) rounds depth hm hf, ⟨he.globals, ?_⟩, he.world, ?_⟩
  · exact he.methods.imp fun _ _ h => ⟨h.1, same_of_nodes_methods h.2⟩
  · generalize failure? (runStatement host file rounds depth t ⟨c, w⟩) = o at hr ⊢
    generalize failure? (runStatement host file rounds depth t' ⟨c', w'⟩) = o' at hr ⊢
    cases hr with
    | none => exact .none
    | some hr => exact .some (sameButLine_of_nodes hr)

/-- Defines a method, invokes it and divides, `k` lines down. -/
def dividing (k : Int) : Stmt := .block [
  .define "M" ["n"] (.block [.command "say" [.var "n"] (k + 2)]) (k + 1),
  .invoke "M" [.int 7] (k + 4),
  .assign "x" (.arith (.int 1) (.known .div) (.var "z")) (k + 5)]

/-- Ten lines further down the same is said, and the division fails ten lines further down. -/
theorem lines_inert_dividing :
    let host := Registry.host [{ name := "say" }]
    let c : Context :=
      { globals := ⟨[("y", .int 1), ("z", .int 0)]⟩
        methods := ⟨[(⟨"Old", 2⟩, ⟨"Old", ["a", "b"], .block [], 3⟩)]⟩ }
    let c' : Context :=
      { globals := ⟨[("z", .int 0), ("y", .int 1)]⟩
        methods := ⟨[(⟨"Old", 2⟩, ⟨"Old", ["a", "b"], .block [], 8⟩)]⟩ }
    let r := runStatement host none 1 50 (dividing 0) ⟨c, {}⟩
    let r' := runStatement host none 1 50 (dividing 10) ⟨c', {}⟩
    issued host none 1 50 (dividing 10) { context := c', world := {} } = [("say", ["7"])] ∧
    (lastState r).context.Same (lastState r').context ∧
    Option.Rel Halt.SameButLine (failure? r) (failure? r') ∧
    failure? r = some (Site.halt ⟨some 5, none⟩ .divisionByZero) ∧
    failure? r' = some (Site.halt ⟨some 15, none⟩ .divisionByZero) := by
  intro host c c' r r'
  have hh : host.Respects World.Agrees :=
    Registry.hostWithin_respects (by simp [Registry.Echoes]) _
  have ht : (dividing 0).Placed := rfl
  have ht' : (dividing 10).Placed := rfl
  have hs : Tree.Same (dividing 0).toTree (dividing 10).toTree := Tree.same_of_withoutLines rfl
  have hp : c.Placed := by simp [Context.Placed, c, Table.values]; rfl
  have hp' : c'.Placed := by simp [Context.Placed, c', Table.values]; rfl
  have hcc : c.Same c' := by
    refine ⟨?_, .cons ⟨rfl, Tree.same_of_withoutLines rfl⟩ .nil⟩
    intro x
    simp only [c, c', Table.get?, List.lookup_cons]
    cases hy : x == "y" with
    | false => rfl
    | true => rw [eq_of_beq hy]; rfl
  have hw : World.Agrees {} {} := rfl
  obtain ⟨-, hr⟩ := lines_inert hh ht ht' hs hp hp' hcc hw none 50
  obtain ⟨hi, hc, -, hf⟩ := hr 1
  refine ⟨?_, hc, hf, ?_, ?_⟩
  · rw [← hi]
    decide +kernel
  · decide +kernel
  · decide +kernel

end CommandScript
