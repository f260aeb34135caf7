import CommandScript.Context
import CommandScript.Proofs.Lines

/-! # Equality of trees

The comparison of trees ignores lines. Given calls enough for their nesting, trees compare equal if
and only if they differ in lines only.
-/

namespace CommandScript

namespace Tree

/-- The trees compare equal, given calls enough. -/
def Same (a b : Tree) : Prop := ∃ n, ∀ d, n ≤ d → same d a b = .ok true

/-- The trees compare equal item by item. -/
def SameItems (as bs : List Tree) : Prop := ∃ n, ∀ d, n ≤ d → sameItems (same d) as bs = .ok true

variable {a b c c' l l' r r' : Tree} {as bs : List Tree}

theorem both_true_iff {x y : Except Halt Bool} :
    (do if ← x then y else return false) = .ok true ↔ x = .ok true ∧ y = .ok true := by
  constructor
  · intro h
    cases x with
    | error e => cases h
    | ok t =>
      cases t with
      | false => cases h
      | true => exact ⟨rfl, h⟩
  · rintro ⟨rfl, rfl⟩
    rfl

theorem Same.of_below {n k : Nat} (h : ∀ d, n ≤ d → same (d + k) a b = .ok true) : Same a b := by
  refine ⟨n + k, ?_⟩
  intro d hd
  obtain ⟨e, rfl⟩ : ∃ e, d = e + k := ⟨d - k, by omega⟩
  exact h e (by omega)

theorem Same.of_pair {k : Nat} (hl : Same l l') (hr : Same r r')
    (h : ∀ d, same d l l' = .ok true → same d r r' = .ok true → same (d + k) a b = .ok true) :
    Same a b := by
  obtain ⟨n, hn⟩ := hl
  obtain ⟨m, hm⟩ := hr
  apply of_below (n := max n m)
  intro d hd
  exact h d (hn d (by omega)) (hm d (by omega))

theorem Same.of_items {k : Nat} (hs : SameItems as bs)
    (h : ∀ d, sameItems (same d) as bs = .ok true → same (d + k) a b = .ok true) : Same a b := by
  obtain ⟨n, hn⟩ := hs
  apply of_below (n := n)
  intro d hd
  exact h d (hn d hd)

theorem SameItems.nil : SameItems [] [] := ⟨0, fun _ _ => rfl⟩

theorem SameItems.cons (ha : Same a b) (hs : SameItems as bs) : SameItems (a :: as) (b :: bs) := by
  obtain ⟨n, hn⟩ := ha
  obtain ⟨m, hm⟩ := hs
  refine ⟨max n m, ?_⟩
  intro d hd
  rw [sameItems, hn d (by omega)]
  exact hm d (by omega)

theorem Same.arith (hl : Same l l') (hr : Same r r') (o : Operator) :
    Same (.arith l o r) (.arith l' o r') := by
  apply of_pair (k := 3) hl hr
  intro d hl hr
  exact both_true_iff.mpr ⟨hl, (if_pos rfl).trans hr⟩

theorem Same.compare (hl : Same l l') (hr : Same r r') (o : Operator) :
    Same (.compare l o r) (.compare l' o r') := by
  apply of_pair (k := 3) hl hr
  intro d hl hr
  exact both_true_iff.mpr ⟨hl, (if_pos rfl).trans hr⟩

theorem Same.block (hs : SameItems as bs) : Same (.block as) (.block bs) := by
  apply of_items (k := 4) hs
  intro d hs
  exact hs

theorem Same.conditional (hc : Same c c') (hb : Same a b) (i j : Int) :
    Same (.conditional c a i) (.conditional c' b j) := by
  apply of_pair (k := 3) hc hb
  intro d hc hb
  exact both_true_iff.mpr ⟨hc, hb⟩

theorem Same.loop (hc : Same c c') (hb : Same a b) (i j : Int) :
    Same (.loop c a i) (.loop c' b j) := by
  apply of_pair (k := 3) hc hb
  intro d hc hb
  exact both_true_iff.mpr ⟨hc, hb⟩

theorem Same.assign (hv : Same a b) (x : String) (i j : Int) :
    Same (.assign x a i) (.assign x b j) := by
  apply of_pair (k := 3) hv hv
  intro d hv _
  exact (if_pos rfl).trans hv

theorem Same.define (hb : Same a b) (x : String) (params : List String) (i j : Int) :
    Same (.define x params a i) (.define x params b j) := by
  apply of_pair (k := 3) hb hb
  intro d hb _
  exact (if_pos ⟨rfl, rfl⟩).trans hb

theorem Same.invoke (hs : SameItems as bs) (x : String) (i j : Int) :
    Same (.invoke x as i) (.invoke x bs j) := by
  apply of_items (k := 4) hs
  intro d hs
  exact (if_pos rfl).trans hs

theorem Same.command (hs : SameItems as bs) (x : String) (i j : Int) :
    Same (.command x as i) (.command x bs j) := by
  apply of_items (k := 4) hs
  intro d hs
  exact (if_pos rfl).trans hs

end Tree

/-! ## Trees without lines -/

mutual

/-- The tree with its lines forgotten. -/
def Tree.withoutLines : Tree → Tree
  | .integer n => .integer n
  | .identifier x => .identifier x
  | .arith l o r => .arith l.withoutLines o r.withoutLines
  | .compare l o r => .compare l.withoutLines o r.withoutLines
  | .block ts => .block (Tree.withoutLinesAll ts)
  | .conditional c body _ => .conditional c.withoutLines body.withoutLines 0
  | .loop c body _ => .loop c.withoutLines body.withoutLines 0
  | .assign x e _ => .assign x e.withoutLines 0
  | .define x params body _ => .define x params body.withoutLines 0
  | .invoke x args _ => .invoke x (Tree.withoutLinesAll args) 0
  | .command x args _ => .command x (Tree.withoutLinesAll args) 0

def Tree.withoutLinesAll : List Tree → List Tree
  | [] => []
  | t :: ts => t.withoutLines :: Tree.withoutLinesAll ts

end

namespace Tree

variable {a b : Tree} {as bs : List Tree}

theorem withoutLinesAll_eq_map (ts : List Tree) : withoutLinesAll ts = ts.map withoutLines := by
  induction ts with
  | nil => rfl
  | cons t ts ih => rw [withoutLinesAll, ih, List.map_cons]

/-- Trees that differ in lines only are of one kind and have such parts. -/
theorem cases_of_withoutLines : a.withoutLines = b.withoutLines →
    match a with
    | integer n => b = integer n
    | identifier x => b = identifier x
    | arith l o r => ∃ l' r', b = arith l' o r' ∧ l.withoutLines = l'.withoutLines ∧
        r.withoutLines = r'.withoutLines
    | compare l o r => ∃ l' r', b = compare l' o r' ∧ l.withoutLines = l'.withoutLines ∧
        r.withoutLines = r'.withoutLines
    | block ts => ∃ ts', b = block ts' ∧ withoutLinesAll ts = withoutLinesAll ts'
    | conditional c body _ => ∃ c' body' j, b = conditional c' body' j ∧
        c.withoutLines = c'.withoutLines ∧ body.withoutLines = body'.withoutLines
    | loop c body _ => ∃ c' body' j, b = loop c' body' j ∧
        c.withoutLines = c'.withoutLines ∧ body.withoutLines = body'.withoutLines
    | assign x e _ => ∃ e' j, b = assign x e' j ∧ e.withoutLines = e'.withoutLines
    | define x params body _ => ∃ body' j, b = define x params body' j ∧
        body.withoutLines = body'.withoutLines
    | invoke x args _ => ∃ args' j, b = invoke x args' j ∧
        withoutLinesAll args = withoutLinesAll args'
    | command x args _ => ∃ args' j, b = command x args' j ∧
        withoutLinesAll args = withoutLinesAll args' := by
  intro h
  cases a with
  | integer n =>
    cases b with
    | integer m => exact h.symm
    | _ => cases h
  | identifier x =>
    cases b with
    | identifier y => exact h.symm
    | _ => cases h
  | arith l o r =>
    cases b with
    | arith l' o' r' =>
      obtain ⟨hl, rfl, hr⟩ := Tree.arith.inj h
      exact ⟨l', r', rfl, hl, hr⟩
    | _ => cases h
  | compare l o r =>
    cases b with
    | compare l' o' r' =>
      obtain ⟨hl, rfl, hr⟩ := Tree.compare.inj h
      exact ⟨l', r', rfl, hl, hr⟩
    | _ => cases h
  | block ts =>
    cases b with
    | block ts' => exact ⟨ts', rfl, Tree.block.inj h⟩
    | _ => cases h
  | conditional c body i =>
    cases b with
    | conditional c' body' j =>
      obtain ⟨hc, hb, -⟩ := Tree.conditional.inj h
      exact ⟨c', body', j, rfl, hc, hb⟩
    | _ => cases h
  | loop c body i =>
    cases b with
    | loop c' body' j =>
      obtain ⟨hc, hb, -⟩ := Tree.loop.inj h
      exact ⟨c', body', j, rfl, hc, hb⟩
    | _ => cases h
  | assign x e i =>
    cases b with
    | assign y e' j =>
      obtain ⟨rfl, he, -⟩ := Tree.assign.inj h
      exact ⟨e', j, rfl, he⟩
    | _ => cases h
  | define x params body i =>
    cases b with
    | define y params' body' j =>
      obtain ⟨rfl, rfl, hb, -⟩ := Tree.define.inj h
      exact ⟨body', j, rfl, hb⟩
    | _ => cases h
  | invoke x args i =>
    cases b with
    | invoke y args' j =>
      obtain ⟨rfl, hs, -⟩ := Tree.invoke.inj h
      exact ⟨args', j, rfl, hs⟩
    | _ => cases h
  | command x args i =>
    cases b with
    | command y args' j =>
      obtain ⟨rfl, hs, -⟩ := Tree.command.inj h
      exact ⟨args', j, rfl, hs⟩
    | _ => cases h

mutual

theorem same_of_withoutLines : ∀ {a b : Tree}, a.withoutLines = b.withoutLines → Same a b
  | .integer n, b, h => by
    obtain rfl := cases_of_withoutLines h
    exact .of_below (k := 3) (n := 0) fun d _ => congrArg Except.ok (beq_self_eq_true _)
  | .identifier x, b, h => by
    obtain rfl := cases_of_withoutLines h
    exact .of_below (k := 3) (n := 0) fun d _ => congrArg Except.ok (beq_self_eq_true _)
  | .arith l o r, b, h => by
    obtain ⟨l', r', rfl, hl, hr⟩ := cases_of_withoutLines h
    exact .arith (same_of_withoutLines hl) (same_of_withoutLines hr) o
  | .compare l o r, b, h => by
    obtain ⟨l', r', rfl, hl, hr⟩ := cases_of_withoutLines h
    exact .compare (same_of_withoutLines hl) (same_of_withoutLines hr) o
  | .block ts, b, h => by
    obtain ⟨ts', rfl, hs⟩ := cases_of_withoutLines h
    exact .block (sameItems_of_withoutLines hs)
  | .conditional c body i, b, h => by
    obtain ⟨c', body', j, rfl, hc, hb⟩ := cases_of_withoutLines h
    exact .conditional (same_of_withoutLines hc) (same_of_withoutLines hb) i j
  | .loop c body i, b, h => by
    obtain ⟨c', body', j, rfl, hc, hb⟩ := cases_of_withoutLines h
    exact .loop (same_of_withoutLines hc) (same_of_withoutLines hb) i j
  | .assign x e i, b, h => by
    obtain ⟨e', j, rfl, he⟩ := cases_of_withoutLines h
    exact .assign (same_of_withoutLines he) x i j
  | .define x params body i, b, h => by
    obtain ⟨body', j, rfl, hb⟩ := cases_of_withoutLines h
    exact .define (same_of_withoutLines hb) x params i j
  | .invoke x args i, b, h => by
    obtain ⟨args', j, rfl, hs⟩ := cases_of_withoutLines h
    exact .invoke (sameItems_of_withoutLines hs) x i j
  | .command x args i, b, h => by
    obtain ⟨args', j, rfl, hs⟩ := cases_of_withoutLines h
    exact .command (sameItems_of_withoutLines hs) x i j

theorem sameItems_of_withoutLines : ∀ {as bs : List Tree},
    withoutLinesAll as = withoutLinesAll bs → SameItems as bs
  | [], [], _ => .nil
  | a :: as, b :: bs, h => by
    obtain ⟨ha, has⟩ := List.cons.inj h
    exact .cons (same_of_withoutLines ha) (sameItems_of_withoutLines has)
  | [], _ :: _, h => by cases h
  | _ :: _, [], h => by cases h

end

theorem withoutLinesAll_of_sameItems {d : Nat}
    (hd : ∀ {a b}, same d a b = .ok true → a.withoutLines = b.withoutLines)
    (h : sameItems (same d) as bs = .ok true) : withoutLinesAll as = withoutLinesAll bs := by
  induction as generalizing bs with
  | nil =>
    cases bs with
    | nil => rfl
    | cons b bs => cases h
  | cons a as ih =>
    cases bs with
    | nil => cases h
    | cons b bs =>
      obtain ⟨ha, has⟩ := both_true_iff.mp h
      rw [withoutLinesAll, withoutLinesAll, hd ha, ih has]

theorem withoutLines_of_same {d : Nat} :
    same d a b = .ok true → a.withoutLines = b.withoutLines := by
  induction d using Nat.strongRecOn generalizing a b with
  | ind d ih =>
    have items : ∀ k < d, ∀ {as bs}, sameItems (same k) as bs = .ok true →
        withoutLinesAll as = withoutLinesAll bs :=
      fun k hk _ _ h => withoutLinesAll_of_sameItems (fun h => ih k hk h) h
    fun_cases same d a b with
    | case1 d m n =>
      intro h
      rw [eq_of_beq (Except.ok.inj h)]
    | case2 d x y =>
      intro h
      rw [eq_of_beq (Except.ok.inj h)]
    | case3 d l o r l' o' r' =>
      intro h
      obtain ⟨hl, h⟩ := both_true_iff.mp h
      split at h
      · next ho => simp only [withoutLines, ho, ih d (by omega) hl, ih d (by omega) h]
      · cases h
    | case4 d l o r l' o' r' =>
      intro h
      obtain ⟨hl, h⟩ := both_true_iff.mp h
      split at h
      · next ho => simp only [withoutLines, ho, ih d (by omega) hl, ih d (by omega) h]
      · cases h
    | case5 d ts ts' =>
      intro h
      rw [withoutLines, withoutLines, items d (by omega) h]
    | case6 d c body i c' body' j =>
      intro h
      obtain ⟨hc, hb⟩ := both_true_iff.mp h
      rw [withoutLines, withoutLines, ih d (by omega) hc, ih d (by omega) hb]
    | case7 d c body i c' body' j =>
      intro h
      obtain ⟨hc, hb⟩ := both_true_iff.mp h
      rw [withoutLines, withoutLines, ih d (by omega) hc, ih d (by omega) hb]
    | case8 d e i x e' j =>
      intro h
      rw [withoutLines, withoutLines, ih d (by omega) h]
    | case10 d x params body i x' params' body' j hx =>
      intro h
      rw [withoutLines, withoutLines, hx.1, hx.2, ih d (by omega) h]
    | case12 d args i x args' j =>
      intro h
      rw [withoutLines, withoutLines, items d (by omega) h]
    | case14 d args i x args' j =>
      intro h
      rw [withoutLines, withoutLines, items d (by omega) h]
    | _ =>
      -- the names or the kinds differ, or there are too few calls
      intro h
      cases h

/-- Comparing trees is comparing them without their lines. -/
theorem same_iff : Same a b ↔ a.withoutLines = b.withoutLines := by
  constructor
  · rintro ⟨n, hn⟩
    exact withoutLines_of_same (hn n (Nat.le_refl n))
  · exact same_of_withoutLines

end Tree

mutual

theorem Stmt.toTree_withoutLines :
    ∀ s : Stmt, s.withoutLines.toTree.withoutLines = s.toTree.withoutLines
  | .block ss => by
    rw [withoutLines_block, toTree, toTree, Tree.withoutLines, Tree.withoutLines,
      Stmt.toTrees_withoutLines ss]
  | .conditional e body i => by
    rw [withoutLines_conditional, toTree, toTree, Tree.withoutLines, Tree.withoutLines,
      Stmt.toTree_withoutLines body]
  | .loop e body i => by
    rw [withoutLines_loop, toTree, toTree, Tree.withoutLines, Tree.withoutLines,
      Stmt.toTree_withoutLines body]
  | .assign x e i => rfl
  | .define x params body i => by
    rw [withoutLines_define, toTree, toTree, Tree.withoutLines, Tree.withoutLines,
      Stmt.toTree_withoutLines body]
  | .invoke x args i => rfl
  | .command x args i => rfl
  | .misplaced tree => rfl

theorem Stmt.toTrees_withoutLines : ∀ ss : List Stmt,
    Tree.withoutLinesAll (Stmt.toTrees (ss.map Stmt.withoutLines)) =
      Tree.withoutLinesAll (Stmt.toTrees ss)
  | [] => rfl
  | s :: ss => by
    rw [List.map_cons, toTrees, toTrees, Tree.withoutLinesAll, Tree.withoutLinesAll,
      Stmt.toTree_withoutLines s, Stmt.toTrees_withoutLines ss]

end

theorem Stmt.same_withoutLines {s s' : Stmt} (h : s.withoutLines = s'.withoutLines) :
    Tree.Same s.toTree s'.toTree := by
  rw [Tree.same_iff, ← toTree_withoutLines s, h, toTree_withoutLines]

theorem Stmt.sameItems_withoutLines {ss ss' : List Stmt}
    (h : ss.map Stmt.withoutLines = ss'.map Stmt.withoutLines) :
    Tree.SameItems (Stmt.toTrees ss) (Stmt.toTrees ss') := by
  apply Tree.sameItems_of_withoutLines
  rw [← toTrees_withoutLines ss, h, toTrees_withoutLines]

/-- The method as the definition it was made by. -/
def Method.toTree (m : Method) : Tree := .define m.name m.params m.body.toTree m.line

/-! ## Trees as statements -/

theorem Tree.toExpr_toTree : ∀ t : Tree, t.toExpr.toTree = t
  | .arith l o r => by rw [toExpr, Expr.toTree, toExpr_toTree l, toExpr_toTree r]
  | .compare l o r => by rw [toExpr, Expr.toTree, toExpr_toTree l, toExpr_toTree r]
  | .integer _ => rfl
  | .identifier _ => rfl
  | .block _ => rfl
  | .conditional .. => rfl
  | .loop .. => rfl
  | .assign .. => rfl
  | .define .. => rfl
  | .invoke .. => rfl
  | .command .. => rfl

theorem Tree.map_toExpr_toTree (ts : List Tree) : (ts.map toExpr).map Expr.toTree = ts := by
  simp [Function.comp_def, toExpr_toTree]

mutual

theorem Tree.toStmt_toTree : ∀ t : Tree, t.toStmt.toTree = t
  | .block ts => by rw [toStmt, Stmt.toTree, Tree.toStmts_toTrees ts]
  | .conditional c body i => by rw [toStmt, Stmt.toTree, toExpr_toTree, Tree.toStmt_toTree body]
  | .loop c body i => by rw [toStmt, Stmt.toTree, toExpr_toTree, Tree.toStmt_toTree body]
  | .assign x e i => by rw [toStmt, Stmt.toTree, toExpr_toTree]
  | .define x params body i => by rw [toStmt, Stmt.toTree, Tree.toStmt_toTree body]
  | .invoke x args i => by rw [toStmt, Stmt.toTree, map_toExpr_toTree]
  | .command x args i => by rw [toStmt, Stmt.toTree, map_toExpr_toTree]
  | .integer _ => rfl
  | .identifier _ => rfl
  | .arith .. => rfl
  | .compare .. => rfl

theorem Tree.toStmts_toTrees : ∀ ts : List Tree, Stmt.toTrees (Tree.toStmts ts) = ts
  | [] => rfl
  | t :: ts => by rw [toStmts, Stmt.toTrees, Tree.toStmt_toTree t, Tree.toStmts_toTrees ts]

end

end CommandScript
