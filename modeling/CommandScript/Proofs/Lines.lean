import CommandScript.Stmt

/-! # Lines of statements

Lines can be renumbered without touching anything else of a statement.
-/

namespace CommandScript

mutual

/-- The statement with every line renumbered. -/
def Stmt.mapLines (f : Int → Int) : Stmt → Stmt
  | .block statements => .block (Stmt.mapLinesAll f statements)
  | .conditional condition body line => .conditional condition (body.mapLines f) (f line)
  | .loop condition body line => .loop condition (body.mapLines f) (f line)
  | .assign name value line => .assign name value (f line)
  | .define name params body line => .define name params (body.mapLines f) (f line)
  | .invoke name args line => .invoke name args (f line)
  | .command name args line => .command name args (f line)
  | .misplaced tree => .misplaced tree

def Stmt.mapLinesAll (f : Int → Int) : List Stmt → List Stmt
  | [] => []
  | s :: ss => s.mapLines f :: Stmt.mapLinesAll f ss

end

namespace Stmt

variable {f g : Int → Int}

theorem mapLinesAll_eq_map (ss : List Stmt) : mapLinesAll f ss = ss.map (mapLines f) := by
  induction ss with
  | nil => rfl
  | cons s ss ih => rw [mapLinesAll, ih, List.map_cons]

theorem mapLines_block (ss : List Stmt) :
    (block ss).mapLines f = block (ss.map (mapLines f)) := by
  rw [mapLines, mapLinesAll_eq_map]

mutual

theorem mapLines_mapLines : ∀ s : Stmt, (s.mapLines f).mapLines g = s.mapLines (g ∘ f)
  | .block ss => by simp only [mapLines, mapLinesAll_mapLinesAll ss]
  | .conditional _ body _ => by simp only [mapLines, mapLines_mapLines body, Function.comp]
  | .loop _ body _ => by simp only [mapLines, mapLines_mapLines body, Function.comp]
  | .assign .. => rfl
  | .define _ _ body _ => by simp only [mapLines, mapLines_mapLines body, Function.comp]
  | .invoke .. => rfl
  | .command .. => rfl
  | .misplaced _ => rfl

theorem mapLinesAll_mapLinesAll :
    ∀ ss : List Stmt, mapLinesAll g (mapLinesAll f ss) = mapLinesAll (g ∘ f) ss
  | [] => rfl
  | s :: ss => by simp only [mapLinesAll, mapLines_mapLines s, mapLinesAll_mapLinesAll ss]

end

mutual

theorem mapLines_id : ∀ s : Stmt, s.mapLines id = s
  | .block ss => by simp only [mapLines, mapLinesAll_id ss]
  | .conditional _ body _ => by simp only [mapLines, mapLines_id body, id]
  | .loop _ body _ => by simp only [mapLines, mapLines_id body, id]
  | .assign .. => rfl
  | .define _ _ body _ => by simp only [mapLines, mapLines_id body, id]
  | .invoke .. => rfl
  | .command .. => rfl
  | .misplaced _ => rfl

theorem mapLinesAll_id : ∀ ss : List Stmt, mapLinesAll id ss = ss
  | [] => rfl
  | s :: ss => by simp only [mapLinesAll, mapLines_id s, mapLinesAll_id ss]

end

/-- The statement `k` lines further down. -/
def shift (k : Int) (s : Stmt) : Stmt := s.mapLines (· + k)

theorem shift_zero (s : Stmt) : s.shift 0 = s := by
  have hf : (fun l : Int => l + 0) = id := funext Int.add_zero
  rw [shift, hf, mapLines_id]

/-- The statement with its lines forgotten. -/
def withoutLines (s : Stmt) : Stmt := s.mapLines fun _ => 0

theorem withoutLines_shift (k : Int) (s : Stmt) : (s.shift k).withoutLines = s.withoutLines :=
  mapLines_mapLines s

section Kinds

variable (x : String) (e : Expr) (es : List Expr) (params : List String) (body : Stmt) (line : Int)

@[simp] theorem withoutLines_block (ss : List Stmt) :
    (block ss).withoutLines = block (ss.map withoutLines) :=
  mapLines_block ss

@[simp] theorem withoutLines_conditional :
    (conditional e body line).withoutLines = conditional e body.withoutLines 0 := rfl

@[simp] theorem withoutLines_loop :
    (loop e body line).withoutLines = loop e body.withoutLines 0 := rfl

@[simp] theorem withoutLines_assign : (assign x e line).withoutLines = assign x e 0 := rfl

@[simp] theorem withoutLines_define :
    (define x params body line).withoutLines = define x params body.withoutLines 0 := rfl

@[simp] theorem withoutLines_invoke : (invoke x es line).withoutLines = invoke x es 0 := rfl

@[simp] theorem withoutLines_command : (command x es line).withoutLines = command x es 0 := rfl

@[simp] theorem withoutLines_misplaced (tree : Tree) :
    (misplaced tree).withoutLines = misplaced tree := rfl

end Kinds

/-- Statements that differ in lines only are of one kind and have such parts. -/
theorem cases_of_withoutLines {s s' : Stmt} : s.withoutLines = s'.withoutLines →
    match s with
    | block ss => ∃ ss', s' = block ss' ∧ ss.map withoutLines = ss'.map withoutLines
    | conditional e body _ => ∃ body' line', s' = conditional e body' line' ∧
        body.withoutLines = body'.withoutLines
    | loop e body _ => ∃ body' line', s' = loop e body' line' ∧
        body.withoutLines = body'.withoutLines
    | assign x e _ => ∃ line', s' = assign x e line'
    | define x params body _ => ∃ body' line', s' = define x params body' line' ∧
        body.withoutLines = body'.withoutLines
    | invoke x es _ => ∃ line', s' = invoke x es line'
    | command x es _ => ∃ line', s' = command x es line'
    | misplaced tree => s' = misplaced tree := by
  intro h
  cases s <;> cases s' <;> simp_all

end Stmt

end CommandScript
