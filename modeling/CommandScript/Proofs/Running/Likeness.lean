import Mathlib.Data.List.Forall2
import CommandScript.Proofs.Running.Evaluation
import CommandScript.Proofs.Running.Logic

/-! # Runs side by side

Two runs go the same way if their statements and frames differ only in what a run does not look at.
What may differ is laid down by a likeness. It tells which statements, scopes and worlds match;
that matching statements have matching parts, and that matching scopes agree on the variables that
occur, is all that the argument needs.
-/

namespace CommandScript

/-- Expressions over the variables that occur. They differ at most in misplaced trees. -/
inductive Expr.Like (occurs : String → Prop) (trees : Tree → Tree → Prop) : Expr → Expr → Prop where
  | int (n : Int) : Like occurs trees (.int n) (.int n)
  | var {x : String} : occurs x → Like occurs trees (.var x) (.var x)
  | arith {l l' r r' : Expr} (o : Operator) : Like occurs trees l l' → Like occurs trees r r' →
      Like occurs trees (.arith l o r) (.arith l' o r')
  | compare {l l' r r' : Expr} (o : Operator) : Like occurs trees l l' → Like occurs trees r r' →
      Like occurs trees (.compare l o r) (.compare l' o r')
  | misplaced {t t' : Tree} : trees t t' → Like occurs trees (.misplaced t) (.misplaced t')

/-- What matches in two programs. -/
structure Matching where
  lines : Int → Int → Prop
  /-- The variables that occur. -/
  occurs : String → Prop
  trees : Tree → Tree → Prop
  stmts : Stmt → Stmt → Prop

namespace Matching

variable (M : Matching)

def Exprs : Expr → Expr → Prop := Expr.Like M.occurs M.trees

/-- Statements of one kind with matching parts. -/
inductive Parts : Stmt → Stmt → Prop where
  | block {ss ss' : List Stmt} : List.Forall₂ M.stmts ss ss' → Parts (.block ss) (.block ss')
  | conditional {e e' : Expr} {body body' : Stmt} {i j : Int} : M.Exprs e e' →
      M.stmts body body' → M.lines i j → Parts (.conditional e body i) (.conditional e' body' j)
  | loop {e e' : Expr} {body body' : Stmt} {i j : Int} : M.Exprs e e' →
      M.stmts body body' → M.lines i j → Parts (.loop e body i) (.loop e' body' j)
  | assign {x : String} {e e' : Expr} {i j : Int} : M.occurs x → M.Exprs e e' → M.lines i j →
      Parts (.assign x e i) (.assign x e' j)
  | define {body body' : Stmt} {i j : Int} (x : String) (params : List String) :
      M.stmts body body' → M.lines i j → Parts (.define x params body i) (.define x params body' j)
  | invoke {es es' : List Expr} {i j : Int} (x : String) : List.Forall₂ M.Exprs es es' →
      M.lines i j → Parts (.invoke x es i) (.invoke x es' j)
  | command {es es' : List Expr} {i j : Int} (x : String) : List.Forall₂ M.Exprs es es' →
      M.lines i j → Parts (.command x es i) (.command x es' j)
  | misplaced {t t' : Tree} : M.trees t t' → Parts (.misplaced t) (.misplaced t')

end Matching

/-- What matches in two runs. -/
structure Likeness (ω : Type) extends Matching where
  /-- Whether faults are to name the same file. -/
  files : Prop
  scopes : Scope → Scope → Prop
  worlds : ω → ω → Prop
  kind_eq : ∀ {t t'}, trees t t' → t.kind = t'.kind
  parts : ∀ {s s'}, stmts s s' → toMatching.Parts s s'
  get?_eq : ∀ {a b x}, scopes a b → occurs x → a.get? x = b.get? x
  put : ∀ {a b x} v, scopes a b → occurs x → scopes (a.put x v) (b.put x v)

/-- The commands neither see nor change the context, and go the same way in related worlds. -/
structure Host.Respects {ω : Type} (R : ω → ω → Prop) (host : Host ω) : Prop where
  note : ∀ {event w w'}, R w w' → R (host.note event w) (host.note event w')
  dispatch : ∀ calls name args (c c' : Context) {w w'}, R w w' → ∃ v v', R v v' ∧
    (host.dispatch calls name args ⟨c, w⟩ = .ok () ⟨c, v⟩ ∧
      host.dispatch calls name args ⟨c', w'⟩ = .ok () ⟨c', v'⟩ ∨
    ∃ h, host.dispatch calls name args ⟨c, w⟩ = .error h ⟨c, v⟩ ∧
      host.dispatch calls name args ⟨c', w'⟩ = .error h ⟨c', v'⟩)

/-- Run for rounds enough, the statement comes to an end. -/
def Ends {ω : Type} (host : Host ω) (file : Option String) (depth : Nat) (t : Stmt) (s : State ω) :
    Prop :=
  ∃ rounds, failure? (runStatement host file rounds depth t s) ≠ some .endless

namespace Likeness

variable {ω α β : Type} (L : Likeness ω)

structure Sites (site site' : Site) : Prop where
  line : Option.Rel L.lines site.line site'.line
  file : L.files → site.file = site'.file

/-- Halts for the same reason. -/
inductive Halts : Halt → Halt → Prop where
  | same (h : Halt) : Halts h h
  | fault {f g : Fault} : f.cause = g.cause → Option.Rel L.lines f.line g.line →
      (L.files → f.file = g.file) → Halts (.fault f) (.fault g)
  | outOfPlace {t t' : Tree} (depth : Nat) : L.trees t t' →
      Halts (t.outOfPlace depth) (t'.outOfPlace depth)

structure Methods (m m' : Method) : Prop where
  name : m.name = m'.name
  params : m.params = m'.params
  body : L.stmts m.body m'.body
  line : L.lines m.line m'.line

def Entries (e e' : Signature × Method) : Prop := e.1 = e'.1 ∧ L.Methods e.2 e'.2

structure Frames (f g : Frame ω) : Prop where
  globals : L.scopes f.context.globals g.context.globals
  methods : List.Forall₂ L.Entries f.context.methods.entries g.context.methods.entries
  locals : f.locals = g.locals
  world : L.worlds f.world g.world

/-- Evaluations with one result, or with matching halts. -/
def Outcomes : Except Halt α → Except Halt α → Prop
  | .ok a, .ok b => a = b
  | .error h, .error h' => L.Halts h h'
  | _, _ => False

/-- Runs that end alike in matching frames. -/
def Runs : EStateM.Result Halt (Frame ω) α → EStateM.Result Halt (Frame ω) α → Prop
  | .ok a f, .ok b g => a = b ∧ L.Frames f g
  | .error h f, .error h' g => L.Halts h h' ∧ L.Frames f g
  | _, _ => False

variable {L}

theorem Outcomes.cases {x y : Except Halt α} (h : L.Outcomes x y) :
    (∃ a, x = .ok a ∧ y = .ok a) ∨ ∃ h h', x = .error h ∧ y = .error h' ∧ L.Halts h h' := by
  cases x with
  | ok a =>
    cases y with
    | ok b => exact Or.inl ⟨a, rfl, congrArg _ (Eq.symm h)⟩
    | error h' => exact h.elim
  | error h₁ =>
    cases y with
    | ok b => exact h.elim
    | error h₂ => exact Or.inr ⟨h₁, h₂, rfl, rfl, h⟩

theorem Runs.cases {r r' : EStateM.Result Halt (Frame ω) α} (h : L.Runs r r') :
    (∃ a f g, r = .ok a f ∧ r' = .ok a g ∧ L.Frames f g) ∨
    ∃ h h' f g, r = .error h f ∧ r' = .error h' g ∧ L.Halts h h' ∧ L.Frames f g := by
  cases r with
  | ok a f =>
    cases r' with
    | ok b g =>
      obtain ⟨rfl, hf⟩ := h
      exact Or.inl ⟨a, f, g, rfl, rfl, hf⟩
    | error h' g => exact h.elim
  | error h₁ f =>
    cases r' with
    | ok b g => exact h.elim
    | error h₂ g => exact Or.inr ⟨h₁, h₂, f, g, rfl, rfl, h⟩

/-! ## Evaluations -/

theorem outcomes_refl (x : Except Halt α) : L.Outcomes x x := by
  cases x with
  | ok a => rfl
  | error h => exact .same h

theorem Outcomes.bind {x y : Except Halt α} {k l : α → Except Halt β} (hx : L.Outcomes x y)
    (hk : ∀ a, L.Outcomes (k a) (l a)) : L.Outcomes (x >>= k) (y >>= l) := by
  rcases hx.cases with ⟨a, rfl, rfl⟩ | ⟨h, h', rfl, rfl, hh⟩
  · exact hk a
  · exact hh

section

variable {site site' : Site} {e e' : Expr} {es es' : List Expr}

theorem Sites.halt (hs : L.Sites site site') (cause : Cause) :
    L.Halts (site.halt cause) (site'.halt cause) :=
  .fault rfl hs.line hs.file

theorem Sites.error (hs : L.Sites site site') (cause : Cause) :
    L.Outcomes (.error (site.halt cause) : Except Halt α) (.error (site'.halt cause)) :=
  hs.halt cause

theorem Sites.locate (hs : L.Sites site site') (h : Halt) :
    L.Halts (h.locate site) (h.locate site') := by
  cases h with
  | fault f =>
    obtain ⟨cause, line, file⟩ := f
    cases line with
    | some n => exact .same _
    | none => exact .fault rfl hs.line fun hf => congrArg file.or (hs.file hf)
  | _ => exact .same _

theorem describe_eq (he : L.Exprs e e') : e.describe = e'.describe := by
  have hd : e.writable = e'.writable ∧ e.text = e'.text := by
    induction he with
    | int n => exact ⟨rfl, rfl⟩
    | var _ => exact ⟨rfl, rfl⟩
    | arith o _ _ ihl ihr =>
      simp only [Expr.writable, Expr.text, ihl, ihr, and_self]
    | compare o _ _ ihl ihr =>
      simp only [Expr.writable, Expr.text, ihl, ihr, and_self]
    | misplaced ht =>
      simp only [Expr.writable, Expr.text, L.kind_eq ht, and_self]
  rw [Expr.describe, Expr.describe, hd.1, hd.2]

theorem requireInt_like (hs : L.Sites site site') (he : L.Exprs e e') (v : Value) :
    L.Outcomes (requireInt site e v) (requireInt site' e' v) := by
  cases v with
  | int n => rfl
  | bool b =>
    rw [requireInt, requireInt, describe_eq he]
    exact (outcomes_refl _).bind fun _ => hs.error _

theorem arithmetic_like (hs : L.Sites site site') (o : Operator) (m n : Int) :
    L.Outcomes (arithmetic site o m n) (arithmetic site' o m n) := by
  unfold arithmetic
  split
  · rfl
  · rfl
  · rfl
  · split
    · exact hs.error _
    · rfl
  · exact hs.error _

theorem mismatch_like (hs : L.Sites site site') (o : Operator) (needs : String)
    (he : L.Exprs e e') : L.Outcomes (mismatch site o needs e) (mismatch site' o needs e') := by
  rw [mismatch, mismatch, describe_eq he]
  exact (outcomes_refl _).bind fun _ => hs.error _

theorem compareValues_like (hs : L.Sites site site') (he : L.Exprs e e') (o : Operator)
    (a b : Value) : L.Outcomes (compareValues site e o a b) (compareValues site' e' o a b) := by
  unfold compareValues
  split
  · rfl
  · rfl
  · exact mismatch_like hs _ _ he
  · exact mismatch_like hs _ _ he
  · split
    · rfl
    · exact hs.error _
  · exact mismatch_like hs _ _ he

variable {scope scope' : Scope}

/-- An evaluation reads nothing but the variables that occur. -/
theorem eval_like (hs : L.Sites site site') (hv : ∀ x, L.occurs x → scope.get? x = scope'.get? x)
    (depth : Nat) (he : L.Exprs e e') :
    L.Outcomes (eval site scope depth e) (eval site' scope' depth e') := by
  induction he generalizing depth with
  | int n =>
    cases depth with
    | zero => exact .same _
    | succ depth => rfl
  | @var x hx =>
    cases depth with
    | zero => exact .same _
    | succ depth =>
      rw [eval, eval, hv x hx]
      split
      · rfl
      · exact hs.error _
  | arith o hl hr ihl ihr =>
    cases depth with
    | zero => exact .same _
    | succ depth =>
      rw [eval, eval]
      apply (ihl depth).bind
      intro a
      apply (ihr depth).bind
      intro b
      apply (requireInt_like hs hl a).bind
      intro m
      apply (requireInt_like hs hr b).bind
      intro n
      exact arithmetic_like hs o m n
  | compare o hl hr ihl ihr =>
    cases depth with
    | zero => exact .same _
    | succ depth =>
      rw [eval, eval]
      apply (ihl depth).bind
      intro a
      apply (ihr depth).bind
      intro b
      exact compareValues_like hs (.compare o hl hr) o a b
  | misplaced ht =>
    cases depth with
    | zero => exact .same _
    | succ depth => exact .outOfPlace depth ht

theorem evalInt_like (hs : L.Sites site site')
    (hv : ∀ x, L.occurs x → scope.get? x = scope'.get? x) (depth : Nat) (he : L.Exprs e e') :
    L.Outcomes (evalInt site scope depth e) (evalInt site' scope' depth e') :=
  (eval_like hs hv depth he).bind fun v => requireInt_like hs he v

theorem evalBool_like (hs : L.Sites site site')
    (hv : ∀ x, L.occurs x → scope.get? x = scope'.get? x) (depth : Nat) (he : L.Exprs e e') :
    L.Outcomes (evalBool site scope depth e) (evalBool site' scope' depth e') := by
  apply (eval_like hs hv depth he).bind
  intro v
  cases v with
  | bool b => rfl
  | int n =>
    dsimp only
    rw [describe_eq he]
    exact (outcomes_refl _).bind fun _ => hs.error _

theorem evalText_like (hs : L.Sites site site')
    (hv : ∀ x, L.occurs x → scope.get? x = scope'.get? x) (depth : Nat) (he : L.Exprs e e') :
    L.Outcomes (evalText site scope depth e) (evalText site' scope' depth e') := by
  apply (evalInt_like hs hv depth he).bind
  intro n
  split
  · rfl
  · exact hs.error _

theorem evalTexts_like (hs : L.Sites site site')
    (hv : ∀ x, L.occurs x → scope.get? x = scope'.get? x) (depth : Nat)
    (he : List.Forall₂ L.Exprs es es') :
    L.Outcomes (es.mapM (evalText site scope depth)) (es'.mapM (evalText site' scope' depth)) := by
  induction he with
  | nil => rfl
  | cons he _ ih =>
    rw [List.mapM_cons, List.mapM_cons]
    apply (evalText_like hs hv depth he).bind
    intro text
    apply ih.bind
    intro texts
    rfl

theorem bindArguments_like (hs : L.Sites site site')
    (hv : ∀ x, L.occurs x → scope.get? x = scope'.get? x) (depth : Nat) (params : List String)
    (he : List.Forall₂ L.Exprs es es') (locals : Scope) :
    L.Outcomes (bindArguments site scope depth (params.zip es) locals)
      (bindArguments site' scope' depth (params.zip es') locals) := by
  induction he generalizing params locals with
  | nil =>
    rw [List.zip_nil_right]
    rfl
  | cons he _ ih =>
    cases params with
    | nil => rfl
    | cons x params =>
      apply (evalInt_like hs hv depth he).bind
      intro n
      exact ih params _

end

/-! ## Frames -/

section

variable {f g : Frame ω} {m m' : Method}

theorem Frames.active (hf : L.Frames f g) (x : String) (hx : L.occurs x) :
    f.active.get? x = g.active.get? x := by
  rw [Frame.active, Frame.active, hf.locals]
  cases g.locals with
  | some locals => rfl
  | none => exact L.get?_eq hf.globals hx

theorem Frames.assign (hf : L.Frames f g) {x : String} (hx : L.occurs x) (v : Value) :
    L.Frames (f.assign x v) (g.assign x v) := by
  unfold Frame.assign
  rw [hf.locals]
  cases g.locals with
  | some locals => exact ⟨hf.globals, hf.methods, rfl, hf.world⟩
  | none => exact ⟨L.put v hf.globals hx, hf.methods, rfl, hf.world⟩

theorem putEntry_like (hm : L.Methods m m') {es es' : List (Signature × Method)}
    (he : List.Forall₂ L.Entries es es') :
    List.Forall₂ L.Entries (Table.putEntry m.signature m es)
      (Table.putEntry m'.signature m' es') := by
  have hk : m.signature = m'.signature := by rw [Method.signature, hm.name, hm.params]; rfl
  induction he with
  | nil => exact .cons ⟨hk, hm⟩ .nil
  | @cons e e' _ _ h ht ih =>
    rw [Table.putEntry, Table.putEntry, ← hk, ← h.1]
    rw [← hk] at ih
    split
    · exact .cons ⟨rfl, hm⟩ ht
    · exact .cons ⟨rfl, h.2⟩ ih

theorem Frames.define (hf : L.Frames f g) (hm : L.Methods m m') :
    L.Frames { f with context := f.context.define m } { g with context := g.context.define m' } :=
  ⟨hf.globals, putEntry_like hm hf.methods, hf.locals, hf.world⟩

theorem Frames.resolve? (hf : L.Frames f g) (n : Nat) :
    Option.Rel L.Methods (f.context.resolve? n) (g.context.resolve? n) := by
  have hm := hf.methods
  unfold Context.resolve?
  generalize f.context.methods.entries = es at hm ⊢
  generalize g.context.methods.entries = es' at hm ⊢
  induction hm with
  | nil => exact .none
  | @cons e e' _ _ h _ ih =>
    rw [List.find?_cons, List.find?_cons, ← h.1]
    cases e.1.arity == n with
    | true => exact .some h.2
    | false => exact ih

/-! ## Statements -/

variable {host : Host ω} {file file' : Option String}

theorem each_like {k l : Stmt → Run ω Unit}
    (hk : ∀ {s s' f g}, L.stmts s s' → L.Frames f g → L.Runs (k s f) (l s' g))
    {ss ss' : List Stmt} (hs : List.Forall₂ L.stmts ss ss') (hf : L.Frames f g) :
    L.Runs (Run.each k ss f) (Run.each l ss' g) := by
  induction hs generalizing f g with
  | nil => exact ⟨rfl, hf⟩
  | cons hs _ ih =>
    rw [Run.each_cons, Run.each_cons, bind_apply, bind_apply]
    rcases (hk hs hf).cases with ⟨_, f₁, g₁, hx, hy, hf₁⟩ | ⟨h, h', f₁, g₁, hx, hy, hr⟩
    · rw [hx, hy]
      exact ih hf₁
    · rw [hx, hy]
      exact hr

theorem sites_of_lines (hb : L.files → file = file') {i j : Int} (hl : L.lines i j) :
    L.Sites ⟨some i, file⟩ ⟨some j, file'⟩ :=
  ⟨.some hl, hb⟩

theorem repeatWhile_like (hb : L.files → file = file') {e e' : Expr} {i j : Int} {k l : Run ω Unit}
    (he : L.Exprs e e') (hl : L.lines i j)
    (hk : ∀ {f g}, L.Frames f g → L.Runs (k f) (l g)) (depth n : Nat) (hf : L.Frames f g) :
    L.Runs (Run.repeatWhile (Run.test file depth e i) k n f)
      (Run.repeatWhile (Run.test file' depth e' j) l n g) := by
  induction n generalizing f g with
  | zero => exact ⟨.same _, hf⟩
  | succ n ih =>
    rw [repeatWhile_test, repeatWhile_test]
    rcases (evalBool_like (sites_of_lines hb hl) hf.active depth he).cases with
      ⟨t, hx, hy⟩ | ⟨h, h', hx, hy, hh⟩
    · rw [hx, hy]
      cases t with
      | false => exact ⟨rfl, hf⟩
      | true =>
        dsimp only
        rw [bind_apply, bind_apply]
        rcases (hk hf).cases with ⟨_, f₁, g₁, hx, hy, hf₁⟩ | ⟨h, h', f₁, g₁, hx, hy, hr⟩
        · rw [hx, hy]
          exact ih hf₁
        · rw [hx, hy]
          exact hr
    · rw [hx, hy]
      exact ⟨hh, hf⟩

theorem inScope_like {p q : Run ω Unit} (locals : Scope)
    (hp : ∀ {f g}, L.Frames f g → L.Runs (p f) (q g)) (hf : L.Frames f g) :
    L.Runs (Run.inScope locals p f) (Run.inScope locals q g) := by
  have hl : L.Frames { f with locals := some locals } { g with locals := some locals } :=
    ⟨hf.globals, hf.methods, rfl, hf.world⟩
  rcases (hp hl).cases with ⟨_, f₁, g₁, hx, hy, hf₁⟩ | ⟨h, h', f₁, g₁, hx, hy, hh, hf₁⟩
  · rw [Run.inScope_ok hx, Run.inScope_ok hy]
    exact ⟨rfl, hf₁.globals, hf₁.methods, hf.locals, hf₁.world⟩
  · rw [Run.inScope_error hx, Run.inScope_error hy]
    exact ⟨hh, hf₁.globals, hf₁.methods, hf.locals, hf₁.world⟩

theorem dispatch_like (hh : host.Respects L.worlds) {site site' : Site}
    (hs : L.Sites site site') (calls : Nat) (x : String) (args : List String)
    (hf : L.Frames f g) :
    L.Runs (Run.dispatch host site calls x args f) (Run.dispatch host site' calls x args g) := by
  rcases hh.dispatch calls x args f.context g.context hf.world with
    ⟨v, v', hv, ⟨hx, hy⟩ | ⟨h, hx, hy⟩⟩
  · rw [Run.dispatch_ok (f := f) hx, Run.dispatch_ok (f := g) hy]
    exact ⟨rfl, hf.globals, hf.methods, hf.locals, hv⟩
  · rw [Run.dispatch_error (f := f) hx, Run.dispatch_error (f := g) hy]
    exact ⟨hs.locate h, hf.globals, hf.methods, hf.locals, hv⟩

theorem note_like (hh : host.Respects L.worlds) (event : Event) (hf : L.Frames f g) :
    L.Frames { f with world := host.note event f.world }
      { g with world := host.note event g.world } :=
  ⟨hf.globals, hf.methods, hf.locals, hh.note hf.world⟩

theorem invoke_like (hh : host.Respects L.worlds) (hb : L.files → file = file') (rounds depth : Nat)
    (ih : ∀ {s s' f g}, L.stmts s s' → L.Frames f g →
      L.Runs (exec host file rounds depth s f) (exec host file' rounds depth s' g))
    {es es' : List Expr} {i j : Int} (x : String) (he : List.Forall₂ L.Exprs es es')
    (hl : L.lines i j) (hf : L.Frames f g) :
    L.Runs (exec host file rounds (depth + 2) (.invoke x es i) f)
      (exec host file' rounds (depth + 2) (.invoke x es' j) g) := by
  have hs : L.Sites ⟨some i, file⟩ ⟨some j, file'⟩ := sites_of_lines hb hl
  have hm := hf.resolve? es.length
  rw [exec_invoke, exec_invoke, ← he.length_eq]
  generalize f.context.resolve? es.length = r at hm ⊢
  generalize g.context.resolve? es.length = r' at hm ⊢
  cases hm with
  | none => exact ⟨hs.halt _, hf⟩
  | @some m m' hm =>
    dsimp only
    rw [← hm.name, ← hm.params]
    rcases (bindArguments_like hs hf.active depth m.params he {}).cases with
      ⟨locals, hx, hy⟩ | ⟨h, h', hx, hy, hh⟩
    · rw [hx, hy]
      exact inScope_like locals (ih hm.body) (note_like hh _ hf)
    · rw [hx, hy]
      exact ⟨hh, hf⟩

/-- Matching statements go the same way in matching frames. -/
theorem exec_like (hh : host.Respects L.worlds) (hb : L.files → file = file') (rounds depth : Nat)
    {s s' : Stmt} (hs : L.stmts s s') (hf : L.Frames f g) :
    L.Runs (exec host file rounds depth s f) (exec host file' rounds depth s' g) := by
  induction depth using Nat.strongRecOn generalizing s s' f g with
  | ind depth ih =>
    cases depth with
    | zero => exact ⟨.same _, hf⟩
    | succ depth =>
      have ih' : ∀ {s s' f g}, L.stmts s s' → L.Frames f g →
          L.Runs (exec host file rounds depth s f) (exec host file' rounds depth s' g) :=
        fun hs hf => ih depth (Nat.lt_succ_self _) hs hf
      cases L.parts hs with
      | block hss => exact each_like ih' hss hf
      | conditional he hbody hl =>
        rw [exec_conditional, exec_conditional]
        rcases (evalBool_like (sites_of_lines hb hl) hf.active (depth - 1) he).cases with
          ⟨t, hx, hy⟩ | ⟨h, h', hx, hy, hr⟩
        · rw [hx, hy]
          cases t with
          | true => exact ih' hbody hf
          | false => exact ⟨rfl, hf⟩
        · rw [hx, hy]
          exact ⟨hr, hf⟩
      | loop he hbody hl =>
        rw [exec_loop, exec_loop]
        exact repeatWhile_like hb he hl (ih' hbody) (depth - 1) rounds hf
      | assign hx he hl =>
        have hv := fun x hx => L.get?_eq (x := x) hf.globals hx
        rw [exec_assign, exec_assign]
        rcases (evalInt_like (sites_of_lines hb hl) hv depth he).cases with
          ⟨n, hy, hz⟩ | ⟨h, h', hy, hz, hr⟩
        · rw [hy, hz]
          exact ⟨rfl, hf.assign hx _⟩
        · rw [hy, hz]
          exact ⟨hr, hf⟩
      | define x params hbody hl =>
        rw [exec_define, exec_define]
        exact ⟨rfl, note_like hh _ (hf.define ⟨rfl, rfl, hbody, hl⟩)⟩
      | invoke x he hl =>
        cases depth with
        | zero => exact ⟨.same _, hf⟩
        | succ inner =>
          exact invoke_like hh hb rounds inner (fun hs hf => ih inner (by omega) hs hf) x he hl hf
      | command x he hl =>
        rw [exec_command, exec_command]
        rcases (evalTexts_like (sites_of_lines hb hl) hf.active depth he).cases with
          ⟨texts, hx, hy⟩ | ⟨h, h', hx, hy, hr⟩
        · rw [hx, hy]
          exact dispatch_like hh (sites_of_lines hb hl) depth x texts hf
        · rw [hx, hy]
          exact ⟨hr, hf⟩
      | misplaced ht =>
        rw [exec_misplaced, exec_misplaced]
        exact ⟨.outOfPlace depth ht, hf⟩

/-! ## Programs -/

variable {s s' : State ω} {t t' : Stmt}

theorem runStatement_like (hh : host.Respects L.worlds) (hb : L.files → file = file')
    (rounds depth : Nat) (ht : L.stmts t t')
    (hs : L.Frames { toState := s } { toState := s' }) :
    Option.Rel L.Halts (failure? (runStatement host file rounds depth t s))
      (failure? (runStatement host file' rounds depth t' s')) ∧
    L.Frames { toState := lastState (runStatement host file rounds depth t s) }
      { toState := lastState (runStatement host file' rounds depth t' s') } := by
  unfold runStatement
  rcases (exec_like hh hb rounds depth ht hs).cases with
    ⟨_, f, g, hx, hy, hf⟩ | ⟨h, h', f, g, hx, hy, hr, hf⟩
  · rw [hx, hy]
    exact ⟨.none, hf.globals, hf.methods, rfl, hf.world⟩
  · rw [hx, hy]
    exact ⟨.some hr, hf.globals, hf.methods, rfl, hf.world⟩

theorem Halts.endless_iff {h h' : Halt} (hh : L.Halts h h') : h = .endless ↔ h' = .endless := by
  have listed : ∀ (t : Tree) depth, t.outOfPlace depth ≠ .endless := by
    intro t depth he
    have ho : EvalHalt ⟨none, none⟩ (t.outOfPlace depth) := t.outOfPlace_evalHalt depth
    rw [he] at ho
    cases ho
  cases hh with
  | same => rfl
  | fault _ _ _ => simp
  | @outOfPlace t t' depth _ => simp [listed]

theorem ends_like (hh : host.Respects L.worlds) (hb : L.files → file = file') (depth : Nat)
    (ht : L.stmts t t') (hs : L.Frames { toState := s } { toState := s' }) :
    Ends host file depth t s ↔ Ends host file' depth t' s' := by
  apply exists_congr
  intro rounds
  have hr := (runStatement_like hh hb rounds depth ht hs).1
  generalize failure? (runStatement host file rounds depth t s) = o at hr ⊢
  generalize failure? (runStatement host file' rounds depth t' s') = o' at hr ⊢
  cases hr with
  | none => rfl
  | some hr => simp [hr.endless_iff]

end

end Likeness

end CommandScript
