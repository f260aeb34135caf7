import CommandScript.Exec
import CommandScript.Proofs.Results

/-! # Reasoning about runs

Equations for the primitives of a run and for each kind of statement.
-/

namespace CommandScript

/-- The halt as a command's caller passes it on. -/
def Halt.locate (site : Site) : Halt → Halt
  | .fault f => .fault (f.locate site.line site.file)
  | h => h

theorem Context.exists_of_resolve? {c : Context} {arity : Nat} {m : Method}
    (hm : c.resolve? arity = some m) :
    ∃ key : Signature, key.arity = arity ∧ (key, m) ∈ c.methods.entries := by
  obtain ⟨e, he, rfl⟩ := Option.map_eq_some_iff.mp hm
  exact ⟨e.1, by simpa using List.find?_some he, List.mem_of_find?_eq_some he⟩

variable {ω α : Type}

namespace Run

variable {f f' : Frame ω} {p : Run ω Unit} {locals : Scope}

theorem inScope_ok {a : Unit} (h : p { f with locals := some locals } = .ok a f') :
    inScope locals p f = .ok () { f' with locals := f.locals } := by
  obtain ⟨s, outer⟩ := f
  dsimp only at h
  unfold inScope
  dsimp only
  rw [h]

theorem inScope_error {halt : Halt} (h : p { f with locals := some locals } = .error halt f') :
    inScope locals p f = .error halt { f' with locals := f.locals } := by
  obtain ⟨s, outer⟩ := f
  dsimp only at h
  unfold inScope
  dsimp only
  rw [h]

theorem inScope_eq_error {halt : Halt} (h : inScope locals p f = .error halt f') :
    ∃ g, p { f with locals := some locals } = .error halt g := by
  cases hp : p { f with locals := some locals } with
  | ok _ g =>
    rw [inScope_ok hp] at h
    cases h
  | error _ g =>
    rw [inScope_error hp] at h
    cases h
    exact ⟨g, rfl⟩

theorem inScope_eq_ok {a : Unit} (h : inScope locals p f = .ok a f') :
    ∃ g, p { f with locals := some locals } = .ok a g ∧ f' = { g with locals := f.locals } := by
  cases hp : p { f with locals := some locals } with
  | ok _ g =>
    rw [inScope_ok hp] at h
    cases h
    exact ⟨g, rfl, rfl⟩
  | error _ g =>
    rw [inScope_error hp] at h
    cases h

variable {host : Host ω} {site : Site} {calls : Nat} {name : String} {args : List String}
  {s : State ω}

theorem dispatch_ok {a : Unit} (h : host.dispatch calls name args f.toState = .ok a s) :
    dispatch host site calls name args f = .ok () { f with toState := s } := by
  obtain ⟨s₀, outer⟩ := f
  dsimp only at h
  unfold dispatch
  dsimp only
  rw [h]

theorem dispatch_error {halt : Halt}
    (h : host.dispatch calls name args f.toState = .error halt s) :
    dispatch host site calls name args f = .error (halt.locate site) { f with toState := s } := by
  obtain ⟨s₀, outer⟩ := f
  dsimp only at h
  unfold dispatch
  dsimp only
  rw [h]
  cases halt <;> rfl

theorem dispatch_eq_error {halt : Halt}
    (h : dispatch host site calls name args f = .error halt f') :
    ∃ halt' s, host.dispatch calls name args f.toState = .error halt' s ∧
      halt = halt'.locate site := by
  cases hd : host.dispatch calls name args f.toState with
  | ok _ s =>
    rw [dispatch_ok hd] at h
    cases h
  | error halt' s =>
    rw [dispatch_error hd] at h
    cases h
    exact ⟨halt', s, rfl, rfl⟩

theorem each_cons (k : α → Run ω Unit) (a : α) (as : List α) :
    each k (a :: as) = (do k a; each k as) := rfl

theorem each_append (k : α → Run ω Unit) (as bs : List α) :
    each k (as ++ bs) f = (do each k as; each k bs) f := by
  induction as generalizing f with
  | nil => rfl
  | cons a as ih =>
    rw [List.cons_append, each_cons, each_cons, bind_apply, bind_apply, bind_apply]
    cases k a f with
    | error h f' => rfl
    | ok _ f' =>
      change each k (as ++ bs) f' = _
      rw [ih, bind_apply]

theorem ofExcept_bind {β : Type} (x : Except Halt α) (k : α → Run ω β) (f : Frame ω) :
    ((ofExcept x : Run ω α) >>= k) f = match x with
      | .ok a => k a f
      | .error h => .error h f := by
  cases x <;> rfl

end Run

/-! ## Statements -/

section

variable (host : Host ω) (file : Option String) (rounds depth : Nat)
  (x : String) (e : Expr) (args : List Expr) (params : List String) (body : Stmt) (line : Int)
  (f : Frame ω)

/-- The test of a loop. -/
def Run.test (file : Option String) (depth : Nat) (e : Expr) (line : Int) : Run ω Bool := fun f =>
  Run.ofExcept (evalBool ⟨some line, file⟩ f.active depth e) f

theorem exec_zero (s : Stmt) : exec host file rounds 0 s f = .error .overflow f := rfl

theorem exec_block (ss : List Stmt) :
    exec host file rounds (depth + 1) (.block ss) = Run.each (exec host file rounds depth) ss := rfl

theorem exec_conditional :
    exec host file rounds (depth + 1) (.conditional e body line) f =
      match evalBool ⟨some line, file⟩ f.active (depth - 1) e with
      | .ok true => exec host file rounds depth body f
      | .ok false => .ok () f
      | .error h => .error h f := by
  rw [exec, bind_ok (get_apply f), Run.ofExcept_bind]
  cases evalBool ⟨some line, file⟩ f.active (depth - 1) e with
  | ok t => cases t <;> rfl
  | error h => rfl

theorem exec_loop :
    exec host file rounds (depth + 1) (.loop e body line) =
      Run.repeatWhile (Run.test file (depth - 1) e line) (exec host file rounds depth body)
        rounds :=
  rfl

theorem exec_assign :
    exec host file rounds (depth + 1) (.assign x e line) f =
      match evalInt ⟨some line, file⟩ f.context.globals depth e with
      | .ok n => .ok () (f.assign x (.int n))
      | .error h => .error h f := by
  rw [exec, bind_ok (get_apply f), Run.ofExcept_bind]
  cases evalInt ⟨some line, file⟩ f.context.globals depth e <;> rfl

theorem exec_define :
    exec host file rounds (depth + 1) (.define x params body line) f =
      Run.note host (.defined ⟨x, params.length⟩)
        { f with context := f.context.define ⟨x, params, body, line⟩ } := rfl

theorem exec_invoke_one :
    exec host file rounds 1 (.invoke x args line) f = .error .overflow f := rfl

theorem exec_invoke :
    exec host file rounds (depth + 2) (.invoke x args line) f =
      match f.context.resolve? args.length with
      | none => .error (Site.halt ⟨some line, file⟩ (.unresolvedMethod x args.length)) f
      | some m =>
        match bindArguments ⟨some line, file⟩ f.active depth (m.params.zip args) {} with
        | .ok locals => Run.inScope locals (exec host file rounds depth m.body)
            { f with world := host.note (.invoking x m.name locals) f.world }
        | .error h => .error h f := by
  rw [exec, bind_ok (get_apply f)]
  cases f.context.resolve? args.length with
  | none => rfl
  | some m =>
    dsimp only
    rw [Run.ofExcept_bind]
    cases bindArguments ⟨some line, file⟩ f.active depth (m.params.zip args) {} <;> rfl

theorem exec_command :
    exec host file rounds (depth + 1) (.command x args line) f =
      match args.mapM (evalText ⟨some line, file⟩ f.active depth) with
      | .ok texts => Run.dispatch host ⟨some line, file⟩ depth x texts f
      | .error h => .error h f := by
  rw [exec, bind_ok (get_apply f), Run.ofExcept_bind]
  cases args.mapM (evalText ⟨some line, file⟩ f.active depth) <;> rfl

theorem exec_misplaced (tree : Tree) :
    exec host file rounds (depth + 1) (.misplaced tree) f = .error (tree.outOfPlace depth) f := rfl

theorem repeatWhile_test (p : Run ω Unit) (n : Nat) :
    Run.repeatWhile (Run.test file depth e line) p (n + 1) f =
      match evalBool ⟨some line, file⟩ f.active depth e with
      | .ok true => (p >>= fun _ => Run.repeatWhile (Run.test file depth e line) p n) f
      | .ok false => .ok () f
      | .error h => .error h f := by
  rw [Run.repeatWhile, bind_apply, Run.test]
  cases evalBool ⟨some line, file⟩ f.active depth e with
  | ok t => cases t <;> rfl
  | error h => rfl

end

end CommandScript
