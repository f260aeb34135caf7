import CommandScript.Proofs.Running.Contract

/-! # Where a run stops

A run enters statements one inside the other. It stops with a halt exactly if it reaches a
statement that stops: by itself, or because the command that it dispatches does.
-/

namespace CommandScript

variable {ω : Type} (host : Host ω) (file : Option String) (rounds : Nat)

/-- So many rounds of a loop lead from one frame to the other. -/
inductive Iterates (depth : Nat) (e : Expr) (body : Stmt) (line : Int) :
    Nat → Frame ω → Frame ω → Prop where
  | none (f : Frame ω) : Iterates depth e body line 0 f f
  | round {n : Nat} {f g k : Frame ω} :
      evalBool ⟨some line, file⟩ f.active (depth - 1) e = .ok true →
      exec host file rounds depth body f = .ok () g → Iterates depth e body line n g k →
      Iterates depth e body line (n + 1) f k

/-- Running the statement at this depth in this frame leads into another one. -/
inductive Enters : Nat → Stmt → Frame ω → Nat → Stmt → Frame ω → Prop where
  | item {depth : Nat} {before after : List Stmt} {s : Stmt} {f g : Frame ω} :
      Run.each (exec host file rounds depth) before f = .ok () g →
      Enters (depth + 1) (.block (before ++ s :: after)) f depth s g
  | branch {depth : Nat} {e : Expr} {body : Stmt} {line : Int} {f : Frame ω} :
      evalBool ⟨some line, file⟩ f.active (depth - 1) e = .ok true →
      Enters (depth + 1) (.conditional e body line) f depth body f
  | round {depth n : Nat} {e : Expr} {body : Stmt} {line : Int} {f g : Frame ω} :
      n < rounds → Iterates host file rounds depth e body line n f g →
      evalBool ⟨some line, file⟩ g.active (depth - 1) e = .ok true →
      Enters (depth + 1) (.loop e body line) f depth body g
  | method {depth : Nat} {x : String} {args : List Expr} {line : Int} {m : Method}
      {locals : Scope} {f : Frame ω} : f.context.resolve? args.length = some m →
      bindArguments ⟨some line, file⟩ f.active depth (m.params.zip args) {} = .ok locals →
      Enters (depth + 2) (.invoke x args line) f depth m.body
        { f with world := host.note (.invoking x m.name locals) f.world, locals := some locals }

/-- Running the statement leads, step by step, to another one. -/
inductive Reaches (depth : Nat) (s : Stmt) (f : Frame ω) : Nat → Stmt → Frame ω → Prop where
  | refl : Reaches depth s f depth s f
  | enter {d d' : Nat} {t t' : Stmt} {g g' : Frame ω} : Reaches depth s f d t g →
      Enters host file rounds d t g d' t' g' → Reaches depth s f d' t' g'

/-- The statement itself stops the run, before any command does. -/
inductive Stops : Nat → Stmt → Frame ω → Halt → Prop where
  | overflow (s : Stmt) (f : Frame ω) : Stops 0 s f .overflow
  | condition {depth : Nat} {e : Expr} {body : Stmt} {line : Int} {f : Frame ω} {h : Halt} :
      evalBool ⟨some line, file⟩ f.active (depth - 1) e = .error h →
      Stops (depth + 1) (.conditional e body line) f h
  | test {depth n : Nat} {e : Expr} {body : Stmt} {line : Int} {f g : Frame ω} {h : Halt} :
      n < rounds → Iterates host file rounds depth e body line n f g →
      evalBool ⟨some line, file⟩ g.active (depth - 1) e = .error h →
      Stops (depth + 1) (.loop e body line) f h
  | endless {depth : Nat} {e : Expr} {body : Stmt} {line : Int} {f g : Frame ω} :
      Iterates host file rounds depth e body line rounds f g →
      Stops (depth + 1) (.loop e body line) f .endless
  | value {depth : Nat} {x : String} {e : Expr} {line : Int} {f : Frame ω} {h : Halt} :
      evalInt ⟨some line, file⟩ f.context.globals depth e = .error h →
      Stops (depth + 1) (.assign x e line) f h
  | invocation (x : String) (args : List Expr) (line : Int) (f : Frame ω) :
      Stops 1 (.invoke x args line) f .overflow
  | unresolved {depth : Nat} {x : String} {args : List Expr} {line : Int} {f : Frame ω} :
      f.context.resolve? args.length = none →
      Stops (depth + 2) (.invoke x args line) f
        (Site.halt ⟨some line, file⟩ (.unresolvedMethod x args.length))
  | arguments {depth : Nat} {x : String} {args : List Expr} {line : Int} {m : Method}
      {f : Frame ω} {h : Halt} : f.context.resolve? args.length = some m →
      bindArguments ⟨some line, file⟩ f.active depth (m.params.zip args) {} = .error h →
      Stops (depth + 2) (.invoke x args line) f h
  | texts {depth : Nat} {x : String} {args : List Expr} {line : Int} {f : Frame ω} {h : Halt} :
      args.mapM (evalText ⟨some line, file⟩ f.active depth) = .error h →
      Stops (depth + 1) (.command x args line) f h
  | misplaced (depth : Nat) (tree : Tree) (f : Frame ω) :
      Stops (depth + 1) (.misplaced tree) f (tree.outOfPlace depth)

/-- The statement dispatches a command that stops. -/
inductive CommandStops : Nat → Stmt → Frame ω → Halt → Prop where
  | mk {depth : Nat} {x : String} {args : List Expr} {line : Int} {texts : List String}
      {f : Frame ω} {h : Halt} {s : State ω} :
      args.mapM (evalText ⟨some line, file⟩ f.active depth) = .ok texts →
      host.dispatch depth x texts f.toState = .error h s →
      CommandStops (depth + 1) (.command x args line) f (h.locate ⟨some line, file⟩)

variable {host file rounds} {depth : Nat} {s : Stmt} {f g : Frame ω} {h : Halt}

theorem Reaches.head {d d' : Nat} {t t' : Stmt} {g g' : Frame ω}
    (he : Enters host file rounds d t g d' t' g')
    (hr : Reaches host file rounds d' t' g' depth s f) :
    Reaches host file rounds d t g depth s f := by
  induction hr with
  | refl => exact .enter .refl he
  | enter _ he' ih => exact .enter ih he'

/-! ## A stop comes from somewhere -/

theorem Run.each_eq_error {α : Type} {p : α → Run ω Unit} {as : List α}
    (he : Run.each p as f = .error h g) :
    ∃ before a after k, as = before ++ a :: after ∧ Run.each p before f = .ok () k ∧
      p a k = .error h g := by
  induction as generalizing f with
  | nil => cases he
  | cons a as ih =>
    rw [each_cons] at he
    rcases bind_eq_error he with he | ⟨_, k, hk, he⟩
    · exact ⟨[], a, as, f, rfl, rfl, he⟩
    · obtain ⟨before, b, after, k', rfl, hb, ha⟩ := ih he
      refine ⟨a :: before, b, after, k', rfl, ?_, ha⟩
      rw [each_cons, bind_ok hk, hb]

theorem repeatWhile_eq_error {e : Expr} {body : Stmt} {line : Int} {n : Nat}
    (he : Run.repeatWhile (Run.test file (depth - 1) e line)
      (exec host file rounds depth body) n f = .error h g) :
    (∃ m k, m < n ∧ Iterates host file rounds depth e body line m f k ∧
      (evalBool ⟨some line, file⟩ k.active (depth - 1) e = .error h ∨
        evalBool ⟨some line, file⟩ k.active (depth - 1) e = .ok true ∧
          exec host file rounds depth body k = .error h g)) ∨
    h = .endless ∧ Iterates host file rounds depth e body line n f g := by
  induction n generalizing f with
  | zero =>
    cases he
    exact Or.inr ⟨rfl, .none _⟩
  | succ n ih =>
    rw [repeatWhile_test] at he
    split at he
    · next ht =>
      rcases bind_eq_error he with he | ⟨_, k, hk, he⟩
      · exact Or.inl ⟨0, f, Nat.succ_pos n, .none f, Or.inr ⟨ht, he⟩⟩
      · rcases ih he with ⟨m, k', hm, hi, hs⟩ | ⟨rfl, hi⟩
        · exact Or.inl ⟨m + 1, k', Nat.succ_lt_succ hm, .round ht hk hi, hs⟩
        · exact Or.inr ⟨rfl, .round ht hk hi⟩
    · cases he
    · next ht =>
      cases he
      exact Or.inl ⟨0, _, Nat.succ_pos n, .none _, Or.inl ht⟩

theorem repeatWhile_eq_ok {e : Expr} {body : Stmt} {line : Int} {n : Nat}
    (hx : Run.repeatWhile (Run.test file (depth - 1) e line)
      (exec host file rounds depth body) n f = .ok () g) :
    ∃ m, Iterates host file rounds depth e body line m f g ∧
      evalBool ⟨some line, file⟩ g.active (depth - 1) e = .ok false := by
  induction n generalizing f with
  | zero => cases hx
  | succ n ih =>
    rw [repeatWhile_test] at hx
    split at hx
    · next ht =>
      obtain ⟨_, k, hk, hx⟩ := bind_eq_ok hx
      obtain ⟨m, hi, hn⟩ := ih hx
      exact ⟨m + 1, .round ht hk hi, hn⟩
    · next ht =>
      cases hx
      exact ⟨0, .none _, ht⟩
    · cases hx

/-- A run that stopped has reached a statement that stops. -/
theorem exists_stop (he : exec host file rounds depth s f = .error h g) :
    ∃ d t k, Reaches host file rounds depth s f d t k ∧
      (Stops host file rounds d t k h ∨ CommandStops host file d t k h) := by
  induction depth using Nat.strongRecOn generalizing s f g with
  | ind depth ih =>
    -- what stops further in is reached from here
    have within : ∀ {d t k g'}, d < depth → Enters host file rounds depth s f d t k →
        exec host file rounds d t k = .error h g' →
        ∃ d t k, Reaches host file rounds depth s f d t k ∧
          (Stops host file rounds d t k h ∨ CommandStops host file d t k h) := by
      intro d t k g' hd hn he
      obtain ⟨d', t', k', hr, hs⟩ := ih d hd he
      exact ⟨d', t', k', hr.head hn, hs⟩
    have here : Stops host file rounds depth s f h → ∃ d t k,
        Reaches host file rounds depth s f d t k ∧
          (Stops host file rounds d t k h ∨ CommandStops host file d t k h) :=
      fun hs => ⟨depth, s, f, .refl, Or.inl hs⟩
    cases depth with
    | zero =>
      cases he
      exact here (.overflow s _)
    | succ depth =>
      cases s with
      | block ss =>
        obtain ⟨before, t, after, k, rfl, hb, ht⟩ := Run.each_eq_error he
        exact within (Nat.lt_succ_self _) (.item hb) ht
      | conditional e body line =>
        rw [exec_conditional] at he
        split at he
        · next ht => exact within (Nat.lt_succ_self _) (.branch ht) he
        · cases he
        · next ht =>
          cases he
          exact here (.condition ht)
      | loop e body line =>
        rw [exec_loop] at he
        rcases repeatWhile_eq_error he with ⟨m, k, hm, hi, ht | ⟨ht, hb⟩⟩ | ⟨rfl, hi⟩
        · exact here (.test hm hi ht)
        · exact within (Nat.lt_succ_self _) (.round hm hi ht) hb
        · exact here (.endless hi)
      | assign x e line =>
        rw [exec_assign] at he
        split at he
        · cases he
        · next hv =>
          cases he
          exact here (.value hv)
      | define x params body line => cases he
      | invoke x args line =>
        cases depth with
        | zero =>
          cases he
          exact here (.invocation x args line _)
        | succ inner =>
          rw [exec_invoke] at he
          split at he
          · next hm =>
            cases he
            exact here (.unresolved hm)
          · next m hm =>
            split at he
            · next locals hb =>
              obtain ⟨g', hg⟩ := Run.inScope_eq_error he
              exact within (by omega) (.method hm hb) hg
            · next ha =>
              cases he
              exact here (.arguments hm ha)
      | command x args line =>
        rw [exec_command] at he
        split at he
        · next texts ht =>
          obtain ⟨h', s, hd, rfl⟩ := Run.dispatch_eq_error he
          exact ⟨_, _, f, .refl, Or.inr (.mk ht hd)⟩
        · next ht =>
          cases he
          exact here (.texts ht)
      | misplaced tree =>
        cases he
        exact here (.misplaced depth tree _)

/-! ## A stop ends the run -/

theorem Iterates.repeatWhile_eq {e : Expr} {body : Stmt} {line : Int} {m : Nat}
    (hi : Iterates host file rounds depth e body line m f g) (n : Nat) :
    Run.repeatWhile (Run.test file (depth - 1) e line) (exec host file rounds depth body)
        (m + n) f =
      Run.repeatWhile (Run.test file (depth - 1) e line) (exec host file rounds depth body)
        n g := by
  induction hi with
  | none => rw [Nat.zero_add]
  | round ht hb _ ih => rw [Nat.succ_add, repeatWhile_test, ht, ← ih]; exact bind_ok hb

theorem Iterates.exec_eq {e : Expr} {body : Stmt} {line : Int} {m : Nat}
    (hi : Iterates host file rounds depth e body line m f g) (hm : m < rounds) :
    ∃ n, exec host file rounds (depth + 1) (.loop e body line) f =
      Run.repeatWhile (Run.test file (depth - 1) e line) (exec host file rounds depth body)
        (n + 1) g := by
  refine ⟨rounds - m - 1, ?_⟩
  rw [exec_loop, ← hi.repeatWhile_eq, show m + (rounds - m - 1 + 1) = rounds by omega]

theorem Stops.exec_eq_error (hs : Stops host file rounds depth s f h) :
    ∃ g, exec host file rounds depth s f = .error h g := by
  cases hs with
  | overflow => exact ⟨f, rfl⟩
  | condition ht => exact ⟨f, by rw [exec_conditional, ht]⟩
  | test hn hi ht =>
    obtain ⟨n, he⟩ := hi.exec_eq hn
    exact ⟨_, by rw [he, repeatWhile_test, ht]⟩
  | endless hi =>
    have he := hi.repeatWhile_eq 0
    rw [Nat.add_zero] at he
    exact ⟨_, by rw [exec_loop, he]; rfl⟩
  | value hv => exact ⟨f, by rw [exec_assign, hv]⟩
  | invocation => exact ⟨f, rfl⟩
  | unresolved hm => exact ⟨f, by rw [exec_invoke, hm]⟩
  | arguments hm ha => exact ⟨f, by rw [exec_invoke, hm]; dsimp only; rw [ha]⟩
  | texts ht => exact ⟨f, by rw [exec_command, ht]⟩
  | misplaced => exact ⟨f, rfl⟩

theorem CommandStops.exec_eq_error (hs : CommandStops host file depth s f h) :
    ∃ g, exec host file rounds depth s f = .error h g := by
  obtain ⟨ht, hd⟩ := hs
  exact ⟨_, by rw [exec_command, ht]; exact Run.dispatch_error hd⟩

theorem Enters.exec_eq_error {d : Nat} {t : Stmt} {k k' : Frame ω}
    (hn : Enters host file rounds depth s f d t k)
    (he : exec host file rounds d t k = .error h k') :
    ∃ g, exec host file rounds depth s f = .error h g := by
  cases hn with
  | item hb =>
    refine ⟨k', ?_⟩
    rw [exec_block, Run.each_append, bind_ok hb, Run.each_cons, bind_error he]
  | branch ht => exact ⟨k', by rw [exec_conditional, ht, he]⟩
  | round hm hi ht =>
    obtain ⟨n, hl⟩ := hi.exec_eq hm
    exact ⟨k', by rw [hl, repeatWhile_test, ht]; exact bind_error he⟩
  | method hm hb =>
    exact ⟨_, by rw [exec_invoke, hm]; dsimp only; rw [hb]; exact Run.inScope_error he⟩

theorem Reaches.exec_eq_error {d : Nat} {t : Stmt} {k k' : Frame ω}
    (hr : Reaches host file rounds depth s f d t k)
    (he : exec host file rounds d t k = .error h k') :
    ∃ g, exec host file rounds depth s f = .error h g := by
  induction hr generalizing k' with
  | refl => exact ⟨k', he⟩
  | enter _ hn ih =>
    obtain ⟨g', hg⟩ := hn.exec_eq_error he
    exact ih hg

/-- A run stops with a halt exactly if it reaches a statement that stops with it. -/
theorem exec_eq_error_iff :
    (∃ g, exec host file rounds depth s f = .error h g) ↔
      ∃ d t k, Reaches host file rounds depth s f d t k ∧
        (Stops host file rounds d t k h ∨ CommandStops host file d t k h) := by
  constructor
  · rintro ⟨g, he⟩
    exact exists_stop he
  · rintro ⟨d, t, k, hr, hs | hs⟩
    · obtain ⟨g, hg⟩ := hs.exec_eq_error
      exact hr.exec_eq_error hg
    · obtain ⟨g, hg⟩ : ∃ g, exec host file rounds d t k = .error h g := hs.exec_eq_error
      exact hr.exec_eq_error hg

/-! ## What is reached keeps to the contract -/

section

variable {S : Stmt → Prop} {P : Frame ω → Prop} {T : Frame ω → Frame ω → Prop} {d : Nat} {t : Stmt}

theorem Iterates.keeps (hc : Contract host S P T) {e : Expr} {body : Stmt} {line : Int} {n : Nat}
    (hb : S body) (hi : Iterates host file rounds depth e body line n f g) (hf : P f) : P g := by
  induction hi with
  | none => exact hf
  | round _ hx _ ih =>
    have hk := hc.exec file rounds depth hb hf
    rw [hx] at hk
    exact ih hk.1

theorem Enters.keeps (hc : Contract host S P T) (hn : Enters host file rounds depth s f d t g)
    (hs : S s) (hf : P f) : S t ∧ P g := by
  cases hn with
  | @item _ before _ _ _ _ hx =>
    have hk : Run.Keeps P T f (Run.each (exec host file rounds d) before f) := by
      apply hc.each _ hf
      intro s hm f hf
      exact hc.exec file rounds d (hc.block hs s (by simp [hm])) hf
    rw [hx] at hk
    exact ⟨hc.block hs t (by simp), hk.1⟩
  | branch => exact ⟨hc.conditional hs, hf⟩
  | round _ hi _ => exact ⟨hc.loop hs, hi.keeps hc (hc.loop hs) hf⟩
  | method hm hb => exact ⟨hc.method hf hm, hc.enter (hc.note (.invoking ..) hf).1 hb⟩

/-- What a run reaches keeps to the contract that its start keeps to. -/
theorem Reaches.keeps (hc : Contract host S P T) (hr : Reaches host file rounds depth s f d t g)
    (hs : S s) (hf : P f) : S t ∧ P g := by
  induction hr with
  | refl => exact ⟨hs, hf⟩
  | enter _ hn ih => exact hn.keeps hc ih.1 ih.2

end

end CommandScript
