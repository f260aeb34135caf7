import CommandScript.Proofs.Running.History

/-! # The commands of a run

Commands are all that a run shows to the outside. Runs that go the same way dispatch the same ones.
-/

namespace CommandScript

variable {ω α β γ : Type}

namespace Run

theorem filterMap_eachLog (k : β → Option γ) (p : α → Run ω Unit) (log : α → Frame ω → List β)
    (as : List α) (f : Frame ω) : (eachLog p log as f).filterMap k =
      eachLog p (fun a f => (log a f).filterMap k) as f := by
  induction as generalizing f with
  | nil => rfl
  | cons a as ih =>
    rw [eachLog, eachLog, List.filterMap_append]
    cases p a f with
    | error h g => rfl
    | ok _ g =>
      dsimp only
      rw [ih]

theorem filterMap_whileLog (k : β → Option γ) (test : Run ω Bool) (body : Run ω Unit)
    (log : Frame ω → List β) (n : Nat) (f : Frame ω) :
    (whileLog test body log n f).filterMap k =
      whileLog test body (fun f => (log f).filterMap k) n f := by
  induction n generalizing f with
  | zero => rfl
  | succ n ih =>
    rw [whileLog, whileLog]
    split
    · next g _ =>
      rw [List.filterMap_append]
      cases body g with
      | error h k => rfl
      | ok _ k =>
        dsimp only
        rw [ih]
    · rfl

end Run

/-- The commands that are dispatched while a statement runs. -/
def issued (host : Host ω) (file : Option String) (rounds depth : Nat) (s : Stmt) (f : Frame ω) :
    List (String × List String) :=
  (visits host file rounds depth s f).filterMap Visit.command?

section

variable (host : Host ω) (file : Option String) (rounds depth : Nat) (x : String) (e : Expr)
  (args : List Expr) (body : Stmt) (line : Int) (f : Frame ω)

theorem issued_block (ss : List Stmt) : issued host file rounds (depth + 1) (.block ss) f =
    Run.eachLog (exec host file rounds depth) (issued host file rounds depth) ss f :=
  Run.filterMap_eachLog ..

theorem issued_conditional : issued host file rounds (depth + 1) (.conditional e body line) f =
    match evalBool ⟨some line, file⟩ f.active (depth - 1) e with
    | .ok true => issued host file rounds depth body f
    | _ => [] := by
  rw [issued, visits, List.filterMap_cons_none rfl]
  cases evalBool ⟨some line, file⟩ f.active (depth - 1) e with
  | error h => rfl
  | ok t => cases t <;> rfl

theorem issued_loop : issued host file rounds (depth + 1) (.loop e body line) f =
    Run.whileLog (Run.test file (depth - 1) e line) (exec host file rounds depth body)
      (issued host file rounds depth body) rounds f :=
  Run.filterMap_whileLog ..

theorem issued_assign : issued host file rounds (depth + 1) (.assign x e line) f = [] := by
  change [Visit.mk host file rounds (depth + 1) (.assign x e line) f].filterMap _ = _
  rw [List.filterMap_cons, Visit.command?, Visit.deed?_assign]
  cases evalInt ⟨some line, file⟩ f.context.globals depth e <;> rfl

theorem issued_invoke : issued host file rounds (depth + 2) (.invoke x args line) f =
    match f.context.resolve? args.length with
    | none => []
    | some m =>
      match bindArguments ⟨some line, file⟩ f.active depth (m.params.zip args) {} with
      | .ok locals => issued host file rounds depth m.body
          { f with
            world := host.note (.invoking x m.name locals) f.world
            locals := some locals }
      | .error _ => [] := by
  rw [issued, visits, List.filterMap_cons, Visit.command?, Visit.deed?_invoke]
  cases f.context.resolve? args.length with
  | none => rfl
  | some m =>
    rw [Option.bind_some]
    dsimp only
    cases bindArguments ⟨some line, file⟩ f.active depth (m.params.zip args) {} <;> rfl

theorem issued_command : issued host file rounds (depth + 1) (.command x args line) f =
    match args.mapM (evalText ⟨some line, file⟩ f.active depth) with
    | .ok texts => [(x, texts)]
    | .error _ => [] := by
  change [Visit.mk host file rounds (depth + 1) (.command x args line) f].filterMap _ = _
  rw [List.filterMap_cons, Visit.command?, Visit.deed?_command]
  cases args.mapM (evalText ⟨some line, file⟩ f.active depth) <;> rfl

end

namespace Likeness

variable {L : Likeness ω} {host : Host ω} {file file' : Option String} {f g : Frame ω}

theorem eachLog_like {p q : Stmt → Run ω Unit} {log log' : Stmt → Frame ω → List β}
    (hp : ∀ {s s' f g}, L.stmts s s' → L.Frames f g → L.Runs (p s f) (q s' g))
    (hlog : ∀ {s s' f g}, L.stmts s s' → L.Frames f g → log s f = log' s' g)
    {ss ss' : List Stmt} (hs : List.Forall₂ L.stmts ss ss') (hf : L.Frames f g) :
    Run.eachLog p log ss f = Run.eachLog q log' ss' g := by
  induction hs generalizing f g with
  | nil => rfl
  | cons hs _ ih =>
    rw [Run.eachLog, Run.eachLog, hlog hs hf]
    rcases (hp hs hf).cases with ⟨_, f₁, g₁, hx, hy, hf₁⟩ | ⟨h, h', f₁, g₁, hx, hy, -⟩
    · rw [hx, hy]
      dsimp only
      rw [ih hf₁]
    · rw [hx, hy]

theorem whileLog_like (hb : L.files → file = file') {e e' : Expr} {i j : Int} {p q : Run ω Unit}
    {log log' : Frame ω → List β} (he : L.Exprs e e') (hl : L.lines i j)
    (hp : ∀ {f g}, L.Frames f g → L.Runs (p f) (q g))
    (hlog : ∀ {f g}, L.Frames f g → log f = log' g) (depth n : Nat) (hf : L.Frames f g) :
    Run.whileLog (Run.test file depth e i) p log n f =
      Run.whileLog (Run.test file' depth e' j) q log' n g := by
  induction n generalizing f g with
  | zero => rfl
  | succ n ih =>
    rw [Run.whileLog, Run.whileLog, Run.test, Run.test]
    rcases (evalBool_like (sites_of_lines hb hl) hf.active depth he).cases with
      ⟨t, hx, hy⟩ | ⟨h, h', hx, hy, -⟩
    · rw [hx, hy]
      cases t with
      | false => rfl
      | true =>
        dsimp only [Run.ofExcept, pure_apply]
        rw [hlog hf]
        rcases (hp hf).cases with ⟨_, f₁, g₁, hx, hy, hf₁⟩ | ⟨h, h', f₁, g₁, hx, hy, -⟩
        · rw [hx, hy]
          dsimp only
          rw [ih hf₁]
        · rw [hx, hy]
    · rw [hx, hy]
      rfl

theorem issued_invoke_like (hh : host.Respects L.worlds) (hb : L.files → file = file')
    (rounds depth : Nat) (ih : ∀ {s s' f g}, L.stmts s s' → L.Frames f g →
      issued host file rounds depth s f = issued host file' rounds depth s' g)
    {es es' : List Expr} {i j : Int} (x : String) (he : List.Forall₂ L.Exprs es es')
    (hl : L.lines i j) (hf : L.Frames f g) :
    issued host file rounds (depth + 2) (.invoke x es i) f =
      issued host file' rounds (depth + 2) (.invoke x es' j) g := by
  have hm := hf.resolve? es.length
  rw [issued_invoke, issued_invoke, ← he.length_eq]
  generalize f.context.resolve? es.length = r at hm ⊢
  generalize g.context.resolve? es.length = r' at hm ⊢
  cases hm with
  | none => rfl
  | @some m m' hm =>
    dsimp only
    rw [← hm.name, ← hm.params]
    rcases (bindArguments_like (sites_of_lines hb hl) hf.active depth m.params he {}).cases with
      ⟨locals, hx, hy⟩ | ⟨h, h', hx, hy, -⟩
    · rw [hx, hy]
      have hn := note_like hh (.invoking x m.name locals) hf
      exact ih hm.body ⟨hn.globals, hn.methods, rfl, hn.world⟩
    · rw [hx, hy]

/-- Matching statements issue the same commands in matching frames. -/
theorem issued_like (hh : host.Respects L.worlds) (hb : L.files → file = file')
    (rounds depth : Nat) {s s' : Stmt} (hs : L.stmts s s') (hf : L.Frames f g) :
    issued host file rounds depth s f = issued host file' rounds depth s' g := by
  induction depth using Nat.strongRecOn generalizing s s' f g with
  | ind depth ih =>
    cases depth with
    | zero => rfl
    | succ depth =>
      have ih' : ∀ {s s' f g}, L.stmts s s' → L.Frames f g →
          issued host file rounds depth s f = issued host file' rounds depth s' g :=
        fun hs hf => ih depth (Nat.lt_succ_self _) hs hf
      have hx : ∀ {s s' f g}, L.stmts s s' → L.Frames f g →
          L.Runs (exec host file rounds depth s f) (exec host file' rounds depth s' g) :=
        fun hs hf => exec_like hh hb rounds depth hs hf
      cases L.parts hs with
      | block hss =>
        rw [issued_block, issued_block]
        exact eachLog_like hx ih' hss hf
      | conditional he hbody hl =>
        rw [issued_conditional, issued_conditional]
        rcases (evalBool_like (sites_of_lines hb hl) hf.active (depth - 1) he).cases with
          ⟨t, hx, hy⟩ | ⟨h, h', hx, hy, -⟩
        · rw [hx, hy]
          cases t with
          | true => exact ih' hbody hf
          | false => rfl
        · rw [hx, hy]
      | loop he hbody hl =>
        rw [issued_loop, issued_loop]
        exact whileLog_like hb he hl (hx hbody) (ih' hbody) (depth - 1) rounds hf
      | assign _ _ _ => rw [issued_assign, issued_assign]
      | define _ _ _ _ => rfl
      | invoke x he hl =>
        cases depth with
        | zero => rfl
        | succ inner =>
          exact issued_invoke_like hh hb rounds inner (fun hs hf => ih inner (by omega) hs hf) x
            he hl hf
      | command x he hl =>
        rw [issued_command, issued_command]
        rcases (evalTexts_like (sites_of_lines hb hl) hf.active depth he).cases with
          ⟨texts, hx, hy⟩ | ⟨h, h', hx, hy, -⟩ <;> rw [hx, hy]
      | misplaced _ => rfl

end Likeness

end CommandScript
