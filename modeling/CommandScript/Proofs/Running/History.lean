import CommandScript.Proofs.Running.Script
import CommandScript.Proofs.Running.Typing

/-! # The history of runs

Statements begin one after another. The history of a run lists them in this order, each with the
frame that it begins in, so the part of it before a moment tells what has been done by then. What
history and frame have to do with each other follows from what a single statement does.
-/

namespace CommandScript

variable {ω α β : Type}

/-- A statement that begins to run. -/
structure Visit (ω : Type) where
  host : Host ω
  file : Option String
  rounds : Nat
  depth : Nat
  statement : Stmt
  frame : Frame ω

/-- What a statement does by itself, before any statement inside it. -/
inductive Deed where
  | bind (name : String) (n : Int)
  | define (method : Method)
  | dispatch (calls : Nat) (name : String) (args : List String)
  | call (written : String) (method : Method) (locals : Scope)

/-- The frame right after a deed. -/
def Deed.apply (host : Host ω) : Deed → Frame ω → Frame ω
  | bind x n, f => f.assign x (.int n)
  | define m, f =>
    { f with context := f.context.define m, world := host.note (.defined m.signature) f.world }
  | dispatch calls x args, f =>
    { f with toState := lastState (host.dispatch calls x args f.toState) }
  | call x m locals, f =>
    { f with world := host.note (.invoking x m.name locals) f.world, locals := some locals }

theorem ok_of_toOption {ε : Type} {r : Except ε α} {a : α} (h : r.toOption = some a) :
    r = .ok a := by
  cases r with
  | ok a' => cases h; rfl
  | error e => cases h

namespace Visit

/-- What came of the statement. -/
def outcome (v : Visit ω) : EStateM.Result Halt (Frame ω) Unit :=
  exec v.host v.file v.rounds v.depth v.statement v.frame

def deed? (v : Visit ω) : Option Deed :=
  match v.depth, v.statement with
  | depth + 1, .assign x e line =>
    (evalInt ⟨some line, v.file⟩ v.frame.context.globals depth e).toOption.map (.bind x)
  | _ + 1, .define x params body line => some (.define ⟨x, params, body, line⟩)
  | depth + 1, .command x args line =>
    (args.mapM (evalText ⟨some line, v.file⟩ v.frame.active depth)).toOption.map
      (.dispatch depth x)
  | depth + 2, .invoke x args line =>
    (v.frame.context.resolve? args.length).bind fun m =>
      (bindArguments ⟨some line, v.file⟩ v.frame.active depth (m.params.zip args) {}).toOption.map
        (.call x m)
  | _, _ => none

section

variable (host : Host ω) (file : Option String) (rounds depth : Nat) (x : String) (e : Expr)
  (args : List Expr) (line : Int) (f : Frame ω)

theorem deed?_assign : deed? ⟨host, file, rounds, depth + 1, .assign x e line, f⟩ =
    (evalInt ⟨some line, file⟩ f.context.globals depth e).toOption.map (.bind x) := rfl

theorem deed?_command : deed? ⟨host, file, rounds, depth + 1, .command x args line, f⟩ =
    (args.mapM (evalText ⟨some line, file⟩ f.active depth)).toOption.map (.dispatch depth x) := rfl

theorem deed?_invoke : deed? ⟨host, file, rounds, depth + 2, .invoke x args line, f⟩ =
    (f.context.resolve? args.length).bind fun m =>
      (bindArguments ⟨some line, file⟩ f.active depth (m.params.zip args) {}).toOption.map
        (.call x m) := rfl

end

theorem deed?_cases {v : Visit ω} {deed : Deed} (h : v.deed? = some deed) :
    match deed with
    | .bind x n => ∃ e line depth, v.depth = depth + 1 ∧ v.statement = .assign x e line ∧
        evalInt ⟨some line, v.file⟩ v.frame.context.globals depth e = .ok n
    | .define m => 0 < v.depth ∧ v.statement = .define m.name m.params m.body m.line
    | .dispatch calls x texts => ∃ args line, v.depth = calls + 1 ∧
        v.statement = .command x args line ∧
        args.mapM (evalText ⟨some line, v.file⟩ v.frame.active calls) = .ok texts
    | .call x m locals => ∃ args line depth, v.depth = depth + 2 ∧
        v.statement = .invoke x args line ∧ v.frame.context.resolve? args.length = some m ∧
        bindArguments ⟨some line, v.file⟩ v.frame.active depth (m.params.zip args) {} =
          .ok locals := by
  unfold deed? at h
  split at h
  · next depth x e line hd hs =>
    obtain ⟨n, hn, rfl⟩ := Option.map_eq_some_iff.mp h
    exact ⟨e, line, depth, hd, hs, ok_of_toOption hn⟩
  · next hd hs =>
    cases h
    exact ⟨hd ▸ Nat.succ_pos _, hs⟩
  · next calls x args line hd hs =>
    obtain ⟨texts, ht, rfl⟩ := Option.map_eq_some_iff.mp h
    exact ⟨args, line, hd, hs, ok_of_toOption ht⟩
  · next depth x args line hd hs =>
    obtain ⟨m, hm, h⟩ := Option.bind_eq_some_iff.mp h
    obtain ⟨locals, hl, rfl⟩ := Option.map_eq_some_iff.mp h
    exact ⟨args, line, depth, hd, hs, hm, ok_of_toOption hl⟩
  · cases h

/-- The frame in which the run goes on. -/
def next (v : Visit ω) : Frame ω :=
  match v.deed? with
  | some deed => deed.apply v.host v.frame
  | none => v.frame

/-- The method that is defined. -/
def method? (v : Visit ω) : Option Method :=
  match v.deed? with
  | some (.define m) => some m
  | _ => none

/-- The command that is dispatched, with its arguments. -/
def command? (v : Visit ω) : Option (String × List String) :=
  match v.deed? with
  | some (.dispatch _ x args) => some (x, args)
  | _ => none

end Visit

namespace Run

theorem lastState_dispatch (host : Host ω) (site : Site) (calls : Nat) (x : String)
    (args : List String) (f : Frame ω) : lastState (dispatch host site calls x args f) =
      { f with toState := lastState (host.dispatch calls x args f.toState) } := by
  cases hx : host.dispatch calls x args f.toState with
  | ok _ s => rw [dispatch_ok hx]; rfl
  | error h s => rw [dispatch_error hx]; rfl

theorem lastState_inScope (locals : Scope) (body : Run ω Unit) (f : Frame ω) :
    lastState (inScope locals body f) =
      { lastState (body { f with locals := some locals }) with locals := f.locals } := by
  cases hx : body { f with locals := some locals } with
  | ok _ g => rw [inScope_ok hx]; rfl
  | error h g => rw [inScope_error hx]; rfl

/-- What is listed for the items that `each` comes to. -/
def eachLog (p : α → Run ω Unit) (log : α → Frame ω → List β) : List α → Frame ω → List β
  | [], _ => []
  | a :: rest, f => log a f ++
    match p a f with
    | .ok _ g => eachLog p log rest g
    | .error _ _ => []

/-- What is listed for the rounds that `repeatWhile` runs. -/
def whileLog (test : Run ω Bool) (body : Run ω Unit) (log : Frame ω → List β) :
    Nat → Frame ω → List β
  | 0, _ => []
  | n + 1, f =>
    match test f with
    | .ok true g => log g ++
      match body g with
      | .ok _ k => whileLog test body log n k
      | .error _ _ => []
    | _ => []

variable {p : α → Run ω Unit} {f g : Frame ω}

theorem exists_of_mem_eachLog {log : α → Frame ω → List β} {as : List α} {b : β}
    (h : b ∈ eachLog p log as f) : ∃ a ∈ as, ∃ g, b ∈ log a g := by
  induction as generalizing f with
  | nil => cases h
  | cons a as ih =>
    rcases List.mem_append.mp h with h | h
    · exact ⟨a, List.mem_cons_self, f, h⟩
    · split at h
      · obtain ⟨a', ha, g, hg⟩ := ih h
        exact ⟨a', List.mem_cons_of_mem a ha, g, hg⟩
      · cases h

theorem exists_of_mem_whileLog {test : Run ω Bool} {body : Run ω Unit} {log : Frame ω → List β}
    {n : Nat} {b : β} (h : b ∈ whileLog test body log n f) : ∃ g, b ∈ log g := by
  induction n generalizing f with
  | zero => cases h
  | succ n ih =>
    rw [whileLog] at h
    split at h
    · rcases List.mem_append.mp h with h | h
      · exact ⟨_, h⟩
      · split at h
        · exact ih h
        · cases h
    · cases h

theorem exists_of_each_ok {log : α → Frame ω → List β} {as : List α} {P : Frame ω → Prop}
    (hp : ∀ {a f g}, P f → p a f = .ok () g → P g) (hf : P f) (hx : each p as f = .ok () g)
    {a : α} (ha : a ∈ as) :
    ∃ f' g', P f' ∧ p a f' = .ok () g' ∧ ∀ b ∈ log a f', b ∈ eachLog p log as f := by
  induction as generalizing f with
  | nil => cases ha
  | cons b as ih =>
    rw [each_cons] at hx
    obtain ⟨_, f₁, hb, hx⟩ := bind_eq_ok hx
    rw [eachLog, hb]
    rcases List.mem_cons.mp ha with rfl | ha
    · exact ⟨f, f₁, hf, hb, fun b h => List.mem_append_left _ h⟩
    · obtain ⟨f', g', hf', hx', hl⟩ := ih (hp hf hb) hx ha
      exact ⟨f', g', hf', hx', fun b h => List.mem_append_right _ (hl b h)⟩

end Run

/-- The statements that begin while a statement runs, itself the first. -/
def visits (host : Host ω) (file : Option String) (rounds : Nat) :
    Nat → Stmt → Frame ω → List (Visit ω)
  | 0, s, f => [⟨host, file, rounds, 0, s, f⟩]
  | depth + 1, s, f => ⟨host, file, rounds, depth + 1, s, f⟩ ::
    match s with
    | .block ss => Run.eachLog (exec host file rounds depth) (visits host file rounds depth) ss f
    | .conditional e body line =>
      match evalBool ⟨some line, file⟩ f.active (depth - 1) e with
      | .ok true => visits host file rounds depth body f
      | _ => []
    | .loop e body line =>
      Run.whileLog (Run.test file (depth - 1) e line) (exec host file rounds depth body)
        (visits host file rounds depth body) rounds f
    | .invoke x args line =>
      match depth with
      | 0 => []
      | inner + 1 =>
        match f.context.resolve? args.length with
        | none => []
        | some m =>
          match bindArguments ⟨some line, file⟩ f.active inner (m.params.zip args) {} with
          | .ok locals => visits host file rounds inner m.body
              ((Deed.call x m locals).apply host f)
          | .error _ => []
    | _ => []

theorem self_mem_visits {host : Host ω} {file : Option String} {rounds depth : Nat} {s : Stmt}
    {f : Frame ω} : ⟨host, file, rounds, depth, s, f⟩ ∈ visits host file rounds depth s f := by
  cases depth with
  | zero => exact List.mem_singleton_self _
  | succ depth =>
    unfold visits
    exact List.mem_cons_self

/-- The statements that begin while this one runs, itself the first. -/
def Visit.visits (v : Visit ω) : List (Visit ω) :=
  CommandScript.visits v.host v.file v.rounds v.depth v.statement v.frame

/-! ## Invariants of history and frame -/

/-- After the history `vs`, the visits `ws` begin in frames that `H` allows, and so does what comes
after them. -/
structure Told (H : List (Visit ω) → Frame ω → Prop) (vs ws : List (Visit ω)) (f : Frame ω) :
    Prop where
  visit : ∀ before v after, ws = before ++ v :: after → H (vs ++ before) v.frame
  last : H (vs ++ ws) f

/-- With hosts of the kind `K`, what holds of history and frame is kept by every statement, by
notes, and on the way back from a method. -/
structure Chronicle (K : Host ω → Prop) (H : List (Visit ω) → Frame ω → Prop) : Prop where
  step : ∀ {vs} {v : Visit ω}, K v.host → H vs v.frame → H (vs ++ [v]) v.next
  note : ∀ {vs f host} event, K host → H vs f →
    H vs { f with world := host.note event f.world }
  leave : ∀ {vs ws f g}, H vs f → H (vs ++ ws) g → H (vs ++ ws) { g with locals := f.locals }

variable {K : Host ω → Prop} {H : List (Visit ω) → Frame ω → Prop} {vs ws us : List (Visit ω)}
  {f g : Frame ω}

namespace Told

theorem nil (h : H vs f) : Told H vs [] f := by
  refine ⟨?_, by rwa [List.append_nil]⟩
  intro before v after he
  cases before <;> cases he

theorem append (h : Told H vs ws f) (h' : Told H (vs ++ ws) us g) : Told H vs (ws ++ us) g := by
  refine ⟨?_, by rw [← List.append_assoc]; exact h'.last⟩
  intro before v after he
  rcases List.append_eq_append_iff.mp he with ⟨more, rfl, hu⟩ | ⟨more, hw, hu⟩
  · rw [← List.append_assoc]
    exact h'.visit more v after hu
  · cases more with
    | nil =>
      rw [List.append_nil] at hw
      subst hw
      have hv := h'.visit [] v after hu.symm
      rwa [List.append_nil] at hv
    | cons w more =>
      obtain ⟨rfl, -⟩ := List.cons.inj hu
      exact h.visit before v more hw

theorem cons {v : Visit ω} (hv : H vs v.frame) (h : Told H (vs ++ [v]) ws f) :
    Told H vs (v :: ws) f := by
  refine ⟨?_, by simpa using h.last⟩
  intro before u after he
  cases before with
  | nil =>
    obtain ⟨rfl, -⟩ := List.cons.inj he
    rwa [List.append_nil]
  | cons w before =>
    obtain ⟨rfl, hw⟩ := List.cons.inj he
    simpa using h.visit before u after hw

theorem each {p : α → Run ω Unit} {log : α → Frame ω → List (Visit ω)} {as : List α}
    (hk : ∀ a ∈ as, ∀ {vs f}, H vs f → Told H vs (log a f) (lastState (p a f))) (hf : H vs f) :
    Told H vs (Run.eachLog p log as f) (lastState (Run.each p as f)) := by
  induction as generalizing vs f with
  | nil => exact .nil hf
  | cons a as ih =>
    have ha := hk a (by simp) hf
    rw [Run.eachLog, Run.each_cons, bind_apply]
    cases hp : p a f with
    | error h g =>
      rw [hp] at ha
      rwa [List.append_nil]
    | ok _ g =>
      rw [hp] at ha
      exact ha.append (ih (fun b hb => hk b (by simp [hb])) ha.last)

theorem repeatWhile {file : Option String} {depth : Nat} {e : Expr} {line : Int}
    {body : Run ω Unit} {log : Frame ω → List (Visit ω)}
    (hk : ∀ {vs f}, H vs f → Told H vs (log f) (lastState (body f))) (n : Nat) (hf : H vs f) :
    Told H vs (Run.whileLog (Run.test file depth e line) body log n f)
      (lastState (Run.repeatWhile (Run.test file depth e line) body n f)) := by
  induction n generalizing vs f with
  | zero => exact .nil hf
  | succ n ih =>
    rw [repeatWhile_test, Run.whileLog, Run.test]
    cases evalBool ⟨some line, file⟩ f.active depth e with
    | error h => exact .nil hf
    | ok t =>
      cases t with
      | false => exact .nil hf
      | true =>
        have hb := hk hf
        dsimp only [Run.ofExcept, pure_apply]
        rw [bind_apply]
        cases hp : body f with
        | error h g =>
          rw [hp] at hb
          rwa [List.append_nil]
        | ok _ g =>
          rw [hp] at hb
          exact hb.append (ih hb.last)

end Told

namespace Chronicle

variable {host : Host ω} {file : Option String} {rounds depth : Nat}

theorem leaf (hc : Chronicle K H) (hk : K host) {s : Stmt} (hf : H vs f)
    (hv : visits host file rounds depth s f = [⟨host, file, rounds, depth, s, f⟩])
    (hx : lastState (exec host file rounds depth s f) =
      Visit.next ⟨host, file, rounds, depth, s, f⟩) :
    Told H vs (visits host file rounds depth s f)
      (lastState (exec host file rounds depth s f)) := by
  rw [hv, hx]
  exact .cons hf (.nil (hc.step (v := ⟨host, file, rounds, depth, s, f⟩) hk hf))

theorem around (hc : Chronicle K H) (hk : K host) {s : Stmt} (hf : H vs f)
    (hv : visits host file rounds depth s f = ⟨host, file, rounds, depth, s, f⟩ :: ws)
    (hn : Visit.next ⟨host, file, rounds, depth, s, f⟩ = f)
    (ht : ∀ {vs}, H vs f → Told H vs ws g) :
    Told H vs (visits host file rounds depth s f) g := by
  have hs := hc.step (v := ⟨host, file, rounds, depth, s, f⟩) hk hf
  rw [hn] at hs
  rw [hv]
  exact .cons hf (ht hs)

theorem invoke (hc : Chronicle K H) (hk : K host)
    (hb : ∀ (s : Stmt) {vs f}, H vs f → Told H vs (visits host file rounds depth s f)
      (lastState (CommandScript.exec host file rounds depth s f)))
    (x : String) (args : List Expr) (line : Int) (hf : H vs f) :
    Told H vs (visits host file rounds (depth + 2) (.invoke x args line) f)
      (lastState (CommandScript.exec host file rounds (depth + 2) (.invoke x args line) f)) := by
  have hs := hc.step (v := ⟨host, file, rounds, depth + 2, .invoke x args line, f⟩) hk hf
  rw [exec_invoke, visits]
  rw [Visit.next, Visit.deed?_invoke] at hs
  cases hm : f.context.resolve? args.length with
  | none =>
    rw [hm] at hs
    exact .cons hf (.nil hs)
  | some m =>
    rw [hm, Option.bind_some] at hs
    dsimp only
    cases ha : bindArguments ⟨some line, file⟩ f.active depth (m.params.zip args) {} with
    | error h =>
      rw [ha] at hs
      exact .cons hf (.nil hs)
    | ok locals =>
      rw [ha] at hs
      have ht := hb m.body hs
      dsimp only
      rw [Run.lastState_inScope]
      refine .cons hf ⟨ht.visit, ?_⟩
      -- the scope of the caller is as it was when the method was noted
      have hl := ht.last
      rw [List.append_assoc] at hl ⊢
      exact hc.leave (hc.note _ hk hf) hl

/-- A run that is told in terms of history and frame from the start is told so to the end. -/
theorem exec (hc : Chronicle K H) (hk : K host) (file : Option String) (rounds depth : Nat)
    (s : Stmt) (hf : H vs f) :
    Told H vs (visits host file rounds depth s f)
      (lastState (CommandScript.exec host file rounds depth s f)) := by
  induction depth using Nat.strongRecOn generalizing s vs f with
  | ind depth ih =>
    cases depth with
    | zero => exact hc.leaf hk hf rfl rfl
    | succ depth =>
      have ih' : ∀ (s : Stmt) {vs f}, H vs f → Told H vs (visits host file rounds depth s f)
          (lastState (CommandScript.exec host file rounds depth s f)) :=
        fun s _ _ hf => ih depth (Nat.lt_succ_self _) s hf
      cases s with
      | block ss => exact hc.around hk hf rfl rfl (.each fun s _ => ih' s)
      | conditional e body line =>
        refine hc.around hk hf rfl rfl fun hf => ?_
        rw [exec_conditional]
        cases evalBool ⟨some line, file⟩ f.active (depth - 1) e with
        | error h => exact .nil hf
        | ok t =>
          cases t with
          | false => exact .nil hf
          | true => exact ih' body hf
      | loop e body line => exact hc.around hk hf rfl rfl (.repeatWhile (ih' body) rounds)
      | assign x e line =>
        refine hc.leaf hk hf rfl ?_
        rw [exec_assign, Visit.next, Visit.deed?_assign]
        cases evalInt ⟨some line, file⟩ f.context.globals depth e <;> rfl
      | define x params body line => exact hc.leaf hk hf rfl rfl
      | invoke x args line =>
        cases depth with
        | zero => exact hc.leaf hk hf rfl rfl
        | succ inner => exact hc.invoke hk (fun s _ _ => ih inner (by omega) s) x args line hf
      | command x args line =>
        refine hc.leaf hk hf rfl ?_
        rw [exec_command, Visit.next, Visit.deed?_command]
        cases args.mapM (evalText ⟨some line, file⟩ f.active depth) with
        | error h => rfl
        | ok texts => exact Run.lastState_dispatch host ⟨some line, file⟩ depth x texts f
      | misplaced tree => exact hc.leaf hk hf rfl rfl

end Chronicle

/-! ## What a statement changes -/

theorem Host.Detached.lastState_context {host : Host ω} (hd : host.Detached) (calls : Nat)
    (x : String) (args : List String) (s : State ω) :
    (lastState (host.dispatch calls x args s)).context = s.context := by
  apply hd calls x args
  cases host.dispatch calls x args s with
  | ok _ s' => exact Or.inl rfl
  | error h s' => exact Or.inr ⟨h, rfl⟩

namespace Visit

variable {v : Visit ω}

theorem deed?_of_method? {m : Method} (hm : v.method? = some m) : v.deed? = some (.define m) := by
  unfold method? at hm
  split at hm
  · next hd =>
    cases hm
    exact hd
  · cases hm

theorem method?_eq_some {m : Method} : v.method? = some m ↔
    0 < v.depth ∧ v.statement = .define m.name m.params m.body m.line := by
  constructor
  · intro hm
    exact deed?_cases (deed?_of_method? hm)
  · rintro ⟨hd, hs⟩
    obtain ⟨depth, hd⟩ := Nat.exists_eq_succ_of_ne_zero (Nat.ne_of_gt hd)
    rw [method?, deed?, hd, hs]

theorem next_methods (hd : v.host.Detached) :
    v.next.context.methods = match v.method? with
      | some m => v.frame.context.methods.put m.signature m
      | none => v.frame.context.methods := by
  unfold next method?
  cases v.deed? with
  | none => rfl
  | some deed =>
    cases deed with
    | bind x n =>
      dsimp only [Deed.apply]
      unfold Frame.assign
      split <;> rfl
    | define m => rfl
    | dispatch calls x args =>
      exact congrArg Context.methods (hd.lastState_context calls x args v.frame.toState)
    | call x m locals => rfl

end Visit

/-! ## Sessions -/

/-- A run against the context that earlier runs left: of a script, or of a statement made by
hand. -/
inductive Turn (ω : Type) where
  | script (host : Host ω) (file : Option String) (calls : Nat) (text : String)
  | statement (host : Host ω) (file : Option String) (rounds depth : Nat) (s : Stmt)

namespace Turn

def host : Turn ω → Host ω
  | script host .. => host
  | statement host .. => host

def run : Turn ω → Task ω Unit
  | script host file calls text => executeWithin host calls file text
  | statement host file rounds depth s => runStatement host file rounds depth s

/-- The state after the run, whether it ended well or stopped. -/
def after (t : Turn ω) (s : State ω) : State ω := lastState (t.run s)

def visits : Turn ω → State ω → List (Visit ω)
  | script host file calls text, s =>
    match parseWithin calls file text with
    | .ok p => CommandScript.visits host file roundLimit calls (.block p)
        { context := s.context, world := host.note (.parsed p) s.world }
    | .error _ => []
  | statement host file rounds depth t, s =>
    CommandScript.visits host file rounds depth t { toState := s }

variable {host : Host ω} {file : Option String} {calls : Nat} {text : String} {p : Program}

theorem visits_parsed (hp : parseWithin calls file text = .ok p) (s : State ω) :
    (script host file calls text).visits s =
      CommandScript.visits host file roundLimit calls (.block p)
        { context := s.context, world := host.note (.parsed p) s.world } := by
  rw [visits, hp]

theorem visits_unparsed {h : Halt} (hp : parseWithin calls file text = .error h) (s : State ω) :
    (script host file calls text).visits s = [] := by
  rw [visits, hp]

theorem after_script (s : State ω) :
    (script host file calls text).after s = lastState (executeWithin host calls file text s) := rfl

end Turn

def afterTurns (turns : List (Turn ω)) (s : State ω) : State ω :=
  turns.foldl (fun s t => t.after s) s

/-- The history of runs one after another. -/
def history : List (Turn ω) → State ω → List (Visit ω)
  | [], _ => []
  | t :: turns, s => t.visits s ++ history turns (t.after s)

theorem history_append (done rest : List (Turn ω)) (s : State ω) :
    history (done ++ rest) s = history done s ++ history rest (afterTurns done s) := by
  induction done generalizing s with
  | nil => rfl
  | cons t done ih =>
    rw [List.cons_append, history, ih, history, List.append_assoc]
    rfl

theorem afterTurns_concat (done : List (Turn ω)) (t : Turn ω) (s : State ω) :
    afterTurns (done ++ [t]) s = t.after (afterTurns done s) := by
  rw [afterTurns, List.foldl_append]
  rfl

namespace Chronicle

variable {s : State ω}

theorem settle (hc : Chronicle K H) {host : Host ω} (hk : K host) (file : Option String)
    {r : EStateM.Result Halt (State ω) Unit} (h : H vs { toState := lastState r }) :
    H vs { toState := lastState (CommandScript.settle host file r) } := by
  unfold CommandScript.settle
  split
  · exact hc.note _ hk h
  · exact hc.note _ hk h
  · exact h

theorem runStatement (hc : Chronicle K H) {host : Host ω} (hk : K host) (file : Option String)
    (rounds depth : Nat) (t : Stmt) (hs : H vs { toState := s }) :
    Told H vs (visits host file rounds depth t { toState := s })
      { toState := lastState (CommandScript.runStatement host file rounds depth t s) } := by
  have ht := hc.exec hk file rounds depth t hs
  rw [lastState_runStatement]
  exact ⟨ht.visit, hc.leave hs ht.last⟩

theorem turn (hc : Chronicle K H) (t : Turn ω) (hk : K t.host) (hs : H vs { toState := s }) :
    Told H vs (t.visits s) { toState := t.after s } := by
  cases t with
  | statement host file rounds depth t => exact hc.runStatement hk file rounds depth t hs
  | script host file calls text =>
    rw [Turn.after_script]
    cases hp : parseWithin calls file text with
    | error h =>
      rw [Turn.visits_unparsed hp, executeWithin_unparsed hp]
      exact .nil (hc.settle hk file hs)
    | ok p =>
      rw [Turn.visits_parsed hp, executeWithin_parsed hp]
      have ht := hc.runStatement hk file roundLimit calls (.block p)
        (hc.note (.parsed p) hk hs)
      exact ⟨ht.visit, hc.settle hk file ht.last⟩

/-- What holds of history and frame at the start of a session holds all along. -/
theorem session (hc : Chronicle K H) {turns : List (Turn ω)} (hk : ∀ t ∈ turns, K t.host)
    (hs : H vs { toState := s }) :
    Told H vs (history turns s) { toState := afterTurns turns s } := by
  induction turns generalizing vs s with
  | nil => exact .nil hs
  | cons t turns ih =>
    obtain ⟨ht, hts⟩ := List.forall_mem_cons.mp hk
    have h := hc.turn t ht hs
    exact h.append (ih hts h.last)

end Chronicle

/-! ## Moments of a session -/

/-- The frame at a moment of a session, with the history up to this moment: where a statement
begins, where it has ended or stopped, and between runs. -/
inductive Moment (turns : List (Turn ω)) (s : State ω) : List (Visit ω) → Frame ω → Prop where
  | begins {before v after} : history turns s = before ++ v :: after →
      Moment turns s before v.frame
  | ends {before v after} : history turns s = before ++ v :: after →
      Moment turns s (before ++ v.visits) (lastState v.outcome)
  | rests {done rest} : turns = done ++ rest →
      Moment turns s (history done s) { toState := afterTurns done s }

theorem Moment.last (turns : List (Turn ω)) (s : State ω) :
    Moment turns s (history turns s) { toState := afterTurns turns s } :=
  .rests (List.append_nil turns).symm

theorem hosts_chronicle (K : Host ω → Prop) : Chronicle K fun vs _ => ∀ v ∈ vs, K v.host where
  step {vs v} hk hvs := by
    intro w hw
    rcases List.mem_append.mp hw with hw | hw
    · exact hvs w hw
    · obtain rfl := List.mem_singleton.mp hw
      exact hk
  note _ _ hvs := hvs
  leave _ hvs := hvs

variable {turns : List (Turn ω)} {s : State ω}

theorem hosts_of_history (hk : ∀ t ∈ turns, K t.host) :
    ∀ v ∈ history turns s, K v.host := by
  have ht : Told _ [] (history turns s) _ := (hosts_chronicle K).session hk (by simp)
  simpa using ht.last

/-- What a chronicle tells holds at every moment. -/
theorem Chronicle.moment (hc : Chronicle K H) (hk : ∀ t ∈ turns, K t.host)
    (hs : H [] { toState := s }) (hm : Moment turns s vs f) : H vs f := by
  have ht := hc.session hk hs
  cases hm with
  | begins he => exact ht.visit _ _ _ he
  | @ends before v after he =>
    have hv : K v.host := hosts_of_history (s := s) hk v (by simp [he])
    exact (hc.exec hv v.file v.rounds v.depth v.statement (ht.visit _ _ _ he)).last
  | @rests done rest he =>
    subst he
    exact (hc.session (fun t ht => hk t (List.mem_append_left rest ht)) hs).last

end CommandScript
