import CommandScript.Proofs.Running.Isolation
import CommandScript.Proofs.Running.Reach
import CommandScript.Proofs.Tables

/-! # Loops inside methods

Inside a method an assignment reads global variables and writes a local one, and nothing that runs
there changes the global variables. A pass through a body of simple statements therefore binds the
same values every time, so the second pass leaves the variables as the first one did.
-/

namespace CommandScript

/-- An assignment, a definition, an invocation or a command. -/
def Stmt.simple : Stmt → Bool
  | .assign .. | .define .. | .invoke .. | .command .. => true
  | _ => false

theorem eval_congr {a b : Scope} (h : ∀ x, a.get? x = b.get? x) (site : Site) (depth : Nat)
    (e : Expr) : eval site a depth e = eval site b depth e := by
  fun_induction eval site a depth e with
  | case1 => rfl
  | case2 => rfl
  | case3 depth x v hv => rw [eval, ← h x, hv]
  | case4 depth x hv => rw [eval, ← h x, hv]
  | case5 depth l o r ihl ihr => rw [eval, ihl, ihr]
  | case6 depth l o r ihl ihr => rw [eval, ihl, ihr]
  | case7 => rfl

theorem evalBool_congr {a b : Scope} (h : ∀ x, a.get? x = b.get? x) (site : Site) (depth : Nat)
    (e : Expr) : evalBool site a depth e = evalBool site b depth e := by
  rw [evalBool, eval_congr h, evalBool]

theorem Table.get?_putAll_twice {κ α : Type} [DecidableEq κ] (t : Table κ α) (es : List (κ × α))
    (k : κ) : ((t.putAll es).putAll es).get? k = (t.putAll es).get? k := by
  rw [get?_putAll _ _ k, get?_putAll t _ k, ← Option.or_assoc, Option.or_self]

/-- What a statement binds in a method that sees these global variables. -/
def Stmt.binding? (file : Option String) (globals : Scope) (depth : Nat) :
    Stmt → Option (String × Value)
  | .assign x e line =>
    match evalInt ⟨some line, file⟩ globals depth e with
    | .ok n => some (x, .int n)
    | .error _ => none
  | _ => none

/-- What a pass through the statements binds. -/
def passBindings (file : Option String) (globals : Scope) (depth : Nat) (ss : List Stmt) :
    List (String × Value) :=
  ss.filterMap (Stmt.binding? file globals depth)

variable {ω : Type} {host : Host ω} {file : Option String} {rounds depth n : Nat} {s : Stmt}
  {ss : List Stmt} {e : Expr} {line : Int} {f g : Frame ω} {locals : Scope}

theorem invoke_locals {x : String} {args : List Expr}
    (hx : exec host file rounds depth (.invoke x args line) f = .ok () g) :
    g.locals = f.locals := by
  match depth with
  | 0 => cases hx
  | 1 => cases hx
  | depth + 2 =>
    rw [exec_invoke] at hx
    split at hx
    · cases hx
    next m _ =>
    split at hx
    · obtain ⟨k, -, rfl⟩ := Run.inScope_eq_ok hx
      rfl
    · cases hx

theorem exec_simple (hd : host.Detached) (hs : s.simple = true) (hl : f.locals = some locals)
    (hx : exec host file rounds depth s f = .ok () g) :
    f.SameGlobals g ∧ g.locals =
      some (locals.putAll (s.binding? file f.context.globals (depth - 1)).toList) := by
  cases depth with
  | zero => cases hx
  | succ depth =>
    cases s with
    | block | conditional | loop | misplaced => cases hs
    | assign x e line =>
      rw [exec_assign] at hx
      split at hx
      · next n hn =>
        cases hx
        rw [Nat.add_sub_cancel, Stmt.binding?, hn, Frame.assign, hl]
        exact ⟨rfl, rfl⟩
      · cases hx
    | define x params body line =>
      cases hx
      exact ⟨rfl, hl⟩
    | invoke x args line =>
      have hk := (inner_contract hd).exec file rounds (depth + 1) (s := .invoke x args line) trivial
        ⟨locals, hl⟩
      rw [hx] at hk
      exact ⟨hk.2, (invoke_locals hx).trans hl⟩
    | command x args line =>
      rw [exec_command] at hx
      split at hx
      · next texts _ =>
        cases ho : host.dispatch depth x texts f.toState with
        | ok _ s =>
          rw [Run.dispatch_ok ho] at hx
          cases hx
          exact ⟨congrArg Context.globals (hd _ _ _ _ _ (.inl ho)), hl⟩
        | error h s =>
          rw [Run.dispatch_error ho] at hx
          cases hx
      · cases hx

theorem each_simple (hd : host.Detached) (hs : ∀ s ∈ ss, s.simple = true)
    (hl : f.locals = some locals)
    (hx : Run.each (exec host file rounds depth) ss f = .ok () g) :
    f.SameGlobals g ∧ g.locals =
      some (locals.putAll (passBindings file f.context.globals (depth - 1) ss)) := by
  induction ss generalizing f locals with
  | nil =>
    cases hx
    exact ⟨rfl, hl⟩
  | cons s ss ih =>
    rw [Run.each_cons] at hx
    obtain ⟨_, k, hk, hx⟩ := bind_eq_ok hx
    obtain ⟨hg, hb⟩ := exec_simple hd (hs s (by simp)) hl hk
    obtain ⟨hg', hb'⟩ := ih (fun t ht => hs t (by simp [ht])) hb hx
    refine ⟨Eq.trans hg' hg, ?_⟩
    rw [hb', ← Table.putAll_append, hg, passBindings, passBindings]
    cases hv : s.binding? file f.context.globals (depth - 1) with
    | none => rw [List.filterMap_cons_none hv]; rfl
    | some b => rw [List.filterMap_cons_some hv]; rfl

/-- One pass through a body of simple statements puts bindings into the local scope that depend on
the global variables alone. -/
theorem pass_simple (hd : host.Detached) (hs : ∀ s ∈ ss, s.simple = true)
    (hl : f.locals = some locals)
    (hx : exec host file rounds depth (.block ss) f = .ok () g) :
    f.SameGlobals g ∧ g.locals =
      some (locals.putAll (passBindings file f.context.globals (depth - 2) ss)) := by
  cases depth with
  | zero => cases hx
  | succ depth =>
    rw [exec_block] at hx
    exact each_simple hd hs hl hx

theorem Iterates.settled (hd : host.Detached) (hs : ∀ s ∈ ss, s.simple = true)
    (hl : f.locals = some locals)
    (hb : ∀ x, (locals.putAll (passBindings file f.context.globals (depth - 2) ss)).get? x =
      locals.get? x)
    (hi : Iterates host file rounds depth e (.block ss) line n f g) :
    ∀ x, g.active.get? x = f.active.get? x := by
  induction n generalizing f locals with
  | zero =>
    cases hi
    exact fun _ => rfl
  | succ n ih =>
    rcases hi with _ | @⟨_, _, k, _, ht, hx, hi⟩
    obtain ⟨hg, hk⟩ := pass_simple hd hs hl hx
    have ha : ∀ x, k.active.get? x = f.active.get? x := by
      intro x
      rw [Frame.active, Frame.active, hk, hl]
      exact hb x
    have hf := ih hk (fun x => by rw [hg, Table.get?_putAll_twice]) hi
    exact fun x => (hf x).trans (ha x)

/-- A loop inside a method cannot count. If its body is made of simple statements and it ends, then
it has run its body at most once. -/
theorem loop_runs_once (hd : host.Detached) (hf : f.Inner) (hs : ∀ s ∈ ss, s.simple = true)
    (hx : exec host file rounds (depth + 1) (.loop e (.block ss) line) f = .ok () g) :
    ∃ n, n ≤ 1 ∧ Iterates host file rounds depth e (.block ss) line n f g ∧
      evalBool ⟨some line, file⟩ g.active (depth - 1) e = .ok false := by
  obtain ⟨locals, hl⟩ := hf
  rw [exec_loop] at hx
  obtain ⟨n, hi, hn⟩ := repeatWhile_eq_ok hx
  refine ⟨n, ?_, hi, hn⟩
  match n, hi with
  | 0, _ => exact Nat.zero_le 1
  | 1, _ => exact Nat.le_refl 1
  | n + 2, .round _ hp hi =>
    -- the test before the second round is made on the values it fails on at the end
    obtain ⟨hg, hk⟩ := pass_simple hd hs hl hp
    have ha := hi.settled hd hs hk fun x => by rw [hg, Table.get?_putAll_twice]
    rcases hi with _ | ⟨ht, -, -⟩
    rw [evalBool_congr ha, ht] at hn
    cases hn

/-- A body that adds four to `x`. It also defines a method that overwrites `x` and redefines itself,
invokes it and says how far it is. -/
def addingBody : List Stmt :=
  [.define "Spoil" ["y"] (.block [.assign "x" (.int 9) 2, .define "Spoil" ["y"] (.block []) 3]) 1,
    .invoke "Spoil" [.var "x"] 5, .assign "x" (.arith (.var "x") (.known .add) (.int 4)) 6,
    .command "say" [.var "x"] 7]

theorem loop_runs_once_adding :
    (Registry.host [{ name := "say" }]).Detached ∧
    ∃ g : Frame World, g.locals = some ⟨[("x", .int 5)]⟩ ∧ g.context.globals = ⟨[("x", .int 1)]⟩ ∧
      exec (Registry.host [{ name := "say" }]) none roundLimit 20
        (.loop (.compare (.var "x") (.known .ne) (.int 5)) (.block addingBody) 4) .shadowing =
          .ok () g ∧
      ∃ n, n ≤ 1 ∧ Iterates (Registry.host [{ name := "say" }]) none roundLimit 19
        (.compare (.var "x") (.known .ne) (.int 5)) (.block addingBody) 4 n .shadowing g := by
  have he : Registry.Echoes [{ name := "say" }] := by simp [Registry.Echoes]
  have hd : (Registry.host [{ name := "say" }]).Detached := Registry.hostWithin_detached he _
  obtain ⟨r, hx⟩ : ∃ r, exec (Registry.host [{ name := "say" }]) none roundLimit 20
      (.loop (.compare (.var "x") (.known .ne) (.int 5)) (.block addingBody) 4) .shadowing = r :=
    ⟨_, rfl⟩
  have hf : failure? r = none := by
    rw [← hx]
    decide +kernel
  have hl : (lastState r).locals = some ⟨[("x", .int 5)]⟩ := by
    rw [← hx]
    decide +kernel
  have hg : (lastState r).context.globals = ⟨[("x", .int 1)]⟩ := by
    rw [← hx]
    decide +kernel
  cases r with
  | ok _ g =>
    obtain ⟨n, hn, hi, -⟩ := loop_runs_once hd ⟨_, rfl⟩ (by decide) hx
    exact ⟨hd, g, hl, hg, hx, n, hn, hi⟩
  | error h g => cases hf

end CommandScript
