import CommandScript.Proofs.Running.Echo
import CommandScript.Proofs.Running.Typing

/-! # Scopes of methods

A method runs in a scope of its own. Whatever its body does, and whether it ends or stops, the
global variables and the variables of the caller are afterwards what they were before. The method
table is all that an invocation may change in a context.
-/

namespace CommandScript

theorem Registry.hostWithin_detached {registry : Registry} (he : registry.Echoes) (levels : Nat) :
    (registry.hostWithin levels).Detached := by
  rintro calls name args ⟨c, w⟩ s hx
  obtain ⟨v, -, hd⟩ := hostWithin_dispatch he levels calls name args c w
  rw [hd] at hx
  split at hx
  · rcases hx with hx | ⟨h, hx⟩
    · cases hx
      rfl
    · cases hx
  · rcases hx with hx | ⟨h, hx⟩
    · cases hx
    · cases hx
      rfl

variable {ω : Type} {host : Host ω} {f g : Frame ω}

/-- A method is running. -/
def Frame.Inner (f : Frame ω) : Prop := ∃ locals, f.locals = some locals

/-- The global variables are the same, in the same order. -/
def Frame.SameGlobals (f g : Frame ω) : Prop := g.context.globals = f.context.globals

theorem Frame.Inner.assign (hf : f.Inner) (x : String) (v : Value) :
    (f.assign x v).Inner ∧ f.SameGlobals (f.assign x v) := by
  obtain ⟨locals, hl⟩ := hf
  unfold Frame.assign
  rw [hl]
  exact ⟨⟨_, rfl⟩, rfl⟩

/-- What runs inside a method leaves the global variables alone, and so do the methods it
invokes. -/
theorem inner_contract (hd : host.Detached) :
    Contract host (fun _ => True) Frame.Inner Frame.SameGlobals where
  refl _ := rfl
  trans h h' := Eq.trans h' h
  block _ _ _ := trivial
  conditional _ := trivial
  loop _ := trivial
  method _ _ := trivial
  assign x n hf := hf.assign x (.int n)
  define _ hf := ⟨hf, rfl⟩
  note _ hf := ⟨hf, rfl⟩
  dispatch {f calls name args s _ _ _} hf _ hx :=
    ⟨hf, congrArg Context.globals (hd calls name args f.toState s hx)⟩
  enter _ _ := ⟨_, rfl⟩
  leave hf _ ht := ⟨hf, ht⟩

theorem exec_inner (hd : host.Detached) (file : Option String) (rounds depth : Nat) (s : Stmt)
    (hf : f.Inner) : ∃ g, f.SameGlobals g ∧
      (exec host file rounds depth s f = .ok () g ∨
        ∃ h, exec host file rounds depth s f = .error h g) := by
  have hk := (inner_contract hd).exec file rounds depth (s := s) trivial hf
  cases hx : exec host file rounds depth s f with
  | ok _ g =>
    rw [hx] at hk
    exact ⟨g, hk.2, Or.inl rfl⟩
  | error h g =>
    rw [hx] at hk
    exact ⟨g, hk.2, Or.inr ⟨h, rfl⟩⟩

/-- An invocation writes to no scope but its own: it ends or stops in a frame whose global variables
and whose active scope are those it began with. -/
theorem invoke_isolated (hd : host.Detached) (file : Option String) (rounds depth : Nat)
    (x : String) (args : List Expr) (line : Int) (f : Frame ω) :
    ∃ g : Frame ω, g.context.globals = f.context.globals ∧ g.locals = f.locals ∧
      (exec host file rounds depth (.invoke x args line) f = .ok () g ∨
        ∃ h, exec host file rounds depth (.invoke x args line) f = .error h g) := by
  match depth with
  | 0 => exact ⟨f, rfl, rfl, Or.inr ⟨_, exec_zero ..⟩⟩
  | 1 => exact ⟨f, rfl, rfl, Or.inr ⟨_, exec_invoke_one ..⟩⟩
  | depth + 2 =>
    rw [exec_invoke]
    split
    · exact ⟨f, rfl, rfl, Or.inr ⟨_, rfl⟩⟩
    next m _ =>
    split
    · next locals _ =>
      -- the body runs under the new scope, and leaving it brings the old one back
      let k : Frame ω := { f with world := host.note (.invoking x m.name locals) f.world }
      have hk : Frame.Inner { k with locals := some locals } := ⟨locals, rfl⟩
      obtain ⟨g, hg, hx | ⟨h, hx⟩⟩ := exec_inner hd file rounds depth m.body hk
      · exact ⟨{ g with locals := f.locals }, hg, rfl, Or.inl (Run.inScope_ok hx)⟩
      · exact ⟨{ g with locals := f.locals }, hg, rfl, Or.inr ⟨h, Run.inScope_error hx⟩⟩
    · exact ⟨f, rfl, rfl, Or.inr ⟨_, rfl⟩⟩

/-- A frame inside a method whose variable `x` is also a global one. One method is defined: it says
its argument, overwrites it, defines another method and divides by zero. -/
def Frame.shadowing : Frame World where
  context :=
    { globals := ⟨[("x", .int 1)]⟩
      methods := ⟨[(⟨"Spoil", 1⟩, ⟨"Spoil", ["x"], .block [.command "say" [.var "x"] 2,
        .assign "x" (.int 5) 3, .define "Other" [] (.block []) 4,
        .assign "y" (.arith (.int 1) (.known .div) (.int 0)) 6], 1⟩)]⟩ }
  world := {}
  locals := some ⟨[("x", .int 2)]⟩

theorem invoke_isolated_shadowing :
    (Registry.host [{ name := "say" }]).Detached ∧
    ∃ g : Frame World, g.context.globals = ⟨[("x", .int 1)]⟩ ∧
      g.locals = some ⟨[("x", .int 2)]⟩ ∧
      g.context.methods.keys = [⟨"Spoil", 1⟩, ⟨"Other", 0⟩] ∧
      exec (Registry.host [{ name := "say" }]) none roundLimit 20
        (.invoke "Anything" [.int 3] 9) .shadowing =
          .error (Site.halt ⟨some 6, none⟩ .divisionByZero) g := by
  have he : Registry.Echoes [{ name := "say" }] := by simp [Registry.Echoes]
  have hd : (Registry.host [{ name := "say" }]).Detached := Registry.hostWithin_detached he _
  obtain ⟨g, hg, hl, hx⟩ := invoke_isolated hd none roundLimit 20 "Anything" [.int 3] 9 .shadowing
  have hr : (match exec (Registry.host [{ name := "say" }]) none roundLimit 20
        (.invoke "Anything" [.int 3] 9) .shadowing with
      | .error h k => some (h, k.context.methods.keys)
      | .ok _ _ => none) =
        some (Site.halt ⟨some 6, none⟩ .divisionByZero, [⟨"Spoil", 1⟩, ⟨"Other", 0⟩]) := by
    decide +kernel
  rcases hx with hx | ⟨h, hx⟩
  · rw [hx] at hr
    cases hr
  · rw [hx] at hr
    obtain ⟨rfl, hm⟩ := Prod.mk.inj (Option.some.inj hr)
    exact ⟨hd, g, hg, hl, hm, hx⟩

end CommandScript
