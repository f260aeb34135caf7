import CommandScript.Proofs.Running.Script
import CommandScript.Proofs.Running.Typing
import CommandScript.Proofs.Running.Unmentioned
import CommandScript.Session

/-! # Where faults come from

A fault of a run carries the line of a statement of the program that can raise it. An expression
accounts for what its evaluation raises, a statement for its own expressions, and a run reaches only
statements of its program, also those in methods. What a command raises is put down to the statement
that invoked it.
-/

namespace CommandScript

/-! ## Expressions -/

/-- Whether the expression divides. -/
def Expr.divides : Expr → Bool
  | .arith left operator right => operator == .known .div || left.divides || right.divides
  | .compare left _ right => left.divides || right.divides
  | _ => false

/-- The expression accounts for the halt: it mentions the variable, or it divides. -/
inductive Expr.AccountsFor (site : Site) (e : Expr) : Halt → Prop where
  | overflow : AccountsFor site e .overflow
  | undefinedVariable {x : String} : x ∈ e.toTree.names →
      AccountsFor site e (site.halt (.undefinedVariable x))
  | divisionByZero : e.divides = true → AccountsFor site e (site.halt .divisionByZero)

section Evaluation

variable {site : Site} {scope locals : Scope} {e e' l r : Expr}
  {o : Operator} {h : Halt}

theorem Expr.AccountsFor.mono (hn : e.toTree.names ⊆ e'.toTree.names)
    (hd : e.divides = true → e'.divides = true) (h' : e.AccountsFor site h) :
    e'.AccountsFor site h := by
  cases h' with
  | overflow => exact .overflow
  | undefinedVariable hx => exact .undefinedVariable (hn hx)
  | divisionByZero hx => exact .divisionByZero (hd hx)

theorem Expr.AccountsFor.operand (h' : l.AccountsFor site h ∨ r.AccountsFor site h) :
    (Expr.arith l o r).AccountsFor site h ∧ (Expr.compare l o r).AccountsFor site h := by
  rcases h' with h' | h'
  · exact ⟨h'.mono (List.subset_append_left _ _) fun hd => by simp [Expr.divides, hd],
      h'.mono (List.subset_append_left _ _) fun hd => by simp [Expr.divides, hd]⟩
  · exact ⟨h'.mono (List.subset_append_right _ _) fun hd => by simp [Expr.divides, hd],
      h'.mono (List.subset_append_right _ _) fun hd => by simp [Expr.divides, hd]⟩

theorem exists_int_of_eval {depth : Nat} {v : Value} (hs : scope.Integers) (he : e.Arithmetic)
    (hv : eval site scope depth e = .ok v) : ∃ n, v = .int n := by
  rcases eval_arithmetic hs he depth with ⟨n, hn⟩ | ⟨h, hh, -⟩
  · exact ⟨n, Except.ok.inj (hv.symm.trans hn)⟩
  · cases hv.symm.trans hh

/-- Where every variable is an integer, arithmetic raises only what it accounts for. -/
theorem eval_accounted (hs : scope.Integers) (he : e.Arithmetic) (depth : Nat) :
    Raises (e.AccountsFor site) (eval site scope depth e) := by
  induction he generalizing depth with
  | int =>
    cases depth with
    | zero => exact raises_error .overflow
    | succ depth => exact raises_ok _
  | var x =>
    cases depth with
    | zero => exact raises_error .overflow
    | succ depth =>
      rw [eval]
      split
      · exact raises_ok _
      · exact raises_error (.undefinedVariable (List.mem_singleton_self x))
  | @arith l r op hl ho hr ihl ihr =>
    cases depth with
    | zero => exact raises_error .overflow
    | succ depth =>
      rw [eval]
      apply ((ihl depth).weaken fun _ h' => (Expr.AccountsFor.operand (Or.inl h')).1).bind
      intro a ha
      apply ((ihr depth).weaken fun _ h' => (Expr.AccountsFor.operand (Or.inr h')).1).bind
      intro b hb
      obtain ⟨m, rfl⟩ := exists_int_of_eval hs hl ha
      obtain ⟨n, rfl⟩ := exists_int_of_eval hs hr hb
      change Raises _ (arithmetic site (.known op) m n)
      cases op with
      | div =>
        by_cases hn : n = 0
        · rw [show arithmetic site (.known .div) m n = _ from if_pos hn]
          exact raises_error (.divisionByZero rfl)
        · rw [show arithmetic site (.known .div) m n = _ from if_neg hn]
          exact raises_ok _
      | add => exact raises_ok _
      | sub => exact raises_ok _
      | mul => exact raises_ok _
      | _ => cases ho

theorem evalInt_accounted (hs : scope.Integers) (he : e.Arithmetic) (depth : Nat) :
    Raises (e.AccountsFor site) (evalInt site scope depth e) := by
  apply (eval_accounted hs he depth).bind
  intro v hv
  obtain ⟨n, rfl⟩ := exists_int_of_eval hs he hv
  exact raises_ok n

/-- The halt is the clash of a connective with integers. -/
inductive Expr.Clash (site : Site) : Expr → Halt → Prop where
  | mk {l r : Expr} {op : Op} (text : String) : op.isLogical = true →
      Clash site (.compare l (.known op) r) (site.halt (.typeMismatch text))

theorem mismatch_eq {needs : String} (hw : e.writable = true) : mismatch site o needs e =
    .error (site.halt (.typeMismatch
      ("Operator " ++ o.lexeme ++ " requires " ++ needs ++ " operands " ++ e.text))) := by
  rw [mismatch, Expr.describe, if_pos hw]
  rfl

theorem evalBool_accounted (hs : scope.Integers) (he : e.Condition) (depth : Nat) :
    Raises (fun h => e.AccountsFor site h ∨ e.Clash site h) (evalBool site scope depth e) := by
  obtain @⟨l, r, op, hl, ho, hr⟩ := he
  cases depth with
  | zero => exact raises_error (Or.inl .overflow)
  | succ depth =>
    rw [evalBool, eval, bind_assoc]
    apply ((eval_accounted hs hl depth).weaken
      fun _ h' => Or.inl (Expr.AccountsFor.operand (Or.inl h')).2).bind
    intro a ha
    rw [bind_assoc]
    apply ((eval_accounted hs hr depth).weaken
      fun _ h' => Or.inl (Expr.AccountsFor.operand (Or.inr h')).2).bind
    intro b hb
    obtain ⟨m, rfl⟩ := exists_int_of_eval hs hl ha
    obtain ⟨n, rfl⟩ := exists_int_of_eval hs hr hb
    have hw : (Expr.compare l (.known op) r).writable = true := by
      rw [Expr.writable, hl.writable, hr.writable]
      rfl
    cases op with
    | and =>
      change Raises _ (mismatch site _ "boolean" _ >>= _)
      rw [mismatch_eq hw]
      exact raises_error (Or.inr (.mk _ rfl))
    | or =>
      change Raises _ (mismatch site _ "boolean" _ >>= _)
      rw [mismatch_eq hw]
      exact raises_error (Or.inr (.mk _ rfl))
    | add => cases ho
    | sub => cases ho
    | mul => cases ho
    | div => cases ho
    | _ => exact raises_ok _

theorem evalText_accounted (hs : scope.Integers) (he : e.Arithmetic) (depth : Nat) :
    Raises (fun h => e.AccountsFor site h ∨ h = site.halt .integerOverflow)
      (evalText site scope depth e) := by
  apply ((evalInt_accounted hs he depth).weaken fun _ => Or.inl).bind
  intro n _
  split
  · exact raises_ok _
  · exact raises_error (Or.inr rfl)

theorem evalTexts_accounted (hs : scope.Integers) {es : List Expr} (he : ∀ e ∈ es, e.Arithmetic)
    (depth : Nat) :
    Raises (fun h => ∃ e ∈ es, e.AccountsFor site h ∨ h = site.halt .integerOverflow)
      (es.mapM (evalText site scope depth)) :=
  raises_mapM fun e hm => (evalText_accounted hs (he e hm) depth).weaken fun _ h' => ⟨e, hm, h'⟩

theorem bindArguments_accounted (hs : scope.Integers) {args : List (String × Expr)}
    (ha : ∀ arg ∈ args, arg.2.Arithmetic) (depth : Nat) :
    Raises (fun h => ∃ arg ∈ args, arg.2.AccountsFor site h)
      (bindArguments site scope depth args locals) := by
  induction args generalizing locals with
  | nil => exact raises_ok locals
  | cons arg args ih =>
    rw [List.forall_mem_cons] at ha
    refine Raises.bind ((evalInt_accounted hs ha.1 depth).weaken
      fun _ h' => ⟨arg, List.mem_cons_self, h'⟩) fun n _ => ?_
    exact (ih ha.2).weaken fun _ ⟨a, hm, h'⟩ => ⟨a, List.mem_cons_of_mem arg hm, h'⟩

end Evaluation

namespace Grammar

variable {ts : List Token} {e : Expr} {es : List Expr}

theorem Term.divides (h : Term ts e) : e.divides = false := by
  induction h with
  | number => rfl
  | name => rfl
  | group _ ih => exact ih

theorem Arguments.divides (h : Arguments ts es) : ∀ e ∈ es, e.divides = false := by
  induction h with
  | nil => simp
  | bare ht _ ih => simpa using ⟨ht.divides, ih⟩
  | comma ht _ ih => simpa using ⟨ht.divides, ih⟩

end Grammar

/-! ## Statements -/

namespace Stmt

/-- The line of a statement, if it is no block. -/
def line? : Stmt → Option Int
  | conditional _ _ line => some line
  | loop _ _ line => some line
  | assign _ _ line => some line
  | define _ _ _ line => some line
  | invoke _ _ line => some line
  | command _ _ line => some line
  | block _ => none
  | misplaced _ => none

/-- The expressions of the statement itself, without those of the statements in it. -/
def expressions : Stmt → List Expr
  | conditional e _ _ => [e]
  | loop e _ _ => [e]
  | assign _ e _ => [e]
  | invoke _ args _ => args
  | command _ args _ => args
  | define .. => []
  | block _ => []
  | misplaced _ => []

/-- The statement itself can stop a run for this cause. -/
inductive CanRaise : Stmt → Cause → Prop where
  | undefinedVariable {s : Stmt} {e : Expr} {x : String} : e ∈ s.expressions →
      x ∈ e.toTree.names → CanRaise s (.undefinedVariable x)
  | quotient {x : String} {e : Expr} {line : Int} : e.divides = true →
      CanRaise (assign x e line) .divisionByZero
  | condition {e : Expr} {body : Stmt} {line : Int} : e.divides = true →
      CanRaise (conditional e body line) .divisionByZero
  | test {e : Expr} {body : Stmt} {line : Int} : e.divides = true →
      CanRaise (loop e body line) .divisionByZero
  | unresolvedMethod {x : String} {args : List Expr} {line : Int} :
      CanRaise (invoke x args line) (.unresolvedMethod x args.length)
  | typeMismatch {s : Stmt} {text : String} : s.Logical → CanRaise s (.typeMismatch text)
  | integerOverflow {x : String} {args : List Expr} {line : Int} :
      CanRaise (command x args line) .integerOverflow

/-- The halt is located at the statement, which can raise it. Exhaustion is nobody's. -/
def AnswersFor (file : Option String) (s : Stmt) (h : Halt) : Prop :=
  h = .overflow ∨ h = .endless ∨ ∃ line cause, s.line? = some line ∧
    h = Site.halt ⟨some line, file⟩ cause ∧ s.CanRaise cause

variable {s : Stmt} {e : Expr} {line : Int} {file : Option String} {h : Halt}

theorem Part.eq_of_command {x : String} {args : List Expr}
    (hp : s.Part (command x args line)) : s = command x args line := by
  cases hp
  rfl

theorem AnswersFor.of_cause {cause : Cause} (hl : s.line? = some line) (hc : s.CanRaise cause) :
    s.AnswersFor file (Site.halt ⟨some line, file⟩ cause) :=
  Or.inr (Or.inr ⟨line, cause, hl, rfl, hc⟩)

theorem AnswersFor.of_accounted (hl : s.line? = some line) (he : e ∈ s.expressions)
    (hd : e.divides = true → s.CanRaise .divisionByZero)
    (ha : e.AccountsFor ⟨some line, file⟩ h) : s.AnswersFor file h := by
  cases ha with
  | overflow => exact Or.inl rfl
  | undefinedVariable hx => exact .of_cause hl (.undefinedVariable he hx)
  | divisionByZero hx => exact .of_cause hl (hd hx)

theorem Derived.invoke_divides {x : String} {es : List Expr}
    (h : Derived (.invoke x es line)) : ∀ e ∈ es, e.divides = false := by
  cases h with
  | statement h =>
    cases h with
    | invoke ha => exact ha.divides

theorem Derived.command_divides {x : String} {es : List Expr}
    (h : Derived (.command x es line)) : ∀ e ∈ es, e.divides = false := by
  cases h with
  | statement h =>
    cases h with
    | command ha _ => exact ha.divides

end Stmt

section Stops

variable {ω : Type} {host : Host ω} {file : Option String} {rounds depth : Nat} {s : Stmt}
  {f : Frame ω} {h : Halt}

/-- A statement that stops a run by itself answers for it. -/
theorem Stops.answered (hd : host.Detached) (hs : s.Derived) (hf : f.Typed)
    (hx : Stops host file rounds depth s f h) : s.AnswersFor file h := by
  cases hx with
  | overflow => exact Or.inl rfl
  | condition he =>
    rcases evalBool_accounted hf.active hs.conditional.1 _ _ he with ha | ⟨text, ho⟩
    · exact .of_accounted rfl (List.mem_singleton_self _) .condition ha
    · exact .of_cause rfl (.typeMismatch (.conditional _ _ ho))
  | test _ hi he =>
    have hg := hi.keeps (typed_contract hd) hs.loop.2 hf
    rcases evalBool_accounted hg.active hs.loop.1 _ _ he with ha | ⟨text, ho⟩
    · exact .of_accounted rfl (List.mem_singleton_self _) .test ha
    · exact .of_cause rfl (.typeMismatch (.loop _ _ ho))
  | endless => exact Or.inr (Or.inl rfl)
  | value he =>
    exact .of_accounted rfl (List.mem_singleton_self _) .quotient
      (evalInt_accounted hf.globals hs.assign _ _ he)
  | invocation => exact Or.inl rfl
  | unresolved => exact .of_cause rfl .unresolvedMethod
  | arguments _ he =>
    obtain ⟨arg, hm, ha⟩ := bindArguments_accounted hf.active
      (fun arg hm => hs.invoke _ (List.of_mem_zip hm).2) _ _ he
    have hm := (List.of_mem_zip hm).2
    exact .of_accounted rfl hm (fun hv => by simp [hs.invoke_divides _ hm] at hv) ha
  | texts he =>
    obtain ⟨e, hm, ha | rfl⟩ := evalTexts_accounted hf.active hs.command _ h he
    · exact .of_accounted rfl hm (fun hv => by simp [hs.command_divides e hm] at hv) ha
    · exact .of_cause rfl .integerOverflow
  | misplaced => exact absurd hs Stmt.Derived.not_misplaced

end Stops

/-! ## Commands -/

/-- How commands are carried out when they are called by a name, with so many calls at most. -/
abbrev Conduct := Nat → Command → String → List String → Job Unit

namespace Conduct

/-- The commands leave the context alone and raise faults without a location. -/
structure Modest (conduct : Conduct) : Prop where
  context : ∀ {calls c called args s s'}, (conduct calls c called args s = .ok () s' ∨
    ∃ h, conduct calls c called args s = .error h s') → s'.context = s.context
  location : ∀ {calls c called args f s s'}, conduct calls c called args s = .error (.fault f) s' →
    f.line = none ∧ f.file = none

end Conduct

namespace Registry

variable {registry : Registry} {conduct : Conduct} {calls : Nat} {x : String} {texts : List String}
  {s s' : State World} {h : Halt}

/-- The dispatcher, whatever its commands do. -/
def hostFor (registry : Registry) (conduct : Conduct) : Host World where
  dispatch calls name args := do
    modify fun s => { s with world := s.world.record name args }
    match registry.find? name with
    | none => throw (.fault { cause := .unknownCommand name })
    | some command =>
      modify fun s => { s with world := s.world.note (.dispatching command.name args) }
      Job.guarded name (conduct calls command name args)
  note := World.note

/-- The hosts of a registry are dispatchers over the actions of its commands. -/
theorem hostWithin_eq_hostFor (registry : Registry) (levels : Nat) :
    ∃ runScript : Nat → Option String → String → Job Unit, registry.hostWithin levels =
      registry.hostFor fun calls c called args =>
        c.action.perform (runScript calls) called c.name args := by
  cases levels with
  | zero => exact ⟨_, rfl⟩
  | succ levels => exact ⟨_, rfl⟩

/-- What dispatching a command can raise: no command answers to the name, or the one that answers
fails, or raises a fault, which is passed on. -/
inductive Raises (registry : Registry) (conduct : Conduct) (x : String) : Cause → Prop where
  | unknown : registry.find? x = none → Raises registry conduct x (.unknownCommand x)
  | failed {c : Command} {calls : Nat} {texts : List String} {h : Halt} {s s' : State World} :
      registry.find? x = some c → conduct calls c x texts s = .error h s' →
      (∀ f, h ≠ .fault f) → Raises registry conduct x (.commandFailed x h.text)
  | raised {c : Command} {calls : Nat} {texts : List String} {cause : Cause}
      {s s' : State World} : registry.find? x = some c →
      conduct calls c x texts s = .error (.fault { cause := cause }) s' →
      Raises registry conduct x cause

theorem guarded_eq_error {job : Job Unit} (hj : Job.guarded x job s = .error h s') :
    ∃ h', job s = .error h' s' ∧ (h = h' ∧ (h = .endless ∨ ∃ f, h = .fault f) ∨
      (∀ f, h' ≠ .fault f) ∧ h = .fault { cause := .commandFailed x h'.text }) := by
  unfold Job.guarded at hj
  cases he : job s with
  | ok _ after =>
    rw [he] at hj
    cases hj
  | error h' after =>
    rw [he] at hj
    cases h' with
    | fault f =>
      cases hj
      exact ⟨_, rfl, Or.inl ⟨rfl, Or.inr ⟨f, rfl⟩⟩⟩
    | endless =>
      cases hj
      exact ⟨_, rfl, Or.inl ⟨rfl, Or.inl rfl⟩⟩
    | _ =>
      cases hj
      exact ⟨_, rfl, Or.inr ⟨fun _ => Halt.noConfusion, rfl⟩⟩

theorem of_guarded_ok {job : Job Unit} (hj : Job.guarded x job s = .ok () s') :
    job s = .ok () s' := by
  unfold Job.guarded at hj
  split at hj
  · cases hj
  · cases hj
  · cases hj
  · exact hj

theorem hostFor_dispatch (registry : Registry) (conduct : Conduct) (calls : Nat) (x : String)
    (texts : List String) (s : State World) : ∃ w : World,
    (registry.hostFor conduct).dispatch calls x texts s =
      match registry.find? x with
      | none => .error (.fault { cause := .unknownCommand x }) { s with world := w }
      | some c => Job.guarded x (conduct calls c x texts) { s with world := w } := by
  cases hf : registry.find? x with
  | none =>
    refine ⟨s.world.record x texts, ?_⟩
    simp only [hostFor, bind_ok (modify_apply _ _), hf]
    rfl
  | some c =>
    refine ⟨(s.world.record x texts).note (.dispatching c.name texts), ?_⟩
    simp only [hostFor, bind_ok (modify_apply _ _), hf]

theorem hostFor_detached (hc : conduct.Modest) : (registry.hostFor conduct).Detached := by
  intro calls x texts s s' hx
  obtain ⟨w, hd⟩ := hostFor_dispatch registry conduct calls x texts s
  rw [hd] at hx
  cases hf : registry.find? x with
  | none =>
    rw [hf] at hx
    rcases hx with hx | ⟨h, hx⟩ <;> cases hx
    rfl
  | some c =>
    rw [hf] at hx
    apply hc.context (s := { s with world := w })
    rcases hx with hx | ⟨h, hx⟩
    · exact Or.inl (of_guarded_ok hx)
    · obtain ⟨h', hj, -⟩ := guarded_eq_error hx
      exact Or.inr ⟨h', hj⟩

theorem hostFor_dispatch_eq_error (hc : conduct.Modest)
    (hx : (registry.hostFor conduct).dispatch calls x texts s = .error h s') :
    h = .endless ∨ ∃ cause, h = .fault { cause := cause } ∧ registry.Raises conduct x cause := by
  obtain ⟨w, hd⟩ := hostFor_dispatch registry conduct calls x texts s
  rw [hd] at hx
  cases hf : registry.find? x with
  | none =>
    rw [hf] at hx
    cases hx
    exact Or.inr ⟨_, rfl, .unknown hf⟩
  | some c =>
    rw [hf] at hx
    obtain ⟨h', hj, ⟨rfl, rfl | ⟨⟨cause, line, file⟩, rfl⟩⟩ | ⟨hn, rfl⟩⟩ := guarded_eq_error hx
    · exact Or.inl rfl
    · obtain ⟨rfl, rfl⟩ := hc.location hj
      exact Or.inr ⟨cause, rfl, .raised hf hj⟩
    · exact Or.inr ⟨_, rfl, .failed hf hj hn⟩

end Registry

/-! ## Programs -/

section

variable {ω : Type} {host : Host ω} {file : Option String} {rounds depth calls : Nat}
  {s s' : State ω} {script : String} {p : Program} {h h' : Halt}

theorem settle_eq_error (hx : settle host file (.error h s) = .error h' s') :
    h' = h ∨ h = .overflow ∧ h' = .fault ⟨.recursionLimit, none, file⟩ := by
  cases h with
  | overflow =>
    cases hx
    exact Or.inr ⟨rfl, rfl⟩
  | _ =>
    cases hx
    exact Or.inl rfl

/-- In a fresh context a program reaches its own statements only, and what stops it stops there. -/
theorem exists_stop_in_program (hd : host.Detached) (hp : parseWithin calls file script = .ok p)
    (hs : s.context = {}) {g : Frame ω}
    (hx : exec host file rounds depth (.block p) { toState := s } = .error h g) :
    ∃ d t f, t.Part (.block p) ∧ t.Derived ∧ f.Typed ∧
      (Stops host file rounds d t f h ∨ CommandStops host file d t f h) := by
  have ht : Frame.Typed { toState := s } := by
    refine Context.Sourced.typed ⟨?_, ?_⟩ <;> rw [hs] <;> rintro _ ⟨⟩
  have hm : Frame.DefinedIn (.block p) { toState := s } := by
    rw [Frame.DefinedIn, hs]
    rintro _ ⟨⟩
  obtain ⟨d, t, f, hr, hstop⟩ := exists_stop hx
  have hk := hr.keeps (typed_contract hd) (derived_of_parseWithin hp) ht
  have hi := hr.keeps (defined_contract hd (.block p)) .refl hm
  exact ⟨d, t, f, hi.1, hk.1, hk.2, hstop⟩

end

/-- Every fault of a script that runs in a fresh context points at a statement that can raise it.
Unless the script is refused or exhausts its calls, the fault carries the file and the line of a
statement of the program which raises the cause by itself, or which invokes a command whose dispatch
raises it. -/
theorem fault_points_at_origin {registry : Registry} {conduct : Conduct} (hc : conduct.Modest)
    {calls : Nat} {file : Option String} {script : String} {w : World} {h : Halt}
    {s : State World}
    (hx : executeWithin (registry.hostFor conduct) calls file script ⟨{}, w⟩ = .error h s) :
    parseWithin calls file script = .error h ∨ h = .fault ⟨.recursionLimit, none, file⟩ ∨
    h = .endless ∨
    ∃ (p : Program) (t : Stmt) (line : Int) (cause : Cause),
      parseWithin calls file script = .ok p ∧ t.Part (.block p) ∧ t.line? = some line ∧
      h = .fault ⟨cause, some line, file⟩ ∧
      (t.CanRaise cause ∨
        ∃ x args, t = .command x args line ∧ registry.Raises conduct x cause) := by
  have hd : (registry.hostFor conduct).Detached := Registry.hostFor_detached hc
  cases hp : parseWithin calls file script with
  | error e =>
    rw [executeWithin_unparsed hp] at hx
    rcases settle_eq_error hx with rfl | ⟨-, rfl⟩
    · exact Or.inl rfl
    · exact Or.inr (Or.inl rfl)
  | ok p =>
    rw [executeWithin_parsed hp] at hx
    cases hr : runStatement (registry.hostFor conduct) file roundLimit calls (.block p)
        ⟨{}, (registry.hostFor conduct).note (.parsed p) w⟩ with
    | ok _ s' =>
      rw [hr] at hx
      cases hx
    | error e s' =>
      rw [hr] at hx
      rcases settle_eq_error hx with rfl | ⟨-, rfl⟩
      swap
      · exact Or.inr (Or.inl rfl)
      obtain ⟨g, hg⟩ := runStatement_eq_error.mp ⟨s', hr⟩
      obtain ⟨d, t, f, hpart, ht, hf, hstop | hstop⟩ := exists_stop_in_program hd hp rfl hg
      · rcases hstop.answered hd ht hf with rfl | rfl | ⟨line, cause, hl, rfl, ho⟩
        · cases hx
        · exact Or.inr (Or.inr (Or.inl rfl))
        · exact Or.inr (Or.inr (Or.inr ⟨p, t, line, cause, rfl, hpart, hl, rfl, Or.inl ho⟩))
      · obtain @⟨_, x, args, line, _, _, h, _, _, hdisp⟩ := hstop
        rcases Registry.hostFor_dispatch_eq_error hc hdisp with rfl | ⟨cause, rfl, ho⟩
        · exact Or.inr (Or.inr (Or.inl rfl))
        · exact Or.inr (Or.inr (Or.inr ⟨p, _, line, cause, rfl, hpart, rfl,
            by simp [Halt.locate, Fault.locate], Or.inr ⟨x, args, rfl, ho⟩⟩))

/-- Commands that write their name and arguments. -/
def Conduct.echoing : Conduct := fun _ c _ args => Job.write (Command.echoLine c.name args)

theorem Conduct.echoing_modest : echoing.Modest where
  context hx := by
    rcases hx with hx | ⟨h, hx⟩ <;> cases hx
    rfl
  location hx := by cases hx

def dividingScript : String := "Method M(n)\nx = 1 / 0\nEndmethod\nM(1)"

/-- The fault of a method points into its body and not at the invocation. -/
theorem fault_points_at_origin_dividing :
    Conduct.echoing.Modest ∧ ∃ (s : State World) (p : Program) (t : Stmt),
      executeWithin (Registry.hostFor [] .echoing) 60 (some "a.ase") dividingScript ⟨{}, {}⟩ =
        .error (.fault ⟨.divisionByZero, some 2, some "a.ase"⟩) s ∧
      parseWithin 60 (some "a.ase") dividingScript = .ok p ∧ t.Part (.block p) ∧
      t.line? = some 2 ∧ t.CanRaise .divisionByZero := by
  have hr : (Session.ofResult (executeWithin (Registry.hostFor [] .echoing) 60 (some "a.ase")
      dividingScript ⟨{}, {}⟩)).1.halt = some (.fault ⟨.divisionByZero, some 2, some "a.ase"⟩) := by
    decide +kernel
  have hp : (parseWithin 60 (some "a.ase") dividingScript).toOption.isSome = true := by
    decide +kernel
  refine ⟨Conduct.echoing_modest, ?_⟩
  cases hx : executeWithin (Registry.hostFor [] .echoing) 60 (some "a.ase") dividingScript
      ⟨{}, {}⟩ with
  | ok _ s => rw [hx] at hr; cases hr
  | error h s =>
    rw [hx] at hr
    cases hr
    rcases fault_points_at_origin Conduct.echoing_modest hx with he | he | he |
      ⟨p, t, line, cause, hp', ht, hl, hc, ho⟩
    · rw [he] at hp
      cases hp
    · cases he
    · cases he
    · cases hc
      refine ⟨s, p, t, rfl, hp', ht, hl, ?_⟩
      rcases ho with ho | ⟨x, args, rfl, ho⟩
      · exact ho
      · cases ho with
        | raised hf => cases hf

/-- Commands that raise the fault of an unknown command of another name. -/
def Conduct.misnaming : Conduct := fun _ _ _ _ => throw (.fault { cause := .unknownCommand "b" })

/-- A fault that names a command may come from another one, which raised it itself. -/
theorem misnamed_fault :
    Conduct.misnaming.Modest ∧ ∃ p s,
      parseWithin 60 (some "<script>") "a" = .ok p ∧
      executeWithin (Registry.hostFor [{ name := "a" }] .misnaming) 60 (some "<script>") "a"
        ⟨{}, {}⟩ = .error (.fault ⟨.unknownCommand "b", some 1, some "<script>"⟩) s ∧
      ∀ args line, ¬ (Stmt.command "b" args line).Part (.block p) := by
  have hm : Conduct.misnaming.Modest :=
    { context := by
        rintro _ _ _ _ _ _ (hx | ⟨h, hx⟩) <;> cases hx
        rfl
      location := by
        rintro _ _ _ _ _ _ _ hx
        cases hx
        exact ⟨rfl, rfl⟩ }
  refine ⟨hm, [.command "a" [] 1], _, rfl, rfl, ?_⟩
  rintro args line (_ | ⟨hs, hp⟩)
  obtain rfl := List.mem_singleton.mp hs
  have hb := (Stmt.command.inj hp.eq_of_command).1
  exact absurd hb (by decide)

end CommandScript
