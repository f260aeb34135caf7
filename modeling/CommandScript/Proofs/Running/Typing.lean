import CommandScript.Proofs.Parsing.Recognition
import CommandScript.Proofs.Running.Evaluation
import CommandScript.Proofs.Running.Reach
import CommandScript.Proofs.Shape
import CommandScript.Proofs.Tables

/-! # Type soundness

Scripts compute with integers only: variables and arguments stay integers along every run. So the
one clash of types that a script can come to is a condition with `&&` or `||`, which would need
booleans, and the body under such a condition is never entered.
-/

namespace CommandScript

/-! ## Integer scopes -/

/-- Every variable of the scope is an integer. -/
def Scope.Integers (scope : Scope) : Prop := ∀ e ∈ scope.entries, ∃ n, e.2 = .int n

namespace Scope

variable {scope : Scope}

theorem integers_empty : Integers {} := by
  rintro _ ⟨⟩

theorem Integers.put (h : scope.Integers) (x : String) (n : Int) :
    Integers (Table.put scope x (.int n)) :=
  Table.forall_put (P := fun e : String × Value => ∃ n, e.2 = .int n) h ⟨n, rfl⟩

theorem Integers.get? (h : scope.Integers) {x : String} {v : Value}
    (hv : Table.get? scope x = some v) : ∃ n, v = .int n := by
  obtain ⟨before, after, he, -⟩ := List.lookup_eq_some_iff.mp hv
  exact h (x, v) (by simp [he])

end Scope

/-! ## Evaluation -/

/-- What may stop a script whatever its types. -/
inductive Halt.Plain : Halt → Prop where
  | overflow : Plain .overflow
  | endless : Plain .endless
  | undefinedVariable (site : Site) (x : String) : Plain (site.halt (.undefinedVariable x))
  | divisionByZero (site : Site) : Plain (site.halt .divisionByZero)
  | integerOverflow (site : Site) : Plain (site.halt .integerOverflow)
  | unresolvedMethod (site : Site) (x : String) (n : Int) :
      Plain (site.halt (.unresolvedMethod x n))

variable {site : Site} {scope locals : Scope} {e l r : Expr} {op : Op}

theorem arithmetic_plain (ho : op.isComparison = false) (m n : Int) :
    (∃ k, arithmetic site (.known op) m n = .ok (.int k)) ∨
      ∃ h, arithmetic site (.known op) m n = .error h ∧ h.Plain := by
  cases op with
  | add => exact Or.inl ⟨_, rfl⟩
  | sub => exact Or.inl ⟨_, rfl⟩
  | mul => exact Or.inl ⟨_, rfl⟩
  | div =>
    by_cases hn : n = 0
    · exact Or.inr ⟨_, if_pos hn, .divisionByZero site⟩
    · exact Or.inl ⟨_, if_neg hn⟩
  | _ => cases ho

theorem eval_arithmetic (hs : scope.Integers) (he : e.Arithmetic) (depth : Nat) :
    (∃ n, eval site scope depth e = .ok (.int n)) ∨
      ∃ h, eval site scope depth e = .error h ∧ h.Plain := by
  induction he generalizing depth with
  | int =>
    cases depth with
    | zero => exact Or.inr ⟨_, rfl, .overflow⟩
    | succ depth => exact Or.inl ⟨_, rfl⟩
  | var x =>
    cases depth with
    | zero => exact Or.inr ⟨_, rfl, .overflow⟩
    | succ depth =>
      cases hv : Table.get? scope x with
      | none => exact Or.inr ⟨_, by rw [eval, hv], .undefinedVariable site x⟩
      | some v =>
        obtain ⟨n, rfl⟩ := hs.get? hv
        exact Or.inl ⟨n, by rw [eval, hv]⟩
  | arith _ ho _ ihl ihr =>
    cases depth with
    | zero => exact Or.inr ⟨_, rfl, .overflow⟩
    | succ depth =>
      rw [eval]
      rcases ihl depth with ⟨m, hm⟩ | ⟨h, hh, hp⟩
      · rcases ihr depth with ⟨n, hn⟩ | ⟨h, hh, hp⟩
        · rw [hm, hn]
          exact arithmetic_plain ho m n
        · rw [hm, hh]
          exact Or.inr ⟨h, rfl, hp⟩
      · rw [hh]
        exact Or.inr ⟨h, rfl, hp⟩

theorem evalInt_plain (hs : scope.Integers) (he : e.Arithmetic) (depth : Nat) :
    Raises Halt.Plain (evalInt site scope depth e) := by
  unfold evalInt
  rcases eval_arithmetic hs he depth with ⟨n, hn⟩ | ⟨h, hh, hp⟩
  · rw [hn]
    exact raises_ok n
  · rw [hh]
    exact raises_error hp

theorem evalText_plain (hs : scope.Integers) (he : e.Arithmetic) (depth : Nat) :
    Raises Halt.Plain (evalText site scope depth e) := by
  apply (evalInt_plain hs he depth).bind
  intro n _
  split
  · exact raises_ok _
  · exact raises_error (.integerOverflow site)

theorem bindArguments_plain (hs : scope.Integers) {args : List (String × Expr)}
    (ha : ∀ arg ∈ args, arg.2.Arithmetic) (depth : Nat) :
    Raises Halt.Plain (bindArguments site scope depth args locals) := by
  induction args generalizing locals with
  | nil => exact raises_ok locals
  | cons arg args ih =>
    apply (evalInt_plain hs (ha arg (by simp)) depth).bind
    intro n _
    exact ih fun arg hm => ha arg (by simp [hm])

theorem bindArguments_integers {args : List (String × Expr)} {depth : Nat} {locals' : Scope}
    (hl : locals.Integers) (hb : bindArguments site scope depth args locals = .ok locals') :
    locals'.Integers := by
  induction args generalizing locals with
  | nil =>
    cases hb
    exact hl
  | cons arg args ih =>
    unfold bindArguments at hb
    cases hn : evalInt site scope depth arg.2 with
    | error h => rw [hn] at hb; cases hb
    | ok n =>
      rw [hn] at hb
      exact ih (hl.put arg.1 n) hb

/-- Both operands of a comparison have values. -/
def Evaluated (site : Site) (scope : Scope) (depth : Nat) (l r : Expr) : Prop :=
  ∃ k a b, depth = k + 1 ∧ eval site scope k l = .ok a ∧ eval site scope k r = .ok b

theorem eval_compare (hs : scope.Integers) (hl : l.Arithmetic) (hr : r.Arithmetic)
    (o : Operator) (depth : Nat) :
    (¬ Evaluated site scope depth l r ∧
      ∃ h, eval site scope depth (.compare l o r) = .error h ∧ h.Plain) ∨
    Evaluated site scope depth l r ∧ ∃ m n, eval site scope depth (.compare l o r) =
      compareValues site (.compare l o r) o (.int m) (.int n) := by
  cases depth with
  | zero =>
    refine Or.inl ⟨?_, _, rfl, .overflow⟩
    rintro ⟨k, a, b, hk, -⟩
    cases hk
  | succ depth =>
    rw [eval]
    rcases eval_arithmetic hs hl depth with ⟨m, hm⟩ | ⟨h, hh, hp⟩
    · rcases eval_arithmetic hs hr depth with ⟨n, hn⟩ | ⟨h, hh, hp⟩
      · refine Or.inr ⟨⟨depth, _, _, rfl, hm, hn⟩, m, n, ?_⟩
        rw [hm, hn]
        rfl
      · refine Or.inl ⟨?_, h, by rw [hm, hh]; rfl, hp⟩
        rintro ⟨k, a, b, hk, -, hb⟩
        cases hk
        cases hh.symm.trans hb
    · refine Or.inl ⟨?_, h, by rw [hh]; rfl, hp⟩
      rintro ⟨k, a, b, hk, ha, -⟩
      cases hk
      cases hh.symm.trans ha

theorem evalBool_of_eval_error {depth : Nat} {h : Halt}
    (he : eval site scope depth e = .error h) : evalBool site scope depth e = .error h := by
  rw [evalBool, he]
  rfl

theorem evalBool_relation (hs : scope.Integers) (hl : l.Arithmetic) (hr : r.Arithmetic)
    (ho : op.isComparison = true) (hn : op.isLogical = false) (depth : Nat) :
    Raises Halt.Plain (evalBool site scope depth (.compare l (.known op) r)) := by
  rcases eval_compare hs hl hr (.known op) depth with ⟨-, h, hh, hp⟩ | ⟨-, m, n, hv⟩
  · rw [evalBool_of_eval_error hh]
    exact raises_error hp
  · obtain ⟨b, hb⟩ : ∃ b, compareValues site (.compare l (.known op) r) (.known op) (.int m)
        (.int n) = .ok (.bool b) := by
      cases op with
      | add => cases ho
      | sub => cases ho
      | mul => cases ho
      | div => cases ho
      | and => cases hn
      | or => cases hn
      | _ => exact ⟨_, rfl⟩
    rw [evalBool, hv, hb]
    exact raises_ok b

theorem evalBool_logical (hs : scope.Integers) (hl : l.Arithmetic) (hr : r.Arithmetic)
    (ho : op.isLogical = true) (depth : Nat) :
    (¬ Evaluated site scope depth l r ∧
      ∃ h, evalBool site scope depth (.compare l (.known op) r) = .error h ∧ h.Plain) ∨
    Evaluated site scope depth l r ∧ ∃ text,
      evalBool site scope depth (.compare l (.known op) r) =
        .error (site.halt (.typeMismatch text)) := by
  rcases eval_compare hs hl hr (.known op) depth with ⟨hn, h, hh, hp⟩ | ⟨he, m, n, hv⟩
  · exact Or.inl ⟨hn, h, evalBool_of_eval_error hh, hp⟩
  · refine Or.inr ⟨he, ?_⟩
    have hw : (Expr.compare l (.known op) r).writable = true := by
      rw [Expr.writable, hl.writable, hr.writable]
      rfl
    have hm : compareValues site (.compare l (.known op) r) (.known op) (.int m) (.int n) =
        mismatch site (.known op) "boolean" (.compare l (.known op) r) := by
      cases op with
      | and => rfl
      | or => rfl
      | _ => cases ho
    rw [mismatch, Expr.describe, if_pos hw] at hm
    exact ⟨_, evalBool_of_eval_error (hv.trans hm)⟩

theorem evalBool_condition (hs : scope.Integers) (he : e.Condition) {depth : Nat} {h : Halt}
    (hx : evalBool site scope depth e = .error h) :
    h.Plain ∨ ∃ l op r, e = .compare l (.known op) r ∧ op.isLogical = true ∧
      Evaluated site scope depth l r ∧ ∃ text, h = site.halt (.typeMismatch text) := by
  obtain @⟨l, r, op, hl, ho, hr⟩ := he
  cases hn : op.isLogical with
  | false => exact Or.inl (evalBool_relation hs hl hr ho hn depth h hx)
  | true =>
    rcases evalBool_logical hs hl hr hn depth with ⟨-, h', hh, hp⟩ | ⟨he, text, hh⟩
    · cases hh.symm.trans hx
      exact Or.inl hp
    · cases hh.symm.trans hx
      exact Or.inr ⟨l, op, r, rfl, hn, he, text, rfl⟩

/-! ## Runs -/

variable {ω : Type} {host : Host ω} {file : Option String} {rounds depth : Nat} {s : Stmt}
  {f g : Frame ω} {h : Halt}

/-- The commands leave the context alone. -/
def Host.Detached (host : Host ω) : Prop :=
  ∀ calls name args (s s' : State ω), (host.dispatch calls name args s = .ok () s' ∨
    ∃ h, host.dispatch calls name args s = .error h s') → s'.context = s.context

/-- Variables are integers, and the bodies of methods derive from tokens. -/
structure Frame.Typed (f : Frame ω) : Prop where
  globals : f.context.globals.Integers
  locals : ∀ locals, f.locals = some locals → locals.Integers
  methods : ∀ e ∈ f.context.methods.entries, e.2.body.Derived

namespace Frame.Typed

theorem active (h : f.Typed) : f.active.Integers := by
  cases hl : f.locals with
  | none =>
    rw [Frame.active, hl]
    exact h.globals
  | some locals =>
    rw [Frame.active, hl]
    exact h.locals locals hl

theorem assign (h : f.Typed) (x : String) (n : Int) : (f.assign x (.int n)).Typed := by
  unfold Frame.assign
  split
  · next locals hl =>
    refine ⟨h.globals, ?_, h.methods⟩
    rintro _ ⟨⟩
    exact (h.locals locals hl).put x n
  · exact ⟨h.globals.put x n, h.locals, h.methods⟩

theorem define (h : f.Typed) {m : Method} (hm : m.body.Derived) :
    Frame.Typed { f with context := f.context.define m } :=
  ⟨h.globals, h.locals,
    Table.forall_put (P := fun e : Signature × Method => e.2.body.Derived) h.methods hm⟩

theorem enter (h : f.Typed) {locals : Scope} (hl : locals.Integers) :
    Frame.Typed { f with locals := some locals } := by
  refine ⟨h.globals, ?_, h.methods⟩
  rintro _ ⟨⟩
  exact hl

theorem resolve? (h : f.Typed) {arity : Nat} {m : Method}
    (hm : f.context.resolve? arity = some m) : m.body.Derived := by
  obtain ⟨key, -, he⟩ := Context.exists_of_resolve? hm
  exact h.methods (key, m) he

end Frame.Typed

/-- Runs of what derives from tokens keep variables integers. -/
theorem typed_contract (hd : host.Detached) :
    Contract host Stmt.Derived Frame.Typed fun _ _ => True where
  refl _ := trivial
  trans _ _ := trivial
  block := Stmt.Derived.mem
  conditional h := h.conditional.2
  loop h := h.loop.2
  method hf hm := hf.resolve? hm
  assign x n hf := ⟨hf.assign x n, trivial⟩
  define hs hf := ⟨hf.define hs.define, trivial⟩
  note _ hf := ⟨⟨hf.globals, hf.locals, hf.methods⟩, trivial⟩
  dispatch {f calls name args s _ _ _} hf _ hx := by
    have hc : s.context = f.context := hd calls name args f.toState s hx
    refine ⟨⟨?_, hf.locals, ?_⟩, trivial⟩
    · rw [hc]
      exact hf.globals
    · rw [hc]
      exact hf.methods
  enter hf hb := hf.enter (bindArguments_integers Scope.integers_empty hb)
  leave hf hg _ := ⟨⟨hg.globals, hf.locals, hg.methods⟩, trivial⟩

/-! ## Methods -/

/-- What each definition makes true of its entry, runs keep true of all entries of the table. -/
theorem entries_contract (hd : host.Detached) {S : Stmt → Prop} {P : Signature × Method → Prop}
    (block : ∀ {ss}, S (.block ss) → ∀ s ∈ ss, S s)
    (conditional : ∀ {e body line}, S (.conditional e body line) → S body)
    (loop : ∀ {e body line}, S (.loop e body line) → S body)
    (method : ∀ {key m}, P (key, m) → S m.body)
    (define : ∀ {x params body line}, S (.define x params body line) →
      P (⟨x, params.length⟩, ⟨x, params, body, line⟩)) :
    Contract host S (fun f => ∀ e ∈ f.context.methods.entries, P e) fun _ _ => True where
  refl _ := trivial
  trans _ _ := trivial
  block := block
  conditional := conditional
  loop := loop
  method hf hm := by
    obtain ⟨key, -, he⟩ := Context.exists_of_resolve? hm
    exact method (hf (key, _) he)
  assign x n hf := by
    refine ⟨?_, trivial⟩
    unfold Frame.assign
    split <;> exact hf
  define hs hf := ⟨Table.forall_put hf (define hs), trivial⟩
  note _ hf := ⟨hf, trivial⟩
  dispatch {f calls x args s _ _ _} hf _ hx := by
    refine ⟨?_, trivial⟩
    rw [hd calls x args f.toState s hx]
    exact hf
  enter hf _ := hf
  leave _ hg _ := ⟨hg, trivial⟩

/-- The methods were defined by statements of the program. -/
def Frame.DefinedIn (t : Stmt) (f : Frame ω) : Prop := ∀ e ∈ f.context.methods.entries,
  e.1 = e.2.signature ∧ (Stmt.define e.2.name e.2.params e.2.body e.2.line).Part t

/-- A program runs its own statements, and defines its own methods. -/
theorem defined_contract (hd : host.Detached) (t : Stmt) :
    Contract host (Stmt.Part · t) (Frame.DefinedIn t) fun _ _ => True := by
  apply entries_contract hd
  case block => exact fun h _ hs => (Stmt.Part.block hs .refl).trans h
  case conditional => exact fun h => (Stmt.Part.conditional _ _ .refl).trans h
  case loop => exact fun h => (Stmt.Part.loop _ _ .refl).trans h
  case method => exact fun ⟨_, hp⟩ => (Stmt.Part.define _ _ _ .refl).trans hp
  case define => exact fun h => ⟨rfl, h⟩

/-! ## Clashes -/

/-- The statement asks for a connective of two operands that have values. -/
inductive Clashes (file : Option String) : Nat → Stmt → Frame ω → Prop where
  | conditional {depth : Nat} {l r : Expr} {op : Op} {body : Stmt} {line : Int} {f : Frame ω} :
      op.isLogical = true → Evaluated ⟨some line, file⟩ f.active (depth - 1) l r →
      Clashes file (depth + 1) (.conditional (.compare l (.known op) r) body line) f
  | loop {depth : Nat} {l r : Expr} {op : Op} {body : Stmt} {line : Int} {f : Frame ω} :
      op.isLogical = true → Evaluated ⟨some line, file⟩ f.active (depth - 1) l r →
      Clashes file (depth + 1) (.loop (.compare l (.known op) r) body line) f

/-- The statement is a condition or a loop under `&&` or `||`. -/
inductive Stmt.Logical : Stmt → Prop where
  | conditional {l r : Expr} {op : Op} (body : Stmt) (line : Int) : op.isLogical = true →
      Logical (.conditional (.compare l (.known op) r) body line)
  | loop {l r : Expr} {op : Op} (body : Stmt) (line : Int) : op.isLogical = true →
      Logical (.loop (.compare l (.known op) r) body line)

theorem evalBool_ne_ok (hs : scope.Integers) (he : Expr.Condition (.compare l (.known op) r))
    (ho : op.isLogical = true) (depth : Nat) (b : Bool) :
    evalBool site scope depth (.compare l (.known op) r) ≠ .ok b := by
  intro hb
  obtain ⟨hl, -, hr⟩ := he
  rcases evalBool_logical hs hl hr ho depth with ⟨-, h, hh, -⟩ | ⟨-, text, hh⟩
  · cases hh.symm.trans hb
  · cases hh.symm.trans hb

theorem Iterates.eq_of_logical {body : Stmt} {line : Int} {n : Nat}
    (hi : Iterates host file rounds depth (.compare l (.known op) r) body line n f g)
    (hf : f.Typed) (he : Expr.Condition (.compare l (.known op) r)) (ho : op.isLogical = true) :
    g = f := by
  cases hi with
  | none => rfl
  | round ht => exact absurd ht (evalBool_ne_ok hf.active he ho _ true)

/-- What derives from tokens stops for a plain reason or at a clash. -/
theorem Stops.plain_or_clashes (hd : host.Detached) (hs : s.Derived) (hf : f.Typed)
    (hx : Stops host file rounds depth s f h) :
    h.Plain ∨ Clashes file depth s f ∧ ∃ site text, h = Site.halt site (.typeMismatch text) := by
  cases hx with
  | overflow => exact Or.inl .overflow
  | condition he =>
    rcases evalBool_condition hf.active hs.conditional.1 he with
      hp | ⟨l, op, r, rfl, ho, hv, t, rfl⟩
    · exact Or.inl hp
    · exact Or.inr ⟨.conditional ho hv, _, t, rfl⟩
  | test _ hi he =>
    have hg := hi.keeps (typed_contract hd) hs.loop.2 hf
    rcases evalBool_condition hg.active hs.loop.1 he with hp | ⟨l, op, r, rfl, ho, hv, t, rfl⟩
    · exact Or.inl hp
    · rw [hi.eq_of_logical hf hs.loop.1 ho] at hv
      exact Or.inr ⟨.loop ho hv, _, t, rfl⟩
  | endless => exact Or.inl .endless
  | value he => exact Or.inl (evalInt_plain hf.globals hs.assign _ h he)
  | invocation => exact Or.inl .overflow
  | unresolved => exact Or.inl (.unresolvedMethod _ _ _)
  | arguments _ he =>
    refine Or.inl (bindArguments_plain hf.active ?_ _ h he)
    intro arg ha
    exact hs.invoke _ (List.of_mem_zip ha).2
  | texts he =>
    refine Or.inl (raises_mapM ?_ h he)
    intro e hm
    exact evalText_plain hf.active (hs.command e hm) _
  | misplaced => exact absurd hs Stmt.Derived.not_misplaced

theorem Clashes.stops (hr : 0 < rounds) (hs : s.Derived) (hf : f.Typed)
    (hx : Clashes file depth s f) :
    ∃ site text, Stops host file rounds depth s f (Site.halt site (.typeMismatch text)) := by
  cases hx with
  | conditional ho hv =>
    obtain ⟨⟨hl, -, hr'⟩, -⟩ := hs.conditional
    rcases evalBool_logical hf.active hl hr' ho _ with ⟨hn, -⟩ | ⟨-, text, he⟩
    · exact absurd hv hn
    · exact ⟨_, text, .condition he⟩
  | loop ho hv =>
    obtain ⟨⟨hl, -, hr'⟩, -⟩ := hs.loop
    rcases evalBool_logical hf.active hl hr' ho _ with ⟨hn, -⟩ | ⟨-, text, he⟩
    · exact absurd hv hn
    · exact ⟨_, text, .test hr (.none f) he⟩

theorem Stmt.Logical.not_enters (hl : s.Logical) (hs : s.Derived) (hf : f.Typed) {d : Nat}
    {t : Stmt} : ¬ Enters host file rounds depth s f d t g := by
  intro hn
  cases hl with
  | conditional body line ho =>
    cases hn with
    | branch ht => exact evalBool_ne_ok hf.active hs.conditional.1 ho _ true ht
  | loop body line ho =>
    cases hn with
    | round _ hi ht =>
      rw [hi.eq_of_logical hf hs.loop.1 ho] at ht
      exact evalBool_ne_ok hf.active hs.loop.1 ho _ true ht

/-- A statement under a connective stops the run where it stands. -/
theorem Stmt.Logical.exec_eq (hl : s.Logical) (hs : s.Derived) (hf : f.Typed) :
    ∃ h, exec host file rounds depth s f = .error h f := by
  cases depth with
  | zero => exact ⟨.overflow, rfl⟩
  | succ depth =>
    cases hl with
    | @conditional l r op body line ho =>
      rw [exec_conditional]
      cases he : evalBool ⟨some line, file⟩ f.active (depth - 1) (.compare l (.known op) r) with
      | ok b => exact absurd he (evalBool_ne_ok hf.active hs.conditional.1 ho _ b)
      | error h => exact ⟨h, rfl⟩
    | @loop l r op body line ho =>
      rw [exec_loop]
      cases rounds with
      | zero => exact ⟨.endless, rfl⟩
      | succ rounds =>
        rw [repeatWhile_test]
        cases he : evalBool ⟨some line, file⟩ f.active (depth - 1) (.compare l (.known op) r) with
        | ok b => exact absurd he (evalBool_ne_ok hf.active hs.loop.1 ho _ b)
        | error h => exact ⟨h, rfl⟩

/-! ## Programs -/

/-- Variables are integers, and every method was defined by a script that parses. -/
structure Context.Sourced (c : Context) : Prop where
  globals : c.globals.Integers
  methods : ∀ e ∈ c.methods.entries, ∃ calls file script p,
    parseWithin calls file script = .ok p ∧
      Stmt.Part (.define e.2.name e.2.params e.2.body e.2.line) (.block p)

theorem derived_of_parseWithin {calls : Nat} {script : String} {p : Program}
    (hp : parseWithin calls file script = .ok p) : Stmt.Derived (.block p) :=
  .block (derives_of_parseWithin hp)

theorem Context.Sourced.typed {s : State ω} (hs : s.context.Sourced) :
    Frame.Typed { toState := s } := by
  refine ⟨hs.globals, by rintro _ ⟨⟩, ?_⟩
  intro e he
  obtain ⟨calls, file, script, p, hp, hm⟩ := hs.methods e he
  exact ((derived_of_parseWithin hp).part hm).define

/-- The program, run in this state, reaches the statement. -/
def ReachedBy (host : Host ω) (file : Option String) (depth : Nat) (p : Program) (s : State ω) :
    Nat → Stmt → Frame ω → Prop :=
  Reaches host file roundLimit depth (.block p) { toState := s }

theorem runStatement_eq_error {t : Stmt} {s : State ω} :
    (∃ s', runStatement host file rounds depth t s = .error h s') ↔
      ∃ g, exec host file rounds depth t { toState := s } = .error h g := by
  unfold runStatement
  cases exec host file rounds depth t { toState := s } <;> simp

/-- A program stops by itself for a plain reason, or with a clash of types when it reaches a
condition or loop under `&&` or `||` whose operands have values. Such a statement ends the run where
it stands, and its body is never entered. -/
theorem type_soundness (hd : host.Detached) {calls : Nat} {script : String} {p : Program}
    (hp : parseWithin calls file script = .ok p) {s : State ω} (hs : s.context.Sourced)
    (depth : Nat) :
    (∀ h, (∃ s', runStatement host file roundLimit depth (.block p) s = .error h s') ↔
      ∃ d t f, ReachedBy host file depth p s d t f ∧
        (Stops host file roundLimit d t f h ∨ CommandStops host file d t f h)) ∧
    (∀ d t f h, ReachedBy host file depth p s d t f → Stops host file roundLimit d t f h →
      (∀ site lexeme, h ≠ Site.halt site (.unknownOperator lexeme)) ∧
      (∀ shown, h ≠ .unreachable shown) ∧ h ≠ .integerText) ∧
    (∀ d t f, ReachedBy host file depth p s d t f →
      ((∃ site text, Stops host file roundLimit d t f (Site.halt site (.typeMismatch text))) ↔
        Clashes file d t f)) ∧
    ∀ d t f, ReachedBy host file depth p s d t f → t.Logical →
      (∃ h, exec host file roundLimit d t f = .error h f) ∧
      ∀ d' t' f', ¬ Enters host file roundLimit d t f d' t' f' := by
  have sound : ∀ {d t f}, ReachedBy host file depth p s d t f → t.Derived ∧ f.Typed := by
    intro d t f hr
    exact hr.keeps (typed_contract hd) (derived_of_parseWithin hp) hs.typed
  refine ⟨?_, ?_, ?_, ?_⟩
  · intro h
    rw [runStatement_eq_error, exec_eq_error_iff]
    rfl
  · intro d t f h hr hx
    obtain ⟨ht, hf⟩ := sound hr
    rcases hx.plain_or_clashes hd ht hf with hp | ⟨-, site, text, rfl⟩
    · cases hp <;> simp [Site.halt]
    · simp [Site.halt]
  · intro d t f hr
    obtain ⟨ht, hf⟩ := sound hr
    constructor
    · rintro ⟨site, text, hx⟩
      rcases hx.plain_or_clashes hd ht hf with hp | ⟨hc, -⟩
      · cases hp
      · exact hc
    · intro hc
      exact hc.stops (by decide) ht hf
  · intro d t f hr hl
    obtain ⟨ht, hf⟩ := sound hr
    exact ⟨hl.exec_eq ht hf, fun _ _ _ => hl.not_enters ht hf⟩

/-- The host whose commands do nothing. -/
def Host.silent : Host Unit := { dispatch := fun _ _ _ => pure (), note := fun _ w => w }

/-- A loop under `||` is reached after an assignment, and clashes. -/
theorem type_soundness_connective :
    Host.silent.Detached ∧ Context.Sourced {} ∧
    ∃ p, parseWithin 60 none "x = 4\nWhile x || 2\nx = x - 1\nEndloop" = .ok p ∧
      ∃ d t f, ReachedBy Host.silent none 60 p ⟨{}, ()⟩ d t f ∧ Clashes none d t f := by
  have hd : Host.silent.Detached := by
    rintro calls name args s s' (hx | ⟨h, hx⟩)
    · cases hx
      rfl
    · cases hx
  have hs : Context.Sourced {} := ⟨by rintro _ ⟨⟩, by rintro _ ⟨⟩⟩
  have hx : ((parseWithin 60 none "x = 4\nWhile x || 2\nx = x - 1\nEndloop").toOption.map fun p =>
      match runStatement Host.silent none roundLimit 60 (.block p) ⟨{}, ()⟩ with
      | .error h _ => some h
      | .ok _ _ => none) = some (some (Site.halt ⟨some 2, none⟩
        (.typeMismatch "Operator || requires boolean operands (x || 2)"))) := by
    decide +kernel
  obtain ⟨p, hp, hx⟩ := Option.map_eq_some_iff.mp hx
  have hp : parseWithin 60 none "x = 4\nWhile x || 2\nx = x - 1\nEndloop" = .ok p := by
    generalize parseWithin 60 none "x = 4\nWhile x || 2\nx = x - 1\nEndloop" = x at hp
    cases x with
    | ok q => cases hp; rfl
    | error h => cases hp
  obtain ⟨hr, -, hc, -⟩ := type_soundness hd hp (s := ⟨{}, ()⟩) hs 60
  cases hrun : runStatement Host.silent none roundLimit 60 (.block p) ⟨{}, ()⟩ with
  | ok _ s' => rw [hrun] at hx; cases hx
  | error h s' =>
    rw [hrun] at hx
    obtain ⟨d, t, f, ht, hstop | ⟨-, hc⟩⟩ := (hr h).mp ⟨s', hrun⟩
    · cases hx
      exact ⟨hd, hs, p, hp, d, t, f, ht, (hc d t f ht).mp ⟨_, _, hstop⟩⟩
    · cases hc

end CommandScript
