import Mathlib.Algebra.Order.BigOperators.Group.List
import Mathlib.Algebra.Order.Group.Nat
import CommandScript.Proofs.Running.Resolution

/-! # Programs that terminate

On an unbounded stack a program without loops can only run forever by invocations that follow one
another without end. They cannot if every method invokes methods of a lower rank only. What has a
rank is a number of arguments, which for a method is that of its parameters. The methods that are
defined on the way all stand in the program, and they are ranked with it. An invocation looks at the
keys of the table only, so the table must file its methods under as many arguments as they have
parameters; runs see to that.
-/

namespace CommandScript

variable {α β ω : Type}

/-- With calls enough the result is a good one and no longer depends on their number. -/
def Settles (good : α → Prop) (p : Nat → α) : Prop := ∃ n r, good r ∧ ∀ d, n ≤ d → p d = r

namespace Settles

variable {good : α → Prop} {good' : β → Prop} {p : Nat → α}

theorem const {a : α} (h : good a) : Settles good fun _ => a := ⟨0, a, h, fun _ _ => rfl⟩

theorem comp {k : Nat → α → β} (hp : Settles good p)
    (hk : ∀ n, good (p n) → Settles good' fun d => k d (p n)) :
    Settles good' fun d => k d (p d) := by
  obtain ⟨n, r, hr, hn⟩ := hp
  obtain ⟨m, r', hr', hm⟩ := hk n (hn n (Nat.le_refl n) ▸ hr)
  refine ⟨max n m, r', hr', ?_⟩
  intro d hd
  have he : p d = p n := (hn d (by omega)).trans (hn n (Nat.le_refl n)).symm
  exact (congrArg (k d) he).trans (hm d (by omega))

theorem of_add (k : Nat) (h : Settles good fun d => p (d + k)) : Settles good p := by
  obtain ⟨n, r, hr, hn⟩ := h
  refine ⟨n + k, r, hr, ?_⟩
  intro d hd
  have he : p (d - k + k) = r := hn (d - k) (by omega)
  rwa [Nat.sub_add_cancel (by omega)] at he

theorem sub (k : Nat) (h : Settles good p) : Settles good fun d => p (d - k) := by
  obtain ⟨n, r, hr, hn⟩ := h
  exact ⟨n + k, r, hr, fun d hd => hn (d - k) (by omega)⟩

end Settles

/-! ## Evaluations -/

section

variable {P : Halt → Prop}

theorem settles_bind {p : Nat → Except Halt α} {k : Nat → α → Except Halt β}
    (hp : Settles (Raises P) p) (hk : ∀ a, Settles (Raises P) fun d => k d a) :
    Settles (Raises P) fun d => p d >>= k d := by
  apply hp.comp (k := fun d r => r >>= k d)
  intro n hr
  cases hx : p n with
  | ok a => exact hk a
  | error h => exact .const (raises_error (hr h hx))

theorem settles_mapM {f : Nat → α → Except Halt β} {as : List α}
    (h : ∀ a ∈ as, Settles (Raises P) fun d => f d a) :
    Settles (Raises P) fun d => as.mapM (f d) := by
  induction as with
  | nil => exact .const (raises_ok _)
  | cons a as ih =>
    simp only [List.mapM_cons]
    apply settles_bind (h a (by simp))
    intro b
    apply settles_bind (ih fun a ha => h a (by simp [ha]))
    intro bs
    exact .const (raises_ok _)

end

mutual

theorem Tree.listing_settles : ∀ tree : Tree,
    Settles (Raises (· = .integerText)) fun d => Tree.listing d tree
  | .integer n => by
    apply Settles.of_add 3
    refine ⟨0, Tree.listing 3 (.integer n), ?_, fun _ _ => rfl⟩
    unfold Tree.listing
    split
    · exact raises_ok _
    · exact raises_error rfl
  | .identifier x => .of_add 3 (.const (raises_ok _))
  | .arith l o r => by
    apply Settles.of_add 3
    exact settles_bind (Tree.listing_settles l) fun _ =>
      settles_bind (Tree.listing_settles r) fun _ => .const (raises_ok _)
  | .compare l o r => by
    apply Settles.of_add 3
    exact settles_bind (Tree.listing_settles l) fun _ =>
      settles_bind (Tree.listing_settles r) fun _ => .const (raises_ok _)
  | .block ts => by
    apply Settles.of_add 4
    exact settles_bind (Tree.listings_settle ts) fun _ => .const (raises_ok _)
  | .conditional c body line => by
    apply Settles.of_add 3
    exact settles_bind (Tree.listing_settles c) fun _ =>
      settles_bind (Tree.listing_settles body) fun _ => .const (raises_ok _)
  | .loop c body line => by
    apply Settles.of_add 3
    exact settles_bind (Tree.listing_settles c) fun _ =>
      settles_bind (Tree.listing_settles body) fun _ => .const (raises_ok _)
  | .assign x e line => by
    apply Settles.of_add 3
    exact settles_bind (Tree.listing_settles e) fun _ => .const (raises_ok _)
  | .define x params body line => by
    apply Settles.of_add 3
    exact settles_bind (Tree.listing_settles body) fun _ => .const (raises_ok _)
  | .invoke x args line => by
    apply Settles.of_add 4
    exact settles_bind (Tree.listings_settle args) fun _ => .const (raises_ok _)
  | .command x args line => by
    apply Settles.of_add 4
    exact settles_bind (Tree.listings_settle args) fun _ => .const (raises_ok _)

theorem Tree.listings_settle : ∀ trees : List Tree,
    Settles (Raises (· = .integerText)) fun d => trees.mapM (Tree.listing d)
  | [] => .const (raises_ok _)
  | tree :: trees => by
    simp only [List.mapM_cons]
    exact settles_bind (Tree.listing_settles tree) fun _ =>
      settles_bind (Tree.listings_settle trees) fun _ => .const (raises_ok _)

end

variable (site : Site) (scope : Scope)

theorem Tree.outOfPlace_settles (tree : Tree) :
    Settles (EvalStop site) fun d => tree.outOfPlace d := by
  obtain ⟨n, r, hr, hn⟩ := tree.listing_settles
  cases r with
  | ok text =>
    refine ⟨n, .unreachable (shown text), ⟨.unreachable _, nofun⟩, fun d hd => ?_⟩
    simp only [outOfPlace, hn d hd]
  | error h =>
    obtain rfl := hr h rfl
    refine ⟨n, .integerText, ⟨.integerText, nofun⟩, fun d hd => ?_⟩
    simp only [outOfPlace, hn d hd]

theorem eval_settles (e : Expr) :
    Settles (Raises (EvalStop site)) fun d => eval site scope d e := by
  induction e with
  | int n => exact .of_add 1 (.const (raises_ok _))
  | var x =>
    apply Settles.of_add 1
    cases hx : scope.get? x with
    | some v => simpa only [eval, hx] using .const (raises_ok v)
    | none =>
      have hu : EvalStop site _ := ⟨.undefinedVariable x, site.halt_ne_overflow _⟩
      simpa only [eval, hx] using .const (raises_error hu)
  | arith l o r ihl ihr =>
    apply Settles.of_add 1
    exact settles_bind ihl fun a => settles_bind ihr fun b => .const (operands_raises l r o a b)
  | compare l o r ihl ihr =>
    apply Settles.of_add 1
    exact settles_bind ihl fun a => settles_bind ihr fun b => .const (compareValues_raises _ o a b)
  | misplaced tree =>
    apply Settles.of_add 1
    obtain ⟨n, h, hh, hn⟩ := tree.outOfPlace_settles site
    exact ⟨n, .error h, raises_error hh, fun d hd => congrArg Except.error (hn d hd)⟩

theorem evalInt_settles (e : Expr) :
    Settles (Raises (EvalStop site)) fun d => evalInt site scope d e :=
  settles_bind (eval_settles site scope e) fun v => .const (requireInt_raises e v)

theorem evalBool_settles (e : Expr) :
    Settles (Raises (EvalStop site)) fun d => evalBool site scope d e := by
  apply settles_bind (eval_settles site scope e)
  intro v
  cases v with
  | bool b => exact .const (raises_ok _)
  | int n =>
    exact .const (e.describe_raises.bind fun _ _ =>
      raises_error ⟨.typeMismatch _, site.halt_ne_overflow _⟩)

theorem evalText_settles (e : Expr) :
    Settles (Raises (EvalStop site)) fun d => evalText site scope d e := by
  apply settles_bind (evalInt_settles site scope e)
  intro n
  split
  · exact .const (raises_ok _)
  · exact .const (raises_error ⟨.integerOverflow, site.halt_ne_overflow _⟩)

theorem evalTexts_settles (args : List Expr) :
    Settles (Raises (EvalStop site)) fun d => args.mapM (evalText site scope d) :=
  settles_mapM fun e _ => evalText_settles site scope e

theorem bindArguments_settles (args : List (String × Expr)) (locals : Scope) :
    Settles (Raises (EvalStop site)) fun d => bindArguments site scope d args locals := by
  induction args generalizing locals with
  | nil => exact .const (raises_ok _)
  | cons arg args ih => exact settles_bind (evalInt_settles site scope arg.2) fun _ => ih _

/-! ## Ranked programs -/

mutual

/-- The numbers of arguments in the invocations of a statement, those in methods that it defines
aside. -/
def Stmt.calls : Stmt → List Nat
  | .block ss => Stmt.allCalls ss
  | .conditional _ body _ => body.calls
  | .loop _ body _ => body.calls
  | .invoke _ args _ => [args.length]
  | _ => []

def Stmt.allCalls : List Stmt → List Nat
  | [] => []
  | s :: ss => s.calls ++ Stmt.allCalls ss

end

/-- There is no loop in the statement, and every method that it defines, however deep, invokes
methods of a lower rank. -/
structure Stmt.Ranked (rank : Nat → Nat) (t : Stmt) : Prop where
  loopFree : ∀ {e body line}, ¬ (Stmt.loop e body line).Part t
  lower : ∀ {x params body line}, (Stmt.define x params body line).Part t →
    ∀ j ∈ body.calls, rank j < rank params.length

/-- The methods in the table invoke methods of a lower rank. -/
def Context.Ranked (rank : Nat → Nat) (c : Context) : Prop := ∀ e ∈ c.methods.entries,
  e.2.body.Ranked rank ∧ ∀ j ∈ e.2.body.calls, rank j < rank e.2.params.length

/-- The keys of the table and the methods agree on the number of arguments. -/
def Context.Keyed (c : Context) : Prop :=
  ∀ e ∈ c.methods.entries, e.1.arity = e.2.params.length

variable {rank : Nat → Nat}

theorem Stmt.Ranked.part {s t : Stmt} (h : t.Ranked rank) (hp : s.Part t) : s.Ranked rank where
  loopFree hl := h.loopFree (hl.trans hp)
  lower hd := h.lower (hd.trans hp)

namespace Stmt.Ranked

theorem block {ss : List Stmt} (h : ∀ s ∈ ss, s.Ranked rank) : (Stmt.block ss).Ranked rank where
  loopFree hl := by
    rcases hl with _ | ⟨hm, hp⟩
    exact (h _ hm).loopFree hp
  lower hd := by
    rcases hd with _ | ⟨hm, hp⟩
    exact (h _ hm).lower hp

theorem conditional {body : Stmt} (h : body.Ranked rank) (e : Expr) (line : Int) :
    (Stmt.conditional e body line).Ranked rank where
  loopFree hl := by
    cases hl with
    | conditional _ _ hp => exact h.loopFree hp
  lower hd := by
    cases hd with
    | conditional _ _ hp => exact h.lower hp

theorem define {body : Stmt} {params : List String} (h : body.Ranked rank)
    (hc : ∀ j ∈ body.calls, rank j < rank params.length) (x : String) (line : Int) :
    (Stmt.define x params body line).Ranked rank where
  loopFree hl := by
    cases hl with
    | define _ _ _ hp => exact h.loopFree hp
  lower hd := by
    cases hd with
    | refl => exact hc
    | define _ _ _ hp => exact h.lower hp

theorem assign (x : String) (e : Expr) (line : Int) : (Stmt.assign x e line).Ranked rank :=
  ⟨nofun, nofun⟩

theorem invoke (x : String) (args : List Expr) (line : Int) :
    (Stmt.invoke x args line).Ranked rank :=
  ⟨nofun, nofun⟩

theorem command (x : String) (args : List Expr) (line : Int) :
    (Stmt.command x args line).Ranked rank :=
  ⟨nofun, nofun⟩

end Stmt.Ranked

namespace Context

theorem Ranked.resolve? {c : Context} (h : c.Ranked rank) {arity : Nat} {m : Method}
    (hm : c.resolve? arity = some m) :
    m.body.Ranked rank ∧ ∀ j ∈ m.body.calls, rank j < rank m.params.length := by
  obtain ⟨key, -, he⟩ := exists_of_resolve? hm
  exact h (key, m) he

theorem Keyed.resolve? {c : Context} (h : c.Keyed) {arity : Nat} {m : Method}
    (hm : c.resolve? arity = some m) : m.params.length = arity := by
  obtain ⟨key, rfl, he⟩ := exists_of_resolve? hm
  exact (h (key, m) he).symm

end Context

/-- A definition files its method under the number of its parameters. -/
theorem keyed_contract {host : Host ω} (hd : host.Detached) :
    Contract host (fun _ => True) (fun f => f.context.Keyed) fun _ _ => True := by
  apply entries_contract hd
  case block => exact fun _ _ _ => trivial
  case conditional => exact fun _ => trivial
  case loop => exact fun _ => trivial
  case method => exact fun _ => trivial
  case define => exact fun _ => rfl

/-- The keys agree with the methods all along a session that begins without methods. -/
theorem keyed_of_moment {turns : List (Turn ω)} {s : State ω} {vs : List (Visit ω)} {f : Frame ω}
    (hs : s.context.methods = {}) (hd : ∀ t ∈ turns, t.host.Detached) (hm : Moment turns s vs f) :
    f.context.Keyed := by
  have hf : f.context.methods = filed (definitions vs) := methods_chronicle.moment hd hs hm
  intro e he
  rw [hf] at he
  exact congrArg Signature.arity (signature_of_filed e he)

/-- Ranked statements define ranked methods only. -/
theorem ranked_contract {host : Host ω} (hd : host.Detached) :
    Contract host (Stmt.Ranked rank) (fun f => f.context.Ranked rank) fun _ _ => True := by
  apply entries_contract hd
  case block => exact fun h _ hm => h.part (.block hm .refl)
  case conditional => exact fun h => h.part (.conditional _ _ .refl)
  case loop => exact fun h => h.part (.loop _ _ .refl)
  case method => exact fun h => h.1
  case define => exact fun h => ⟨h.part (.define _ _ _ .refl), h.lower .refl⟩

/-! ## Runs -/

/-- The computation came to an end, and not for want of calls or rounds. -/
def Concluded {σ : Type} (r : EStateM.Result Halt σ α) : Prop :=
  failure? r ≠ some .overflow ∧ failure? r ≠ some .endless

theorem EvalStop.concluded {σ : Type} {site : Site} {h : Halt} (hh : EvalStop site h) (s : σ) :
    Concluded (.error h s : EStateM.Result Halt σ α) := by
  refine ⟨fun he => hh.2 (Option.some.inj he), fun he => ?_⟩
  obtain rfl : h = .endless := Option.some.inj he
  exact nomatch hh.1

theorem concluded_ok {σ : Type} (a : α) (s : σ) :
    Concluded (.ok a s : EStateM.Result Halt σ α) := ⟨nofun, nofun⟩

section

variable {host : Host ω} {file : Option String} {rounds : Nat} {site : Site} {f : Frame ω}

theorem inScope_settles {p : Nat → Run ω Unit} {locals : Scope}
    (h : Settles Concluded fun d => p d { f with locals := some locals }) :
    Settles Concluded fun d => Run.inScope locals (p d) f := by
  obtain ⟨n, r, hr, hn⟩ := h
  cases r with
  | ok _ g => exact ⟨n, _, concluded_ok () _, fun d hd => Run.inScope_ok (hn d hd)⟩
  | error h g =>
    exact ⟨n, .error h { g with locals := f.locals }, hr, fun d hd => Run.inScope_error (hn d hd)⟩

theorem dispatch_settles {x : String} {texts : List String}
    (h : Settles Concluded fun calls => host.dispatch calls x texts f.toState) (site : Site) :
    Settles Concluded fun d => Run.dispatch host site d x texts f := by
  obtain ⟨n, r, hr, hn⟩ := h
  cases r with
  | ok _ s => exact ⟨n, _, concluded_ok () _, fun d hd => Run.dispatch_ok (hn d hd)⟩
  | error h s =>
    refine ⟨n, .error (h.locate site) _, ?_, fun d hd => Run.dispatch_error (hn d hd)⟩
    cases h with
    | fault f => exact ⟨nofun, nofun⟩
    | _ => exact hr

theorem settles_after (f : Frame ω) {x : Nat → Except Halt α}
    {p : Nat → EStateM.Result Halt (Frame ω) Unit}
    (hx : Settles (Raises (EvalStop site)) x)
    (hp : ∀ d h, x d = .error h → p d = .error h f)
    (hk : ∀ a, ∃ q, Settles Concluded q ∧ ∀ d, x d = .ok a → p d = q d) :
    Settles Concluded p := by
  obtain ⟨n, r, hr, hn⟩ := hx
  cases r with
  | ok a =>
    obtain ⟨q, ⟨m, r, hr, hm⟩, hq⟩ := hk a
    refine ⟨max n m, r, hr, fun d hd => ?_⟩
    rw [hq d (hn d (by omega)), hm d (by omega)]
  | error h =>
    exact ⟨n, .error h f, (hr h rfl).concluded f, fun d hd => hp d h (hn d hd)⟩

theorem settles_then {p q : Nat → Run ω Unit} (hp : Settles Concluded fun d => p d f)
    (hq : ∀ n g, p n f = .ok () g → Settles Concluded fun d => q d g) :
    Settles Concluded fun d => (do p d; q d : Run ω Unit) f := by
  simp only [bind_apply]
  obtain ⟨n, r, hr, hn⟩ := hp
  cases r with
  | ok _ g =>
    obtain ⟨m, r, hr, hm⟩ := hq n g (hn n (Nat.le_refl n))
    refine ⟨max n m, r, hr, fun d hd => ?_⟩
    simp only [hn d (by omega)]
    exact hm d (by omega)
  | error h g =>
    refine ⟨n, .error h g, hr, fun d hd => ?_⟩
    simp only [hn d hd]

/-- Ranked statements that invoke methods of a rank below the bound come to an end. -/
def EndsBelow (host : Host ω) (file : Option String) (rounds : Nat) (rank : Nat → Nat)
    (bound : Nat) : Prop :=
  ∀ (s : Stmt) (f : Frame ω), s.Ranked rank → f.context.Keyed → f.context.Ranked rank →
    (∀ j ∈ s.calls, rank j < bound) → Settles Concluded fun d => exec host file rounds d s f

section

variable {bound : Nat}

theorem invoke_settles (ih : ∀ b < bound, EndsBelow host file rounds rank b) (x : String)
    (args : List Expr) (line : Int) (f : Frame ω) (hk : f.context.Keyed)
    (hf : f.context.Ranked rank) (hc : rank args.length < bound) :
    Settles Concluded fun d => exec host file rounds d (.invoke x args line) f := by
  apply Settles.of_add 2
  cases hm : f.context.resolve? args.length with
  | none =>
    simp only [exec_invoke, hm]
    exact .const ⟨nofun, nofun⟩
  | some m =>
    obtain ⟨hb, hl⟩ := hf.resolve? hm
    -- its rank is that of the arguments, since the keys agree with the methods
    rw [hk.resolve? hm] at hl
    refine settles_after f
      (bindArguments_settles ⟨some line, file⟩ f.active (m.params.zip args) {}) ?_
      fun locals => ⟨_, inScope_settles
        (f := { f with world := host.note (.invoking x m.name locals) f.world })
        (ih _ hc m.body { f with
          world := host.note (.invoking x m.name locals) f.world, locals := some locals }
          hb hk hf hl),
        ?_⟩
    · intro d h he
      rw [exec_invoke, hm]
      dsimp only
      rw [he]
    · intro d he
      rw [exec_invoke, hm]
      dsimp only
      rw [he]

theorem conditional_settles {body : Stmt}
    (hb : Settles Concluded fun d => exec host file rounds d body f) (e : Expr) (line : Int) :
    Settles Concluded fun d => exec host file rounds d (.conditional e body line) f := by
  apply Settles.of_add 1
  refine settles_after f ((evalBool_settles ⟨some line, file⟩ f.active e).sub 1) ?_ fun t => ?_
  · intro d h he
    rw [exec_conditional, he]
  · cases t with
    | true => exact ⟨_, hb, fun d he => by rw [exec_conditional, he]⟩
    | false => exact ⟨_, .const (concluded_ok () f), fun d he => by rw [exec_conditional, he]⟩

theorem command_settles (ht : ∀ name args s, Settles Concluded fun calls =>
      host.dispatch calls name args s) (x : String) (args : List Expr) (line : Int) (f : Frame ω) :
    Settles Concluded fun d => exec host file rounds d (.command x args line) f := by
  apply Settles.of_add 1
  refine settles_after f (evalTexts_settles ⟨some line, file⟩ f.active args) ?_ fun texts =>
    ⟨_, dispatch_settles (ht x texts f.toState) ⟨some line, file⟩, ?_⟩
  · intro d h he
    rw [exec_command, he]
  · intro d he
    rw [exec_command, he]

mutual

theorem endsBelow_step (hd : host.Detached)
    (ht : ∀ name args s, Settles Concluded fun calls => host.dispatch calls name args s)
    (ih : ∀ b < bound, EndsBelow host file rounds rank b) :
    EndsBelow host file rounds rank bound
  | .block ss, f, hs, hk, hf, hc =>
    .of_add 1 (endsBelow_items hd ht ih ss f (fun _ hm => hs.part (.block hm .refl)) hk hf hc)
  | .conditional e body line, f, hs, hk, hf, hc =>
    conditional_settles
      (endsBelow_step hd ht ih body f (hs.part (.conditional _ _ .refl)) hk hf hc) e line
  | .loop e body line, f, hs, hk, hf, hc => absurd .refl hs.loopFree
  | .assign x e line, f, hs, hk, hf, hc => by
    apply Settles.of_add 1
    refine settles_after f (evalInt_settles ⟨some line, file⟩ f.context.globals e) ?_ fun n =>
      ⟨_, .const (concluded_ok () (f.assign x (.int n))), ?_⟩
    · intro d h he
      rw [exec_assign, he]
    · intro d he
      rw [exec_assign, he]
  | .define x params body line, f, hs, hk, hf, hc => .of_add 1 (.const (concluded_ok () _))
  | .invoke x args line, f, hs, hk, hf, hc =>
    invoke_settles ih x args line f hk hf (hc _ (List.mem_singleton_self _))
  | .command x args line, f, hs, hk, hf, hc => command_settles ht x args line f
  | .misplaced tree, f, hs, hk, hf, hc => by
    apply Settles.of_add 1
    obtain ⟨n, h, hh, hn⟩ := tree.outOfPlace_settles ⟨none, none⟩
    exact ⟨n, .error h f, hh.concluded f, fun d hd =>
      congrArg (EStateM.Result.error · f) (hn d hd)⟩

theorem endsBelow_items (hd : host.Detached)
    (ht : ∀ name args s, Settles Concluded fun calls => host.dispatch calls name args s)
    (ih : ∀ b < bound, EndsBelow host file rounds rank b) :
    ∀ (ss : List Stmt) (f : Frame ω), (∀ s ∈ ss, s.Ranked rank) → f.context.Keyed →
      f.context.Ranked rank → (∀ j ∈ Stmt.allCalls ss, rank j < bound) →
      Settles Concluded fun d => Run.each (exec host file rounds d) ss f
  | [], f, hs, hk, hf, hc => .const (concluded_ok () f)
  | s :: ss, f, hs, hk, hf, hc => by
    obtain ⟨hs, hss⟩ := List.forall_mem_cons.mp hs
    obtain ⟨hc, hcs⟩ := List.forall_mem_append.mp hc
    refine settles_then (endsBelow_step hd ht ih s f hs hk hf hc) fun n g hx => ?_
    -- what ran kept the keys and the ranks
    have hk' := (keyed_contract hd).exec file rounds n (s := s) trivial hk
    have hf' := (ranked_contract hd).exec file rounds n hs hf
    rw [hx] at hk' hf'
    exact endsBelow_items hd ht ih ss g hss hk'.1 hf'.1 hcs

end

end

end

namespace Registry

variable {registry : Registry}

end Registry

end CommandScript
