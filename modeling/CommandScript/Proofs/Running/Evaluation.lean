import CommandScript.Exec

/-! # What evaluation raises

Evaluation stops for a few reasons only, and every fault it raises is located where the evaluation
is. What it gives a command are decimal texts of integers.
-/

namespace CommandScript

variable {α β : Type} {P : Halt → Prop}

/-- Whatever stops the computation is one of `P`. -/
def Raises (P : Halt → Prop) (x : Except Halt α) : Prop := ∀ h, x = .error h → P h

theorem raises_ok (a : α) : Raises P (.ok a) := by
  rintro h ⟨⟩

theorem raises_error {h : Halt} (hp : P h) : Raises P (.error h : Except Halt α) := by
  rintro h ⟨⟩
  exact hp

theorem Raises.weaken {Q : Halt → Prop} {x : Except Halt α} (hx : Raises P x)
    (hq : ∀ h, P h → Q h) : Raises Q x :=
  fun h he => hq h (hx h he)

theorem Raises.bind {x : Except Halt α} {f : α → Except Halt β} (hx : Raises P x)
    (hf : ∀ a, x = .ok a → Raises P (f a)) : Raises P (x >>= f) := by
  cases x with
  | ok a => exact hf a rfl
  | error h => exact raises_error (hx h rfl)

theorem raises_mapM {f : α → Except Halt β} {as : List α} (hf : ∀ a ∈ as, Raises P (f a)) :
    Raises P (as.mapM f) := by
  induction as with
  | nil => exact raises_ok _
  | cons a as ih =>
    rw [List.mapM_cons]
    apply (hf a (by simp)).bind
    intro b _
    apply (ih fun a ha => hf a (by simp [ha])).bind
    intro bs _
    exact raises_ok _

/-- What stops an evaluation at a site. -/
inductive EvalHalt (site : Site) : Halt → Prop where
  | overflow : EvalHalt site .overflow
  | integerText : EvalHalt site .integerText
  | unreachable (shown : String) : EvalHalt site (.unreachable shown)
  | undefinedVariable (name : String) : EvalHalt site (site.halt (.undefinedVariable name))
  | divisionByZero : EvalHalt site (site.halt .divisionByZero)
  | integerOverflow : EvalHalt site (site.halt .integerOverflow)
  | typeMismatch (text : String) : EvalHalt site (site.halt (.typeMismatch text))
  | unknownOperator (lexeme : String) : EvalHalt site (site.halt (.unknownOperator lexeme))

/-- What stops an evaluation at a site whose calls do not run out. -/
def EvalStop (site : Site) (h : Halt) : Prop := EvalHalt site h ∧ h ≠ .overflow

variable {site : Site} {scope : Scope}

theorem Site.halt_ne_overflow (site : Site) (cause : Cause) : site.halt cause ≠ .overflow := by
  intro h
  cases h

theorem raises_pair {γ : Type} {x : Except Halt α} {y : Except Halt β} (f : α → β → γ)
    (hx : Raises P x) (hy : Raises P y) :
    Raises P (do let a ← x; let b ← y; return f a b) := by
  apply hx.bind
  intro a _
  apply hy.bind
  intro b _
  exact raises_ok _

/-- Every integer of the tree is short enough to be written. -/
inductive Tree.Writable : Tree → Prop where
  | integer {n : Int} : Text.writable n = true → Writable (.integer n)
  | identifier (x : String) : Writable (.identifier x)
  | arith {l r : Tree} (o : Operator) : Writable l → Writable r → Writable (.arith l o r)
  | compare {l r : Tree} (o : Operator) : Writable l → Writable r → Writable (.compare l o r)
  | block {ts : List Tree} : (∀ t ∈ ts, Writable t) → Writable (.block ts)
  | conditional {c body : Tree} (line : Int) : Writable c → Writable body →
      Writable (.conditional c body line)
  | loop {c body : Tree} (line : Int) : Writable c → Writable body → Writable (.loop c body line)
  | assign {e : Tree} (x : String) (line : Int) : Writable e → Writable (.assign x e line)
  | define {body : Tree} (x : String) (params : List String) (line : Int) : Writable body →
      Writable (.define x params body line)
  | invoke {args : List Tree} (x : String) (line : Int) : (∀ t ∈ args, Writable t) →
      Writable (.invoke x args line)
  | command {args : List Tree} (x : String) (line : Int) : (∀ t ∈ args, Writable t) →
      Writable (.command x args line)

/-- A tree cannot be listed if it is too high, or if it holds an integer that is too long. -/
theorem Tree.listing_raises (ho : P .overflow) (depth : Nat) {tree : Tree}
    (hw : tree.Writable ∨ P .integerText) : Raises P (listing depth tree) := by
  induction depth using Nat.strongRecOn generalizing tree with
  | ind depth ih =>
    have items : ∀ d < depth, ∀ ts : List Tree, ((∀ t ∈ ts, t.Writable) ∨ P .integerText) →
        Raises P (ts.mapM (listing d)) :=
      fun d hd ts hw => raises_mapM fun t ht => ih d hd (hw.imp_left fun h => h t ht)
    fun_cases listing depth tree with
    | case1 => exact raises_ok _
    | case2 d n hn =>
      refine raises_error (hw.resolve_left fun h => ?_)
      cases h with
      | integer hw =>
        rw [Text.decimal?, if_pos hw] at hn
        cases hn
    | case3 => exact raises_ok _
    | case4 d l o r =>
      exact raises_pair _ (ih d (by omega) (hw.imp_left fun | .arith _ hl _ => hl))
        (ih d (by omega) (hw.imp_left fun | .arith _ _ hr => hr))
    | case5 d l o r =>
      exact raises_pair _ (ih d (by omega) (hw.imp_left fun | .compare _ hl _ => hl))
        (ih d (by omega) (hw.imp_left fun | .compare _ _ hr => hr))
    | case6 d ss =>
      exact (items d (by omega) ss (hw.imp_left fun | .block h => h)).bind fun _ _ => raises_ok _
    | case7 d c b =>
      exact raises_pair _ (ih d (by omega) (hw.imp_left fun | .conditional _ hc _ => hc))
        (ih d (by omega) (hw.imp_left fun | .conditional _ _ hb => hb))
    | case8 d c b =>
      exact raises_pair _ (ih d (by omega) (hw.imp_left fun | .loop _ hc _ => hc))
        (ih d (by omega) (hw.imp_left fun | .loop _ _ hb => hb))
    | case9 d x e =>
      exact (ih d (by omega) (hw.imp_left fun | .assign _ _ he => he)).bind fun _ _ => raises_ok _
    | case10 d x ps b =>
      exact (ih d (by omega) (hw.imp_left fun | .define _ _ _ hb => hb)).bind
        fun _ _ => raises_ok _
    | case11 d x as =>
      exact (items d (by omega) as (hw.imp_left fun | .invoke _ _ h => h)).bind
        fun _ _ => raises_ok _
    | case12 d x as =>
      exact (items d (by omega) as (hw.imp_left fun | .command _ _ h => h)).bind
        fun _ _ => raises_ok _
    | case13 => exact raises_error ho

theorem Tree.outOfPlace_evalHalt (depth : Nat) (tree : Tree) :
    EvalHalt site (tree.outOfPlace depth) := by
  unfold outOfPlace
  split
  · exact .unreachable _
  · next h =>
    exact listing_raises (P := EvalHalt site) .overflow depth (Or.inr .integerText) _ h

theorem Expr.describe_raises (e : Expr) : Raises (EvalStop site) e.describe := by
  unfold describe
  split
  · exact raises_ok _
  · exact raises_error ⟨.integerText, nofun⟩

theorem requireInt_raises (e : Expr) (v : Value) :
    Raises (EvalStop site) (requireInt site e v) := by
  cases v with
  | int n => exact raises_ok _
  | bool b =>
    exact e.describe_raises.bind fun _ _ =>
      raises_error ⟨.typeMismatch _, site.halt_ne_overflow _⟩

theorem arithmetic_raises (operator : Operator) (m n : Int) :
    Raises (EvalStop site) (arithmetic site operator m n) := by
  unfold arithmetic
  split
  · exact raises_ok _
  · exact raises_ok _
  · exact raises_ok _
  · split
    · exact raises_error ⟨.divisionByZero, site.halt_ne_overflow _⟩
    · exact raises_ok _
  · exact raises_error ⟨.unknownOperator _, site.halt_ne_overflow _⟩

theorem mismatch_raises (operator : Operator) (needs : String) (whole : Expr) :
    Raises (EvalStop site) (mismatch site operator needs whole) :=
  whole.describe_raises.bind fun _ _ => raises_error ⟨.typeMismatch _, site.halt_ne_overflow _⟩

theorem compareValues_raises (whole : Expr) (operator : Operator) (a b : Value) :
    Raises (EvalStop site) (compareValues site whole operator a b) := by
  unfold compareValues
  split
  · exact raises_ok _
  · exact raises_ok _
  · exact mismatch_raises _ _ _
  · exact mismatch_raises _ _ _
  · split
    · exact raises_ok _
    · exact raises_error ⟨.unknownOperator _, site.halt_ne_overflow _⟩
  · exact mismatch_raises _ _ _

theorem operands_raises (l r : Expr) (operator : Operator) (a b : Value) :
    Raises (EvalStop site) (do
      let m ← requireInt site l a
      let n ← requireInt site r b
      arithmetic site operator m n) := by
  apply (requireInt_raises l a).bind
  intro m _
  apply (requireInt_raises r b).bind
  intro n _
  exact arithmetic_raises operator m n

theorem Raises.evalHalt {x : Except Halt α} (h : Raises (EvalStop site) x) :
    Raises (EvalHalt site) x :=
  h.weaken fun _ => And.left

theorem eval_raises (depth : Nat) (e : Expr) :
    Raises (EvalHalt site) (eval site scope depth e) := by
  fun_induction eval site scope depth e with
  | case1 => exact raises_error .overflow
  | case2 => exact raises_ok _
  | case3 => exact raises_ok _
  | case4 => exact raises_error (.undefinedVariable _)
  | case5 depth l o r ihl ihr =>
    apply ihl.bind
    intro a _
    apply ihr.bind
    intro b _
    exact (operands_raises l r o a b).evalHalt
  | case6 depth l o r ihl ihr =>
    apply ihl.bind
    intro a _
    apply ihr.bind
    intro b _
    exact (compareValues_raises _ o a b).evalHalt
  | case7 depth tree => exact raises_error (tree.outOfPlace_evalHalt depth)

theorem evalInt_raises (depth : Nat) (e : Expr) :
    Raises (EvalHalt site) (evalInt site scope depth e) :=
  (eval_raises depth e).bind fun v _ => (requireInt_raises e v).evalHalt

theorem evalBool_raises (depth : Nat) (e : Expr) :
    Raises (EvalHalt site) (evalBool site scope depth e) := by
  apply (eval_raises depth e).bind
  intro v _
  cases v with
  | bool b => exact raises_ok _
  | int n =>
    exact e.describe_raises.evalHalt.bind fun _ _ => raises_error (.typeMismatch _)

theorem evalText_raises (depth : Nat) (e : Expr) :
    Raises (EvalHalt site) (evalText site scope depth e) := by
  apply (evalInt_raises depth e).bind
  intro n _
  split
  · exact raises_ok _
  · exact raises_error .integerOverflow

theorem evalTexts_raises (depth : Nat) (es : List Expr) :
    Raises (EvalHalt site) (es.mapM (evalText site scope depth)) :=
  raises_mapM fun e _ => evalText_raises depth e

theorem bindArguments_raises (depth : Nat) (args : List (String × Expr)) (locals : Scope) :
    Raises (EvalHalt site) (bindArguments site scope depth args locals) := by
  induction args generalizing locals with
  | nil => exact raises_ok _
  | cons arg args ih => exact (evalInt_raises depth arg.2).bind fun _ _ => ih _

/-! ## The texts of arguments -/

theorem evalText_decimal {depth : Nat} {e : Expr} {text : String}
    (ht : evalText site scope depth e = .ok text) :
    ∃ n, Text.decimal? n = some text := by
  unfold evalText at ht
  cases hn : evalInt site scope depth e with
  | error h => rw [hn] at ht; cases ht
  | ok n =>
    rw [hn] at ht
    dsimp only [Bind.bind, Except.bind] at ht
    split at ht
    · next hd =>
      cases ht
      exact ⟨n, hd⟩
    · cases ht

theorem evalTexts_decimal {depth : Nat} {args : List Expr} {texts : List String}
    (ht : args.mapM (evalText site scope depth) = .ok texts) :
    ∀ text ∈ texts, ∃ n, Text.decimal? n = some text := by
  induction args generalizing texts with
  | nil =>
    cases ht
    exact fun _ h => absurd h List.not_mem_nil
  | cons e args ih =>
    rw [List.mapM_cons] at ht
    cases he : evalText site scope depth e with
    | error h => rw [he] at ht; cases ht
    | ok text =>
      cases hr : args.mapM (evalText site scope depth) with
      | error h => rw [he, hr] at ht; cases ht
      | ok rest =>
        rw [he, hr] at ht
        cases ht
        exact List.forall_mem_cons.mpr ⟨evalText_decimal he, ih hr⟩

end CommandScript
