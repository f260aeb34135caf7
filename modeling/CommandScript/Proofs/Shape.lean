import CommandScript.Proofs.Grammar

/-! # Shapes of statements

What a script can spell is far from every tree: conditions compare two integers, what is assigned
or passed is integer arithmetic, and every literal can be written back.
-/

namespace CommandScript

/-- Integer arithmetic with known operators and literals that can be written. -/
inductive Expr.Arithmetic : Expr → Prop where
  | int {n : Int} : Text.writable n = true → Arithmetic (.int n)
  | var (x : String) : Arithmetic (.var x)
  | arith {l r : Expr} {op : Op} : Arithmetic l → op.isComparison = false → Arithmetic r →
      Arithmetic (.arith l (.known op) r)

/-- A comparison of two integers. -/
inductive Expr.Condition : Expr → Prop where
  | mk {l r : Expr} {op : Op} : Arithmetic l → op.isComparison = true → Arithmetic r →
      Condition (.compare l (.known op) r)

theorem Expr.Arithmetic.writable {e : Expr} (h : e.Arithmetic) : e.writable = true := by
  induction h with
  | int hn => exact hn
  | var => rfl
  | arith _ _ _ ihl ihr => rw [Expr.writable, ihl, ihr]; rfl

namespace Grammar

variable {ts : List Token} {e : Expr} {es : List Expr}

theorem Term.arithmetic (h : Term ts e) : e.Arithmetic := by
  induction h with
  | number hd hl => exact .int (Text.writable_positional hd hl)
  | name x => exact .var x
  | group _ ih => exact ih

theorem Chain.arithmetic {allowed : Op → Bool} {Operand : List Token → Expr → Prop}
    (ha : ∀ op, allowed op = true → op.isComparison = false)
    (ho : ∀ ts e, Operand ts e → e.Arithmetic) (h : Chain allowed Operand ts e) :
    e.Arithmetic := by
  induction h with
  | single h => exact ho _ _ h
  | join _ hop hr ih => exact .arith ih (ha _ hop) (ho _ _ hr)

theorem Sum.arithmetic (h : Sum ts e) : e.Arithmetic := by
  have hp : ∀ ts e, Product ts e → e.Arithmetic := by
    intro ts e h
    exact Chain.arithmetic (fun op h => by simp [Op.isComparison, h])
      (fun _ _ => Term.arithmetic) h
  exact Chain.arithmetic (fun op h => by simp [Op.isComparison, h]) hp h

theorem Comparison.condition (h : Comparison ts e) : e.Condition := by
  obtain ⟨hl, hop, hr⟩ := h
  exact .mk hl.arithmetic hop hr.arithmetic

theorem Arguments.arithmetic (h : Arguments ts es) : ∀ e ∈ es, e.Arithmetic := by
  induction h with
  | nil => simp
  | bare ht _ ih => simpa using ⟨ht.arithmetic, ih⟩
  | comma ht _ ih => simpa using ⟨ht.arithmetic, ih⟩

theorem Items.mem {line : Int} {ss : Program} (h : Items line ts ss) :
    ∀ s ∈ ss, ∃ line ts, Statement line ts s := by
  induction h using Items.along with
  | nil => simp
  | newline _ ih => exact ih
  | statement hs _ ih => simpa using ⟨⟨_, _, hs⟩, ih⟩

end Grammar

open Grammar

/-- The statement, or the statements of the block, derive from some tokens. -/
inductive Stmt.Derived : Stmt → Prop where
  | statement {line : Int} {ts : List Token} {s : Stmt} : Statement line ts s → Derived s
  | block {line : Int} {ts : List Token} {ss : Program} : Items line ts ss → Derived (.block ss)

/-- The statement is the other one or stands somewhere inside it. -/
inductive Stmt.Part (s : Stmt) : Stmt → Prop where
  | refl : Part s s
  | block {t : Stmt} {ss : List Stmt} : t ∈ ss → Part s t → Part s (.block ss)
  | conditional {body : Stmt} (e : Expr) (line : Int) : Part s body →
      Part s (.conditional e body line)
  | loop {body : Stmt} (e : Expr) (line : Int) : Part s body → Part s (.loop e body line)
  | define {body : Stmt} (x : String) (params : List String) (line : Int) : Part s body →
      Part s (.define x params body line)

theorem Stmt.Part.trans {s t u : Stmt} (h : s.Part t) (h' : t.Part u) : s.Part u := by
  induction h' with
  | refl => exact h
  | block hm _ ih => exact .block hm ih
  | conditional e line _ ih => exact .conditional e line ih
  | loop e line _ ih => exact .loop e line ih
  | define x params line _ ih => exact .define x params line ih

namespace Stmt.Derived

variable {x : String} {e : Expr} {es : List Expr} {params : List String} {body : Stmt} {line : Int}

theorem mem {ss : List Stmt} (h : Derived (.block ss)) : ∀ s ∈ ss, Derived s := by
  rcases h with h | h
  · cases h
  · intro s hs
    obtain ⟨line, ts, ht⟩ := h.mem s hs
    exact .statement ht

theorem conditional (h : Derived (.conditional e body line)) : e.Condition ∧ Derived body := by
  cases h with
  | statement h =>
    cases h with
    | conditional hc hi => exact ⟨hc.condition, .block hi⟩

theorem loop (h : Derived (.loop e body line)) : e.Condition ∧ Derived body := by
  cases h with
  | statement h =>
    cases h with
    | loop hc hi => exact ⟨hc.condition, .block hi⟩

theorem assign (h : Derived (.assign x e line)) : e.Arithmetic := by
  cases h with
  | statement h =>
    cases h with
    | assign hs => exact hs.arithmetic

theorem define (h : Derived (.define x params body line)) : Derived body := by
  cases h with
  | statement h =>
    cases h with
    | define _ hi => exact .block hi

theorem invoke (h : Derived (.invoke x es line)) : ∀ e ∈ es, e.Arithmetic := by
  cases h with
  | statement h =>
    cases h with
    | invoke ha => exact ha.arithmetic

theorem command (h : Derived (.command x es line)) : ∀ e ∈ es, e.Arithmetic := by
  cases h with
  | statement h =>
    cases h with
    | command ha _ => exact ha.arithmetic

theorem not_misplaced {tree : Tree} : ¬ Derived (.misplaced tree) := by
  rintro ⟨⟨⟩⟩

theorem part {s t : Stmt} (h : Derived t) (hp : Part s t) : Derived s := by
  induction hp with
  | refl => exact h
  | block hm _ ih => exact ih (h.mem _ hm)
  | conditional _ _ _ ih => exact ih h.conditional.2
  | loop _ _ _ ih => exact ih h.loop.2
  | define _ _ _ _ ih => exact ih h.define

end Stmt.Derived

end CommandScript
