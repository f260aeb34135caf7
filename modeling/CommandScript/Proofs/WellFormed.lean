import CommandScript.Proofs.MaximalMunch
import CommandScript.Proofs.Parsing.Recognition

/-! # Well-formed programs

Which trees a script can be parsed to: sums of products of leaves, compared at most once and only in
a condition, with proper names throughout.
-/

namespace CommandScript

/-- A letter and then letters and digits, but no keyword. -/
def IsName (x : String) : Prop := Text.SpellsWord x.toList ∧ x ∉ keywords

theorem isName_iff {x : String} : IsName x ↔ (Token.name x).WellFormed :=
  and_congr_left' Text.spellsWord_iff

namespace Expr

/-- A name, or a number that is not too long to be written. -/
inductive IsLeaf : Expr → Prop where
  | int {n : Nat} : n < Text.textBound → IsLeaf (.int n)
  | var {x : String} : IsName x → IsLeaf (.var x)

/-- Leaves joined to the left by `*` and `/`. -/
inductive IsProduct : Expr → Prop where
  | leaf {e : Expr} : IsLeaf e → IsProduct e
  | join {l r : Expr} {op : Op} : IsProduct l → op.isProduct = true → IsLeaf r →
      IsProduct (.arith l (.known op) r)

/-- Products joined to the left by `+` and `-`. -/
inductive IsSum : Expr → Prop where
  | product {e : Expr} : IsProduct e → IsSum e
  | join {l r : Expr} {op : Op} : IsSum l → op.isSum = true → IsProduct r →
      IsSum (.arith l (.known op) r)

/-- One of the eight comparisons, of two sums. -/
inductive IsComparison : Expr → Prop where
  | mk {l r : Expr} {op : Op} : IsSum l → op.isComparison = true → IsSum r →
      IsComparison (.compare l (.known op) r)

end Expr

/-- The statement has a source text. -/
inductive Stmt.WellFormed : Stmt → Prop where
  | conditional {e : Expr} {ss : List Stmt} {line : Int} : e.IsComparison →
      (∀ s ∈ ss, WellFormed s) → WellFormed (.conditional e (.block ss) line)
  | loop {e : Expr} {ss : List Stmt} {line : Int} : e.IsComparison →
      (∀ s ∈ ss, WellFormed s) → WellFormed (.loop e (.block ss) line)
  | assign {x : String} {e : Expr} {line : Int} : IsName x → e.IsSum → WellFormed (.assign x e line)
  | define {x : String} {params : List String} {ss : List Stmt} {line : Int} : IsName x →
      (∀ p ∈ params, IsName p) → (∀ s ∈ ss, WellFormed s) →
      WellFormed (.define x params (.block ss) line)
  | invoke {x : String} {es : List Expr} {line : Int} : IsName x → (∀ e ∈ es, e.IsLeaf) →
      WellFormed (.invoke x es line)
  | command {x : String} {es : List Expr} {line : Int} : IsName x → (∀ e ∈ es, e.IsLeaf) →
      WellFormed (.command x es line)

def Program.WellFormed (p : Program) : Prop := ∀ s ∈ p, s.WellFormed

/-! ## What derives is well formed -/

namespace Grammar

open Token

variable {ts : List Token} {e : Expr} {es : List Expr}

theorem Term.isLeaf (h : Term ts e) (hw : ∀ t ∈ ts, t.WellFormed) : e.IsLeaf := by
  induction h with
  | number hd hl =>
    have hn := Text.writable_positional hd hl
    rw [Text.writable, Int.natAbs_natCast] at hn
    exact .int (of_decide_eq_true hn)
  | name x => exact .var (isName_iff.mpr (hw _ (by simp)))
  | group _ ih => exact ih fun t ht => hw t (by simp [ht])

theorem Product.isProduct (h : Product ts e) (hw : ∀ t ∈ ts, t.WellFormed) : e.IsProduct := by
  induction h with
  | single h => exact .leaf (h.isLeaf hw)
  | join _ ho hr ih =>
    exact .join (ih fun t ht => hw t (by simp [ht])) ho (hr.isLeaf fun t ht => hw t (by simp [ht]))

theorem Sum.isSum (h : Sum ts e) (hw : ∀ t ∈ ts, t.WellFormed) : e.IsSum := by
  induction h with
  | single h => exact .product (Product.isProduct h hw)
  | join _ ho hr ih =>
    exact .join (ih fun t ht => hw t (by simp [ht])) ho
      (Product.isProduct hr fun t ht => hw t (by simp [ht]))

theorem Comparison.isComparison (h : Comparison ts e) (hw : ∀ t ∈ ts, t.WellFormed) :
    e.IsComparison := by
  obtain ⟨hl, ho, hr⟩ := h
  exact .mk (hl.isSum fun t ht => hw t (by simp [ht])) ho (hr.isSum fun t ht => hw t (by simp [ht]))

theorem Arguments.isLeaf (h : Arguments ts es) (hw : ∀ t ∈ ts, t.WellFormed) :
    ∀ e ∈ es, e.IsLeaf := by
  induction h with
  | nil => simp
  | bare ht _ ih =>
    exact List.forall_mem_cons.mpr
      ⟨ht.isLeaf fun t hm => hw t (by simp [hm]), ih fun t hm => hw t (by simp [hm])⟩
  | comma ht _ ih =>
    exact List.forall_mem_cons.mpr
      ⟨ht.isLeaf fun t hm => hw t (by simp [hm]), ih fun t hm => hw t (by simp [hm])⟩

theorem isName_of_isLeaf {x : String} (h : (Expr.var x).IsLeaf) : IsName x := by
  cases h with
  | var hx => exact hx

mutual

theorem Statement.wellFormed : ∀ {line : Int} {ts : List Token} {s : Stmt}, Statement line ts s →
    (∀ t ∈ ts, t.WellFormed) → s.WellFormed
  | _, _, _, .conditional hc hi, hw =>
    .conditional (hc.isComparison fun t ht => hw t (by simp [ht]))
      (hi.wellFormed fun t ht => hw t (by simp [ht]))
  | _, _, _, .loop hc hi, hw =>
    .loop (hc.isComparison fun t ht => hw t (by simp [ht]))
      (hi.wellFormed fun t ht => hw t (by simp [ht]))
  | _, _, _, .define ha hi, hw =>
    .define (isName_iff.mpr (hw _ (by simp)))
      (fun p hp => isName_of_isLeaf
        (ha.isLeaf (fun t ht => hw t (by simp [ht])) _ (List.mem_map_of_mem hp)))
      (hi.wellFormed fun t ht => hw t (by simp [ht]))
  | _, _, _, .assign hs, hw =>
    .assign (isName_iff.mpr (hw _ (by simp))) (hs.isSum fun t ht => hw t (by simp [ht]))
  | _, _, _, .invoke ha, hw =>
    .invoke (isName_iff.mpr (hw _ (by simp))) (ha.isLeaf fun t ht => hw t (by simp [ht]))
  | _, _, _, .command ha _, hw =>
    .command (isName_iff.mpr (hw _ (by simp))) (ha.isLeaf fun t ht => hw t (by simp [ht]))

theorem Items.wellFormed : ∀ {line : Int} {ts : List Token} {ss : Program}, Items line ts ss →
    (∀ t ∈ ts, t.WellFormed) → ∀ s ∈ ss, s.WellFormed
  | _, _, _, .nil _, _ => by simp
  | _, _, _, .newline hi, hw => hi.wellFormed fun t ht => hw t (by simp [ht])
  | _, _, _, .statement hs hi, hw =>
    List.forall_mem_cons.mpr ⟨hs.wellFormed fun t ht => hw t (by simp [ht]),
      hi.wellFormed fun t ht => hw t (by simp [ht])⟩

end

end Grammar

/-- What a script parses to is well formed. -/
theorem wellFormed_of_parseWithin {calls : Nat} {file : Option String} {script : String}
    {p : Program} (h : parseWithin calls file script = .ok p) : p.WellFormed :=
  (derives_of_parseWithin h).wellFormed (lex_wellFormed script)

end CommandScript
