import Mathlib.Data.List.TakeWhile
import CommandScript.Expr
import CommandScript.Proofs.MaximalMunch
import CommandScript.Proofs.Numeral

/-! # Expressions from their text

The text of an expression tells where it ends, whatever follows: a number or a name goes on as far
as there are letters and digits, and an operation has its own parentheses. So it can be cut off a
longer text in one way only, and two expressions with the same text are the same.
-/

namespace CommandScript

open Text

/-! ## Words -/

namespace Text

/-- What numbers and names are made of. -/
def isWordChar (c : Char) : Bool := isLetter c || isDigit c

/-- Letters and digits, in any order. -/
structure IsRun (cs : List Char) : Prop where
  nonempty : cs ≠ []
  chars : ∀ c ∈ cs, isWordChar c = true

/-- No word goes on with this text. -/
def EndsWord (cs : List Char) : Prop := ∀ c ∈ cs.head?, isWordChar c = false

variable {as bs us vs : List Char}

/-- There is one way only to cut a text at the first character that does not have a property. -/
theorem cut_unique {p : Char → Bool} (ha : ∀ c ∈ as, p c = true) (hb : ∀ c ∈ bs, p c = true)
    (hu : ∀ c ∈ us.head?, p c = false) (hv : ∀ c ∈ vs.head?, p c = false)
    (h : as ++ us = bs ++ vs) : as = bs ∧ us = vs := by
  have ht : ∀ {as us : List Char}, (∀ c ∈ as, p c = true) → (∀ c ∈ us.head?, p c = false) →
      (as ++ us).takeWhile p = as := by
    intro as us ha hu
    rw [List.takeWhile_append_of_pos ha]
    cases us with
    | nil => simp
    | cons c us => simp [hu c rfl]
  have he : as = bs := by rw [← ht ha hu, h, ht hb hv]
  subst he
  exact ⟨rfl, List.append_cancel_left h⟩

theorem IsRun.cut (ha : IsRun as) (hb : IsRun bs) (hu : EndsWord us) (hv : EndsWord vs)
    (h : as ++ us = bs ++ vs) : as = bs ∧ us = vs :=
  cut_unique ha.chars hb.chars hu hv h

theorem isRun_of_spellsWord (h : SpellsWord as) : IsRun as := by
  obtain ⟨c, cs, rfl, hc, hcs⟩ := h
  exact ⟨by simp, by simpa [isWordChar, hc]⟩

theorem isRun_repr (n : Nat) : IsRun n.repr.toList := by
  obtain ⟨hn, hd⟩ := isNumeral_repr n
  refine ⟨hn, fun c hc => ?_⟩
  simp [isWordChar, CharClass.of_eq_digit.mp (hd c hc)]

theorem eq_of_repr_eq {m n : Nat} (hm : m < textBound) (hn : n < textBound)
    (h : m.repr = n.repr) : m = n := by
  obtain ⟨ds, hds, -, rfl⟩ := exists_digits_repr hm
  obtain ⟨ds', hds', -, rfl⟩ := exists_digits_repr hn
  rw [h, hds'] at hds
  rw [Option.some.inj hds]

theorem repr_ne_word (h : SpellsWord as) (n : Nat) : n.repr.toList ≠ as := by
  obtain ⟨c, cs, rfl, hc, -⟩ := h
  intro he
  have hd := (isNumeral_repr n).2 c (by simp [he])
  rw [CharClass.of_eq_letter.mpr hc] at hd
  cases hd

end Text

namespace Expr

/-- Numbers that are not negative and not too long to be written, names, the four operations and
the eight comparisons, nested in any way. -/
inductive IsPlain : Expr → Prop where
  | int {n : Nat} : n < textBound → IsPlain (.int n)
  | var {x : String} : SpellsWord x.toList → IsPlain (.var x)
  | arith {l r : Expr} {op : Op} : IsPlain l → op.isComparison = false → IsPlain r →
      IsPlain (.arith l (.known op) r)
  | compare {l r : Expr} {op : Op} : IsPlain l → op.isComparison = true → IsPlain r →
      IsPlain (.compare l (.known op) r)

/-- The operation or the comparison, whichever the operator is for. -/
def join (l : Expr) (op : Op) (r : Expr) : Expr :=
  if op.isComparison then .compare l (.known op) r else .arith l (.known op) r

variable {e e' l r : Expr} {op : Op}

/-- No operator is for both operations and comparisons, so the two need not be told apart. -/
@[elab_as_elim]
theorem IsPlain.along {motive : ∀ e, IsPlain e → Prop}
    (int : ∀ {n : Nat} (h : n < textBound), motive _ (.int h))
    (var : ∀ {x : String} (h : SpellsWord x.toList), motive _ (.var h))
    (join : ∀ {l r : Expr} {op : Op} (hl : l.IsPlain) (hr : r.IsPlain) (h : (join l op r).IsPlain),
      motive l hl → motive r hr → motive (join l op r) h) {e : Expr} (h : e.IsPlain) :
    motive e h := by
  induction h with
  | int h => exact int h
  | var h => exact var h
  | @arith l r op hl ho hr ihl ihr =>
    have hj : Expr.join l op r = .arith l (.known op) r := by simp [Expr.join, ho]
    have hm : ∀ h, motive (Expr.join l op r) h := fun h => join hl hr h ihl ihr
    rw [hj] at hm
    exact hm _
  | @compare l r op hl ho hr ihl ihr =>
    have hj : Expr.join l op r = .compare l (.known op) r := by simp [Expr.join, ho]
    have hm : ∀ h, motive (Expr.join l op r) h := fun h => join hl hr h ihl ihr
    rw [hj] at hm
    exact hm _

theorem IsPlain.writable (h : e.IsPlain) : e.writable = true := by
  induction h with
  | int h => exact writable_iff.mpr h
  | var => rfl
  | arith _ _ _ ihl ihr => simp [Expr.writable, ihl, ihr]
  | compare _ _ _ ihl ihr => simp [Expr.writable, ihl, ihr]

/-! ## Cutting off an expression -/

variable {us vs : List Char}

theorem toList_join (l : Expr) (op : Op) (r : Expr) (us : List Char) :
    (join l op r).text.toList ++ us =
      '(' :: (l.text.toList ++ ' ' :: (op.lexeme.toList ++ ' ' :: (r.text.toList ++ ')' :: us))) := by
  have ht : (join l op r).text = "(" ++ l.text ++ " " ++ op.lexeme ++ " " ++ r.text ++ ")" := by
    unfold join
    split <;> rfl
  simp [ht]

theorem endsWord_cons {c : Char} (h : isWordChar c = false) (us : List Char) :
    EndsWord (c :: us) := by
  simpa [EndsWord] using h

theorem run_ne_join {w : List Char} (hw : IsRun w) (l : Expr) (op : Op) (r : Expr) :
    w ++ us ≠ (join l op r).text.toList ++ vs := by
  obtain ⟨c, cs, rfl⟩ := List.exists_cons_of_ne_nil hw.nonempty
  rw [toList_join, List.cons_append]
  intro h
  obtain rfl := (List.cons.inj h).1
  exact absurd (hw.chars '(' (by simp)) (by decide)

theorem lexeme_cut {op op' : Op}
    (h : op.lexeme.toList ++ ' ' :: us = op'.lexeme.toList ++ ' ' :: vs) : op = op' ∧ us = vs := by
  have hb : ∀ op : Op, op.lexeme.toList.all (· != ' ') = true := by
    intro op
    cases op <;> decide
  have hc : ∀ op : Op, ∀ c ∈ op.lexeme.toList, (c != ' ') = true :=
    fun op => List.all_eq_true.mp (hb op)
  obtain ⟨hl, hs⟩ := cut_unique (hc op) (hc op') (by simp) (by simp) h
  have ho := Op.ofLexeme?_lexeme op
  rw [String.toList_inj.mp hl, Op.ofLexeme?_lexeme op'] at ho
  exact ⟨(Option.some.inj ho).symm, (List.cons.inj hs).2⟩

/-- The text of a plain expression can be cut off a longer text in one way only. -/
theorem IsPlain.cut (h : e.IsPlain) (h' : e'.IsPlain) (hu : EndsWord us) (hv : EndsWord vs)
    (ht : e.text.toList ++ us = e'.text.toList ++ vs) : e = e' ∧ us = vs := by
  induction h using IsPlain.along generalizing e' us vs with
  | @int n hn =>
    cases h' using IsPlain.along with
    | @int m hm =>
      obtain ⟨hr, rfl⟩ := (isRun_repr n).cut (isRun_repr m) hu hv ht
      obtain rfl := eq_of_repr_eq hn hm (String.toList_inj.mp hr)
      exact ⟨rfl, rfl⟩
    | var hx =>
      have hr := ((isRun_repr n).cut (isRun_of_spellsWord hx) hu hv ht).1
      exact absurd hr (repr_ne_word hx n)
    | join => exact absurd ht (run_ne_join (isRun_repr n) _ _ _)
  | @var x hx =>
    cases h' using IsPlain.along with
    | @int m hm =>
      have hr := ((isRun_of_spellsWord hx).cut (isRun_repr m) hu hv ht).1
      exact absurd hr.symm (repr_ne_word hx m)
    | @var y hy =>
      obtain ⟨hr, rfl⟩ := (isRun_of_spellsWord hx).cut (isRun_of_spellsWord hy) hu hv ht
      obtain rfl : x = y := String.toList_inj.mp hr
      exact ⟨rfl, rfl⟩
    | join => exact absurd ht (run_ne_join (isRun_of_spellsWord hx) _ _ _)
  | @join l r op hl hr _ ihl ihr =>
    cases h' using IsPlain.along with
    | @int m hm => exact absurd ht.symm (run_ne_join (isRun_repr m) l op r)
    | var hx => exact absurd ht.symm (run_ne_join (isRun_of_spellsWord hx) l op r)
    | @join l' r' op' hl' hr' =>
      rw [toList_join, toList_join] at ht
      -- the operands and the operator are cut off one after another
      obtain ⟨rfl, h₁⟩ := ihl hl' (endsWord_cons (by decide) _) (endsWord_cons (by decide) _)
        (List.cons.inj ht).2
      obtain ⟨rfl, h₂⟩ := lexeme_cut (List.cons.inj h₁).2
      obtain ⟨rfl, h₃⟩ := ihr hr' (endsWord_cons (by decide) _) (endsWord_cons (by decide) _) h₂
      exact ⟨rfl, (List.cons.inj h₃).2⟩

theorem IsPlain.eq_of_text (h : e.IsPlain) (h' : e'.IsPlain) (ht : e.text = e'.text) : e = e' := by
  have hn : EndsWord [] := by simp [EndsWord]
  exact (h.cut h' hn hn (by rw [ht])).1

/-- A plain expression has a text, and no other plain expression has the same. -/
theorem text_identifies (h : e.IsPlain) (h' : e'.IsPlain) :
    ∃ t t', e.describe = .ok t ∧ e'.describe = .ok t' ∧ (t = t' ↔ e = e') := by
  refine ⟨e.text, e'.text, if_pos h.writable, if_pos h'.writable, h.eq_of_text h', ?_⟩
  rintro rfl
  rfl

theorem text_identifies_grouping :
    let e : Expr := .arith (.var "x") (.known .sub) (.compare (.int 1) (.known .eq) (.var "y"))
    let e' : Expr := .compare (.arith (.var "x") (.known .sub) (.int 1)) (.known .eq) (.var "y")
    e.IsPlain ∧ e'.IsPlain ∧
      ∃ t t', e.describe = .ok t ∧ e'.describe = .ok t' ∧ (t = t' ↔ e = e') ∧ t ≠ t' := by
  have hx : (var "x").IsPlain := .var ⟨'x', [], rfl, by decide, by simp⟩
  have hy : (var "y").IsPlain := .var ⟨'y', [], rfl, by decide, by simp⟩
  have hn : (int 1).IsPlain := .int (n := 1) (lt_textBound (by decide))
  have h : (arith (var "x") (.known .sub) (compare (int 1) (.known .eq) (var "y"))).IsPlain :=
    .arith hx rfl (.compare hn rfl hy)
  have h' : (compare (arith (var "x") (.known .sub) (int 1)) (.known .eq) (var "y")).IsPlain :=
    .compare (.arith hx rfl hn) rfl hy
  obtain ⟨t, t', ht, ht', hi⟩ := text_identifies h h'
  refine ⟨h, h', t, t', ht, ht', hi, ?_⟩
  rw [Ne, hi]
  exact nofun

end Expr

end CommandScript
