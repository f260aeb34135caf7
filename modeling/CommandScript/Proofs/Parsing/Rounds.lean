import CommandScript.Proofs.Parsing.Statement

/-! # Progress of the parser

What stands in the tokens does not matter here. Wherever a parser stops, it stands behind the tokens
it has passed, and what it returns it has passed tokens for. So no loop goes on without a token less
to read: the bound on its rounds is never what ends it. In the same way every level of nesting takes
a token, and a parser that may go deeper than the tokens can nest does the same as any that may.
-/

namespace CommandScript

open Token

namespace Parser

variable {α β σ : Type} {c c' : Cursor} {t : Token} {k k' : α → Nat} {l : β → Nat} {n m : Nat}
  {p q : Parser α} {f g : α → Parser β}

/-- From `c` the parser passes tokens, `k a` or more where it returns `a`. It runs out of depth only
where `n` tokens or more are left, and otherwise does what `q` does, which may go deeper. -/
structure Moves (k : α → Nat) (n : Nat) (c : Cursor) (p q : Parser α) : Prop where
  returned : ∀ {a c'}, p c = .ok a c' → q c = .ok a c' ∧ ∃ ts, c.Passes ts c' ∧ k a ≤ ts.length
  refused : ∀ {e c'}, p c = .error e c' → ∃ ts, c.Passes ts c'
  kept : ∀ {e c'}, p c = .error e c' → e ≠ .tooDeep → q c = .error e c'
  deep : ∀ {c'}, p c = .error .tooDeep c' → n ≤ c.rest.length

/-! ## Rules for the primitives -/

theorem Moves.weaken (hp : Moves k n c p q) (hk : ∀ a, k' a ≤ k a) (hm : m ≤ n) :
    Moves k' m c p q := by
  refine ⟨fun h => ?_, hp.refused, hp.kept, fun h => Nat.le_trans hm (hp.deep h)⟩
  obtain ⟨hq, ts, hts, hl⟩ := hp.returned h
  exact ⟨hq, ts, hts, Nat.le_trans (hk _) hl⟩

theorem Moves.bind (hp : Moves k n c p q)
    (hf : ∀ a ts c', c.Passes ts c' → k a ≤ ts.length →
      Moves (fun b => l b - ts.length) (n - ts.length) c' (f a) (g a)) :
    Moves l n c (p >>= f) (q >>= g) := by
  cases he : p c with
  | error e d =>
    have hb := bind_error (f := f) he
    refine ⟨fun h => ?_, fun h => ?_, fun h hn => ?_, fun h => ?_⟩ <;> rw [hb] at h <;> cases h
    · exact hp.refused he
    · exact bind_error (hp.kept he hn)
    · exact hp.deep he
  | ok a d =>
    have hb := bind_ok (f := f) he
    obtain ⟨hq, ts, hts, hl⟩ := hp.returned he
    have hd := hf a ts d hts hl
    refine ⟨fun h => ?_, fun h => ?_, fun h hn => ?_, fun h => ?_⟩ <;> rw [hb] at h
    · obtain ⟨hg, us, hus, hb⟩ := hd.returned h
      refine ⟨(bind_ok hq).trans hg, ts ++ us, hts.trans hus, ?_⟩
      rw [List.length_append]
      omega
    · obtain ⟨us, hus⟩ := hd.refused h
      exact ⟨ts ++ us, hts.trans hus⟩
    · exact (bind_ok hq).trans (hd.kept h hn)
    · have := hd.deep h
      have := hts.length
      omega

theorem moves_take {a : α} (hc : c.Passes [t] c') (hp : p c = .ok a c') (hk : k a ≤ 1) :
    Moves k n c p p := by
  refine ⟨fun h => ⟨h, ?_⟩, fun h => ?_, fun h _ => h, fun h => ?_⟩ <;> rw [hp] at h <;> cases h
  exact ⟨[t], hc, hk⟩

theorem moves_stay {a : α} (hp : p c = .ok a c) (hk : k a = 0) : Moves k n c p p := by
  refine ⟨fun h => ⟨h, ?_⟩, fun h => ?_, fun h _ => h, fun h => ?_⟩ <;> rw [hp] at h <;> cases h
  exact ⟨[], .refl c, Nat.le_of_eq hk⟩

theorem moves_refuse {reason : String} {incomplete : Bool} {line : Int}
    (hp : p c = .error (.malformed reason incomplete line) c) : Moves k n c p p := by
  refine ⟨fun h => ?_, fun h => ?_, fun h _ => h, fun h => ?_⟩ <;> rw [hp] at h <;> cases h
  exact ⟨[], .refl c⟩

theorem moves_pure {a : α} (hk : k a = 0) : Moves k n c (pure a) (pure a) := moves_stay rfl hk

theorem moves_fail {reason : String} : Moves k n c (fail reason) (fail reason) := moves_refuse rfl

theorem moves_get : Moves (fun _ => 0) n c (get : Parser Cursor) get := moves_stay rfl rfl

theorem moves_rounds : Moves (fun _ => 0) n c rounds rounds := moves_stay rfl rfl

theorem moves_endOfScript : Moves k n c (endOfScript : Parser α) endOfScript := moves_refuse rfl

theorem moves_of_passes (hn : c.rest = [] → p c = (endOfScript : Parser α) c)
    (h : ∀ t c', c.Passes [t] c' → Moves k n c p p) : Moves k n c p p := by
  rcases c.exists_passes with hc | ⟨t, c', hc⟩
  · exact moves_refuse (hn hc)
  · exact h t c' hc

theorem moves_peek : Moves (fun _ => 0) n c peek peek :=
  moves_of_passes peek_nil fun _ _ hc => moves_stay (peek_passes hc) rfl

theorem moves_advance : Moves (fun _ => 1) n c advance advance :=
  moves_of_passes advance_nil fun _ _ hc => moves_take hc (advance_passes hc) (Nat.le_refl 1)

theorem moves_accept {value : String} : Moves Bool.toNat n c (accept value) (accept value) := by
  refine moves_of_passes accept_nil fun t c' hc => ?_
  have ha := accept_passes value hc
  split at ha
  · exact moves_take hc ha (Nat.le_refl 1)
  · exact moves_stay ha rfl

theorem moves_acceptKind {kind : TokenKind} :
    Moves Bool.toNat n c (acceptKind kind) (acceptKind kind) := by
  refine moves_of_passes acceptKind_nil fun t c' hc => ?_
  have ha := acceptKind_passes kind hc
  split at ha
  · exact moves_take hc ha (Nat.le_refl 1)
  · exact moves_stay ha rfl

theorem moves_eatNewline : Moves (fun _ => 1) n c eatNewline eatNewline := by
  refine moves_of_passes eatNewline_nil fun t c' hc => ?_
  have ha := eatNewline_passes hc
  split at ha
  · exact moves_take hc ha (Nat.le_refl 1)
  · exact moves_refuse ha

theorem moves_expect {value : String} : Moves (fun _ => 1) n c (expect value) (expect value) := by
  refine moves_of_passes expect_nil fun t c' hc => ?_
  have ha := expect_passes value hc
  split at ha
  · exact moves_take hc ha (Nat.le_refl 1)
  · exact moves_refuse ha

theorem moves_atEnd : Moves (fun _ => 0) n c atEnd atEnd := moves_stay (atEnd_apply c) rfl

theorem moves_atTerminator {value : String} :
    Moves (fun _ => 0) n c (atTerminator value) (atTerminator value) := by
  refine moves_of_passes atTerminator_nil fun t c' hc => ?_
  have ha := atTerminator_passes value hc
  split_ifs at ha
  · exact moves_stay ha rfl
  · exact moves_refuse ha
  · exact moves_stay ha rfl

/-! ## Loops -/

/-- A loop: each round goes on from a new state or ends with a value. The loop that runs is allowed
a number of rounds. -/
structure Iteration (σ β : Type) where
  round : σ → Parser (σ ⊕ β)
  run : Nat → σ → Parser β
  run_zero : ∀ s, run 0 s = endOfScript
  run_succ : ∀ r s, run (r + 1) s = round s >>= Sum.elim (run r) pure

/-- Round after round, with no bound on their number, a loop comes to a result. Each round that goes
on leaves fewer tokens. -/
inductive Ends (round : σ → Parser (σ ⊕ β)) :
    σ → Cursor → EStateM.Result Refusal Cursor β → Prop where
  | refused {s : σ} {c c' : Cursor} {e : Refusal} : round s c = .error e c' →
      Ends round s c (.error e c')
  | done {s : σ} {c c' : Cursor} {b : β} : round s c = .ok (.inr b) c' →
      Ends round s c (.ok b c')
  | again {s s' : σ} {c c' : Cursor} {r : EStateM.Result Refusal Cursor β} :
      round s c = .ok (.inl s') c' → c'.rest.length < c.rest.length → Ends round s' c' r →
      Ends round s c r

namespace Iteration

variable {i j : Iteration σ β} {s : σ}

/-- Rounds that go on pass a token, rounds that end pass what the loop asks for. -/
def Steady (l : β → Nat) (n : Nat) (i j : Iteration σ β) : Prop :=
  ∀ s c, Moves (Sum.elim (fun _ => 1) l) n c (i.round s) (j.round s)

theorem Steady.moves (h : Steady l n i j) (r : Nat) (s : σ) (c : Cursor) :
    Moves l n c (i.run r s) (j.run r s) := by
  induction r generalizing s c with
  | zero =>
    rw [i.run_zero, j.run_zero]
    exact moves_endOfScript
  | succ r ih =>
    rw [i.run_succ, j.run_succ]
    apply (h s c).bind
    rintro (s' | b) ts c' hts hl
    · exact (ih s' c').weaken (fun _ => Nat.sub_le _ _) (Nat.sub_le _ _)
    · exact moves_pure (Nat.sub_eq_zero_of_le hl)

/-- Rounds for each token left and one more are as good as any number. -/
theorem Steady.ends (h : Steady l n i i) {r : Nat} (hr : c.rest.length < r) (s : σ) :
    Ends i.round s c (i.run r s c) := by
  induction r generalizing s c with
  | zero => exact absurd hr (Nat.not_lt_zero _)
  | succ r ih =>
    rw [i.run_succ]
    cases he : i.round s c with
    | error e c' =>
      rw [bind_error he]
      exact .refused he
    | ok x c' =>
      rw [bind_ok he]
      obtain ⟨-, ts, hts, hl⟩ := (h s c).returned he
      cases x with
      | inr b => exact .done he
      | inl s' =>
        have hlt : c'.rest.length < c.rest.length := by
          have := hts.length
          have : 1 ≤ ts.length := hl
          omega
        exact .again he hlt (ih (by omega) s')

end Iteration

def chainRound (allowed : Op → Bool) (operand : Parser Expr) (left : Expr) :
    Parser (Expr ⊕ Expr) := do
  match operator? allowed (← peek) with
  | none => return .inr left
  | some op =>
    let _ ← advance
    let right ← operand
    return .inl (.arith left (.known op) right)

/-- Operands joined to the left. -/
def chainLoop (allowed : Op → Bool) (operand : Parser Expr) : Iteration Expr Expr where
  round := chainRound allowed operand
  run := chain allowed operand
  run_zero _ := rfl
  run_succ r left := by
    rw [chain, chainRound, bind_assoc]
    congr 1
    funext t
    cases operator? allowed t <;> simp

def itemRound (stop : Parser Bool) (item : Parser α) (items : Array α) :
    Parser (Array α ⊕ List α) := do
  if ← stop then return .inr items.toList
  let a ← item
  return .inl (items.push a)

/-- Items up to a stop. -/
def itemLoop (stop : Parser Bool) (item : Parser α) : Iteration (Array α) (List α) where
  round := itemRound stop item
  run := itemsUntil stop item
  run_zero _ := rfl
  run_succ r items := by
    rw [itemsUntil, itemRound, bind_assoc]
    congr 1
    funext b
    cases b <;> simp

def newlineRound : Parser (Unit ⊕ Unit) := do
  if (← peek).kind = .newLine then
    eatNewline
    return .inl ()
  else
    return .inr ()

/-- The newlines before a statement. -/
def newlineLoop : Iteration Unit Unit where
  round _ := newlineRound
  run r _ := skipNewlines r
  run_zero _ := rfl
  run_succ r _ := by
    rw [skipNewlines, newlineRound, bind_assoc]
    congr 1
    funext t
    split <;> simp

def statementRound (stop : Parser Bool) (statement : Parser Stmt) (statements : Array Stmt) :
    Parser (Array Stmt ⊕ Program) := do
  if ← stop then return .inr statements.toList
  if (← peek).kind = .newLine then
    eatNewline
    return .inl statements
  else
    let s ← statement
    return .inl (statements.push s)

/-- Statements, with newlines between them, up to a stop. -/
def statementLoop (stop : Parser Bool) (statement : Parser Stmt) :
    Iteration (Array Stmt) Program where
  round := statementRound stop statement
  run := statementsUntil stop statement
  run_zero _ := rfl
  run_succ r statements := by
    rw [statementsUntil, statementRound, bind_assoc]
    congr 1
    funext b
    cases b with
    | true => simp
    | false =>
      simp only [Bool.false_eq_true, if_false, bind_assoc]
      congr 1
      funext t
      split <;> simp

end Parser

end CommandScript
