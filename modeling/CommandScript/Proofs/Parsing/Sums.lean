import CommandScript.Proofs.Rendering

/-! # Long sums

A sum is read in a loop and takes no depth, however long it is. Its tree leans to the left and is as
high as the sum is long.
-/

namespace CommandScript

open Token

/-- The sum of ones with `n` signs between them. -/
def Expr.ones : Nat → Expr
  | 0 => .int 1
  | n + 1 => .arith (ones n) (.known .add) (.int 1)

namespace Expr

theorem height_ones (n : Nat) : (ones n).height = n + 1 := by
  induction n with
  | zero => rfl
  | succ n ih =>
    change max (ones n).height 1 + 1 = _
    rw [ih]
    omega

theorem isSum_ones (n : Nat) : (ones n).IsSum := by
  have h1 : (int 1).IsProduct := .leaf (.int (n := 1) (by decide +kernel))
  induction n with
  | zero => exact .product h1
  | succ n ih => exact .join ih rfl h1

/-- The tokens behind the first one of a sum. -/
def plusOnes (n : Nat) : List Token :=
  (List.replicate n [symbol "+", number "1"]).flatten

theorem tokens_ones (n : Nat) : (ones n).tokens = number "1" :: plusOnes n := by
  induction n with
  | zero => rfl
  | succ n ih =>
    rw [ones, tokens, ih, plusOnes, plusOnes, List.replicate_succ', List.flatten_append]
    rfl

end Expr

namespace Parser

variable {c c' : Cursor}

theorem stops_plusOnes {n : Nat} (hc : c.Passes (Expr.plusOnes n) c')
    (hp : Stops Op.isProduct c') : Stops Op.isProduct c := by
  cases n with
  | zero =>
    obtain rfl := hc.eq_of_nil
    exact hp
  | succ n =>
    obtain ⟨c₁, h₁, -⟩ := hc.uncons
    exact stops_of_operator (show c.Passes [symbol Op.add.lexeme] c₁ from h₁) rfl

theorem product_one {d : Nat} (hc : c.Passes [number "1"] c') (hs : Stops Op.isProduct c') :
    product (d + 1) c = .ok (.int 1) c' := by
  have ht : term (d + 1) c = .ok (.int 1) c' := by
    rw [term, bind_ok (peek_passes hc)]
    change (advance >>= fun _ => pure (Expr.int 1)) c = _
    rw [bind_ok (advance_passes hc)]
    rfl
  rw [product, bind_ok ht, bind_ok (rounds_apply c')]
  exact chain_stops hs (Nat.lt_succ_self _)

theorem chain_ones {d k m n : Nat} (hc : c.Passes (Expr.plusOnes n) c') (hp : Stops Op.isProduct c')
    (hs : Stops Op.isSum c') (hk : c.rest.length < k) :
    chain Op.isSum (product (d + 1)) k (Expr.ones m) c = .ok (Expr.ones (m + n)) c' := by
  induction n generalizing c k m with
  | zero =>
    obtain rfl := hc.eq_of_nil
    exact chain_stops hs hk
  | succ n ih =>
    obtain ⟨c₁, h₁, hc⟩ := hc.uncons
    obtain ⟨c₂, h₂, hc⟩ := hc.uncons
    have hl₁ := h₁.length
    have hl₂ := h₂.length
    simp only [List.length_singleton] at hl₁ hl₂
    have hp₂ := stops_plusOnes hc hp
    cases k with
    | zero => exact absurd hk (Nat.not_lt_zero _)
    | succ k =>
      have ho : operator? Op.isSum (symbol "+") = some .add := by decide
      rw [chain, bind_ok (peek_passes h₁), ho]
      dsimp only
      rw [bind_ok (advance_passes h₁), bind_ok (product_one h₂ hp₂)]
      have hi := ih (m := m + 1) (k := k) hc (by omega)
      rw [Nat.add_assoc, Nat.add_comm 1] at hi
      exact hi

theorem sum_ones {d n : Nat} (hc : c.Passes (Expr.ones n).tokens c') (hp : Stops Op.isProduct c')
    (hs : Stops Op.isSum c') : sum (d + 1) c = .ok (Expr.ones n) c' := by
  rw [Expr.tokens_ones] at hc
  obtain ⟨c₁, h₁, hc⟩ := hc.uncons
  rw [sum, bind_ok (product_one h₁ (stops_plusOnes hc hp)), bind_ok (rounds_apply c₁)]
  have h := chain_ones (d := d) (m := 0) hc hp hs (Nat.lt_succ_self _)
  rwa [Nat.zero_add] at h

theorem plainStatement_ones {d n : Nat} {x : String}
    (hc : c.Passes (name x :: symbol "=" :: ((Expr.ones n).tokens ++ [newline])) c') :
    plainStatement (d + 1) c = .ok (.assign x (Expr.ones n) c.line) c' := by
  obtain ⟨c₁, h₁, hc⟩ := hc.uncons
  obtain ⟨c₂, h₂, hc⟩ := hc.uncons
  obtain ⟨c₃, h₃, h₄⟩ := hc.split
  have he : accept "=" c₁ = .ok true c₂ := accept_passes "=" h₂
  have hs := sum_ones (d := d) h₃ (stops_of_kind h₄ (by simp)) (stops_of_kind h₄ (by simp))
  rw [plainStatement, bind_ok (get_apply c), bind_ok (advance_passes h₁), bind_ok he, if_pos rfl,
    bind_ok hs, bind_ok (eatNewline_passes h₄)]
  rfl

theorem statement_ones {d n : Nat} {x : String}
    (hc : c.Passes (name x :: symbol "=" :: ((Expr.ones n).tokens ++ [newline])) c') :
    statement (d + 2) c = .ok (.assign x (Expr.ones n) c.line) c' := by
  obtain ⟨c₁, h₁, -⟩ := hc.uncons
  rw [statement, bind_ok (rounds_apply c),
    bind_ok (skipNewlines_passes h₁ (show (name x).kind ≠ .newLine by simp) _),
    bind_ok (peek_passes h₁)]
  exact plainStatement_ones hc

theorem program_ones {d n : Nat} {x : String}
    (hc : c.rest = name x :: symbol "=" :: ((Expr.ones n).tokens ++ [newline])) :
    ∃ c', program (d + 2) c = .ok [.assign x (Expr.ones n) c.line] c' := by
  obtain ⟨c', hp, hr⟩ : ∃ c', c.Passes c.rest c' ∧ c'.rest = [] :=
    ⟨⟨[], _, _⟩, ⟨(List.append_nil _).symm, rfl, rfl⟩, rfl⟩
  rw [hc] at hp
  obtain ⟨c₁, h₁, -⟩ := hp.uncons
  have hl : c.rest.length = (Expr.ones n).tokens.length + 1 + 1 + 1 := by
    rw [hc]
    simp
  have hq : atEnd c = .ok false c := by
    rw [atEnd_apply, decide_eq_false]
    omega
  have hq' : atEnd c' = .ok true c' := by
    rw [atEnd_apply, hr]
    rfl
  refine ⟨c', ?_⟩
  rw [program, bind_ok (rounds_apply c), hl, statementsUntil_statement hq h₁ (by simp),
    bind_ok (statement_ones hp), statementsUntil_stop hq']
  rfl

end Parser

/-- The text of an assignment of a sum. -/
def Expr.onesText (n : Nat) : String :=
  lineText (name "s" :: symbol "=" :: (ones n).tokens)

/-- A sum of any length parses. -/
theorem parse_ones (file : Option String) (n : Nat) :
    parse file (Expr.onesText n) = .ok [.assign "s" (.ones n) 1] := by
  have hx : (name "s").WellFormed :=
    ⟨(⟨by decide, by simp⟩ : Text.IsWord ['s']), (by decide : "s" ∉ keywords)⟩
  have hw : ∀ t ∈ name "s" :: symbol "=" :: (Expr.ones n).tokens, t.WellFormed :=
    List.forall_mem_cons.mpr ⟨hx, List.forall_mem_cons.mpr
      ⟨Parser.equals_wellFormed, (Expr.isSum_ones n).sum.2⟩⟩
  have hl := lex_lineText hw
  obtain ⟨c, hc⟩ := Parser.program_ones (d := 163) (c := .start (Expr.onesText n)) hl
  exact parseWithin_of_ok hc

end CommandScript
