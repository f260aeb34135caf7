import CommandScript.Proofs.Parsing.OpenBlocks
import CommandScript.Proofs.Parsing.SourceLines

/-! # The end of a refused script

An incomplete script is refused at its end: at most the newline that the lexer adds is left, and
blank lines do not help. So a script that ends in a newline is refused for good only before that.
-/

namespace CommandScript

open Token

namespace Parser

variable {α β : Type} {c c' c₁ : Cursor} {t : Token} {d k n m : Nat} {p : Parser α} {e : Refusal}

/-- If the parser finds its input incomplete, it is at the end of the script, and it still finds
its input incomplete with a blank line after it. -/
def Spent (c : Cursor) (p : Parser α) : Prop :=
  ∀ e c', p c = .error e c' → e.incomplete = true →
    c'.rest.length ≤ 1 ∧ ∃ e' c₁, p (c.followed [newline]) = .error e' c₁ ∧ e'.incomplete = true

theorem Settled.spent (hp : Settled c p) : Spent c p := by
  intro e c' h hi
  rw [hp e c' h] at hi
  cases hi

theorem Spent.bind_pure {g : α → β} (hp : Spent c p) : Spent c (p >>= fun a => pure (g a)) := by
  intro e c' h hi
  cases he : p c with
  | ok a c₁ =>
    rw [bind_ok he] at h
    cases h
  | error e₁ c₁ =>
    rw [bind_error he] at h
    cases h
    obtain ⟨hl, e', c₂, h₂, hi'⟩ := hp e c' he hi
    exact ⟨hl, e', c₂, bind_error h₂, hi'⟩

theorem Spent.of_eq {p q : Parser α} (h : ∀ us, p (c.followed us) = q (c₁.followed us))
    (hq : Spent c₁ q) : Spent c p := by
  intro e c' he hi
  have h₀ := h []
  rw [Cursor.followed_nil, Cursor.followed_nil] at h₀
  obtain ⟨hl, e', c₂, h₂, hi'⟩ := hq e c' (h₀ ▸ he) hi
  exact ⟨hl, e', c₂, (h [newline]).trans h₂, hi'⟩

/-- The parser of the statements in a block is at the end when it finds them incomplete. -/
def SpentStatement (p : Parser Stmt) : Prop :=
  ∀ {c c' : Cursor} {t : Token}, c.WellFormed → c.Ended → c.Passes [t] c' → t.kind ≠ .newLine →
    Spent c p

/-! ## Blocks -/

/-- The test of a loop moves nothing and lets the loop go on only at a token, whatever follows. -/
def Watches (q : Parser Bool) : Prop :=
  ∀ {c c' : Cursor}, q c = .ok false c' →
    c' = c ∧ (∃ t c₁, c.Passes [t] c₁) ∧ ∀ us, q (c.followed us) = .ok false (c.followed us)

theorem atEnd_watches : Watches atEnd := by
  intro c c' h
  rw [atEnd_apply] at h
  obtain ⟨hd, rfl⟩ := EStateM.Result.ok.inj h
  have hl : 1 < c.rest.length := Nat.lt_of_not_le (of_decide_eq_false hd)
  refine ⟨rfl, ?_, fun us => ?_⟩
  · rcases c.exists_passes with hc | hc
    · simp [hc] at hl
    · exact hc
  · rw [atEnd_apply, decide_eq_false]
    rw [Cursor.followed_rest, List.length_append]
    omega

theorem atTerminator_watches (value : String) : Watches (atTerminator value) := by
  intro c c' h
  rcases c.exists_passes with hc | ⟨t, c₁, hc⟩
  · rw [atTerminator_nil hc] at h
    cases h
  · rw [atTerminator_passes value hc] at h
    split_ifs at h with ht hz <;> cases h
    refine ⟨rfl, ⟨t, c₁, hc⟩, fun us => ?_⟩
    rw [atTerminator_passes value (hc.followed us), if_neg ht, if_neg (by simp [hz])]

theorem statementsUntil_spent {q : Parser Bool} {p : Parser Stmt} {ss ss' : Array Stmt}
    (hq : Watches q)
    (hz : ∀ {c : Cursor} {e c' m ss}, c.Ended → q c = .error e c' →
      (c.followed [newline]).rest.length < m → c'.rest.length ≤ 1 ∧
        ∃ e' c₁, statementsUntil q p m ss (c.followed [newline]) = .error e' c₁ ∧
          e'.incomplete = true)
    (hp : SpentStatement p) (ha : ∀ w, AlikeStatement w p) (hr : ReadsStatement k p)
    (hw : c.WellFormed) (he : c.Ended) (hn : c.rest.length < n)
    (hm : (c.followed [newline]).rest.length < m)
    (h : statementsUntil q p n ss c = .error e c') (hi : e.incomplete = true) :
    c'.rest.length ≤ 1 ∧
      ∃ e' c₁, statementsUntil q p m ss' (c.followed [newline]) = .error e' c₁ ∧
        e'.incomplete = true := by
  induction n generalizing c m ss ss' with
  | zero => exact absurd hn (Nat.not_lt_zero _)
  | succ n ih =>
    cases hb : q c with
    | error e₁ c₁ =>
      rw [statementsUntil, bind_error hb] at h
      cases h
      exact hz he hb hm
    | ok b c₁ =>
      cases b with
      | true =>
        rw [statementsUntil_stop hb] at h
        cases h
      | false =>
        obtain ⟨rfl, ⟨t, c₂, hc⟩, goes⟩ := hq hb
        obtain ⟨m, rfl⟩ := Nat.exists_eq_succ_of_ne_zero (Nat.ne_of_gt (Nat.zero_lt_of_lt hm))
        have hl := hc.length
        have hl' := (hc.followed [newline]).length
        simp only [List.length_singleton] at hl hl'
        by_cases hk : t.kind = .newLine
        · rw [statementsUntil_newline hb hc hk] at h
          rw [statementsUntil_newline (goes _) (hc.followed _) hk]
          exact ih (hc.wellFormed hw) (he.of_passes hc) (by omega) (by omega) h
        · rw [statementsUntil_statement hb hc hk] at h
          rw [statementsUntil_statement (goes _) (hc.followed _) hk]
          cases hs : p c₁ with
          | error e₁ c₃ =>
            rw [bind_error hs] at h
            cases h
            obtain ⟨hl, e', c₄, h₄, hi'⟩ := hp hw he hc hk e c' hs hi
            exact ⟨hl, e', c₄, bind_error h₄, hi'⟩
          | ok s c₃ =>
            rw [bind_ok hs] at h
            rw [bind_ok (AlikeStatement.followed_ok (ha _) hw hc hk hs)]
            obtain ⟨ts, h₃, -, hg⟩ := (hr hw hc hk).ok hs
            have h2 := two_le_length hg
            have hl₃ := h₃.length
            have hl₃' := (h₃.followed [newline]).length
            exact ih (h₃.wellFormed hw) (he.of_passes h₃) (by omega) (by omega) h

theorem atTerminator_refuses {value : String} {p : Parser Stmt} {ss : Array Stmt} (he : c.Ended)
    (h : atTerminator value c = .error e c') (hm : (c.followed [newline]).rest.length < m) :
    c'.rest.length ≤ 1 ∧ ∃ e' c₁,
      statementsUntil (atTerminator value) p m ss (c.followed [newline]) = .error e' c₁ ∧
        e'.incomplete = true := by
  -- at the last newline the block is refused
  have refuses : ∀ {c : Cursor} {m : Nat}, c.rest = [newline] → ∃ e' c₁,
      statementsUntil (atTerminator value) p (m + 1) ss c = .error e' c₁ ∧
        e'.incomplete = true := by
    intro c m hc
    obtain ⟨c₁, h₁⟩ := Cursor.passes_of_cons hc
    have hz := h₁.rest_eq hc
    have hb := atTerminator_passes value h₁
    rw [if_neg (by decide), if_pos hz] at hb
    exact ⟨_, _, by rw [statementsUntil, bind_error hb], rfl⟩
  obtain ⟨m, rfl⟩ := Nat.exists_eq_succ_of_ne_zero (Nat.ne_of_gt (Nat.zero_lt_of_lt hm))
  rcases c.exists_passes with hc | ⟨t, c₁, hc⟩
  · rw [atTerminator_nil hc] at h
    cases h
    exact ⟨by simp [hc], refuses (by simp [hc])⟩
  · have hb := atTerminator_passes value hc
    rw [h] at hb
    split_ifs at hb with ht hz
    cases hb
    obtain rfl := he.eq_newline hc hz
    refine ⟨by simp [hc.rest, hz], ?_⟩
    have hf := atTerminator_passes value (hc.followed [newline])
    rw [if_neg (by decide), if_neg (by simp)] at hf
    rw [statementsUntil_newline hf (hc.followed _) rfl]
    obtain ⟨m, rfl⟩ : ∃ j, m = j + 1 := ⟨m - 1, by simp [hc.rest] at hm; omega⟩
    exact refuses (by simp [hz])

theorem block_spent {p : Parser Stmt} (value : String) (hp : SpentStatement p)
    (ha : ∀ w, AlikeStatement w p) (hr : ReadsStatement k p) (hw : c.WellFormed) (he : c.Ended) :
    Spent c (block p value) := by
  intro e c' h hi
  rw [block, bind_ok (rounds_apply c)] at h
  cases hs : statementsUntil (atTerminator value) p (c.rest.length + 1) #[] c with
  | error e₁ c₁ =>
    rw [bind_error hs] at h
    cases h
    obtain ⟨hl, e', c₂, h₂, hi'⟩ := statementsUntil_spent (atTerminator_watches value)
      atTerminator_refuses hp ha hr hw he (Nat.lt_succ_self _) (Nat.lt_succ_self _) hs hi
    refine ⟨hl, e', c₂, ?_, hi'⟩
    rw [block, bind_ok (rounds_apply _), bind_error h₂]
  | ok r c₁ =>
    rw [bind_ok hs] at h
    have hx : Settled c₁ (do expect value; return Stmt.block r) :=
      (settled_expect_of_ends hs).bind fun _ _ _ => settled_pure _
    rw [hx e c' h] at hi
    cases hi

theorem statement_spent (d : Nat) : SpentStatement (statement d) := by
  induction d with
  | zero => exact fun _ _ _ _ => settled_statement_zero.spent
  | succ d ih =>
    intro c c' t hw he hc hk
    rcases statement_opens d hw he hc hk with hs | ⟨value, -, c₁, f, hw₁, he₁, hb⟩
    · exact hs.spent
    · exact .of_eq hb (block_spent value ih (fun w => statement_alike d) (statement_reads d)
        hw₁ he₁).bind_pure

theorem program_spent (d : Nat) (hw : c.WellFormed) (he : c.Ended) : Spent c (program d) := by
  intro e c' h hi
  rw [program, bind_ok (rounds_apply c)] at h
  obtain ⟨hl, e', c₁, h₁, hi'⟩ := statementsUntil_spent atEnd_watches
    (fun _ hq => by rw [atEnd_apply] at hq; cases hq) (statement_spent d)
    (fun w => statement_alike d) (statement_reads d) hw he (Nat.lt_succ_self _)
    (Nat.lt_succ_self _) h hi
  refine ⟨hl, e', c₁, ?_, hi'⟩
  rw [program, bind_ok (rounds_apply _), h₁]

end Parser

open CommandScript.Parser

variable {d : Nat} {script reason : String} {line : Int} {c : Cursor}

theorem script_blames (d : Nat) (script : String) : Blames (.start script) (program d) :=
  program_blames d (Cursor.start_wellFormed script) (Cursor.start_ended script)

/-- An incomplete script is refused at its end. -/
theorem length_rest_of_incomplete
    (h : program d (.start script) = .error (.malformed reason true line) c) :
    c.rest.length ≤ 1 :=
  (program_spent d (Cursor.start_wellFormed script) (Cursor.start_ended script) _ _ h rfl).1

/-- A script that ends in a newline is refused for good only before that newline. -/
theorem length_rest_of_refused
    (h : program d (.start (script ++ "\n")) = .error (.malformed reason false line) c) :
    2 ≤ c.rest.length := by
  have hs : Cursor.start (script ++ "\n") = (Cursor.start script).followed [newline] := by
    rw [← String.append_empty (s := script ++ "\n"), Cursor.start_append]
    rfl
  have hw := Cursor.start_wellFormed script
  have he := Cursor.start_ended script
  cases hp : program d (.start script) with
  | ok p c₁ =>
    -- an empty script after one that parses parses as well
    have ha := program_append hp ""
    have h₀ : program d (.start "") = .ok [] (.start "") := rfl
    rw [← String.append_empty (s := script ++ "\n"), ha.ok h₀] at h
    cases h
  | error e c₁ =>
    cases hi : e.incomplete with
    | true =>
      obtain ⟨-, e', c₂, h₂, hi'⟩ := program_spent d hw he e c₁ hp hi
      rw [hs, h₂] at h
      cases h
      cases hi'
    | false =>
      have hr := program_refused hi [newline] hw hp
      rw [hs, hr] at h
      cases h
      obtain ⟨-, -, hn⟩ := (script_blames d script).refused hp
      have hz : c₁.rest ≠ [] := fun hz => nomatch hn hz
      have := List.length_pos_of_ne_nil hz
      simp only [Cursor.followed_rest, List.length_append, List.length_singleton]
      omega

theorem newlines_rest_of_refused
    (h : program d (.start (script ++ "\n")) = .error (.malformed reason false line) c) :
    2 ≤ newlines c.rest := by
  obtain ⟨⟨ts, hts⟩, -, -⟩ := (script_blames d _).refused h
  obtain ⟨us, hu⟩ := exists_lex_eq script
  have hs : lex (script ++ "\n") = us ++ [newline, newline] := by
    rw [← String.append_empty (s := script ++ "\n"), lex_append_newline, hu, List.append_assoc]
    rfl
  obtain ⟨vs, hv⟩ : [newline, newline] <:+ c.rest :=
    List.suffix_of_suffix_length_le ⟨us, hs.symm⟩ ⟨ts, hts.rest.symm⟩ (length_rest_of_refused h)
  rw [← hv, newlines_append]
  exact Nat.le_add_left 2 _

end CommandScript
