import CommandScript.Proofs.Parsing.OpenBlocks

/-! # Incomplete scripts

A script is refused as incomplete only inside open blocks. The words that close them, one to a
line, mend it. So incomplete scripts are exactly those that fail and that more text can mend.
-/

namespace CommandScript

open Token

namespace Parser

variable {α β : Type} {c c' c₁ : Cursor} {t : Token} {d k n m : Nat} {p : Parser α}
  {e : Refusal}

/-- If the parser finds its input incomplete, there is text with which it succeeds, right before
the end of a line. -/
def Mendable (c : Cursor) (p : Parser α) : Prop :=
  ∀ e c', p c = .error e c' → e.incomplete = true →
    ∃ s a c₁, p (c.followed (lex s)) = .ok a c₁ ∧ c₁.rest = [newline]

theorem Settled.mendable (hp : Settled c p) : Mendable c p := by
  intro e c' h hi
  rw [hp e c' h] at hi
  cases hi

theorem Mendable.bind_pure {g : α → β} (hp : Mendable c p) :
    Mendable c (p >>= fun a => pure (g a)) := by
  intro e c' h hi
  cases he : p c with
  | ok a c₁ =>
    rw [bind_ok he] at h
    cases h
  | error e₁ c₁ =>
    rw [bind_error he] at h
    cases h
    obtain ⟨s, a, c₂, h₂, hr⟩ := hp e c' he hi
    exact ⟨s, g a, c₂, bind_ok h₂, hr⟩

theorem lex_terminator {value : String} (hv : value ∈ terminators) :
    lex value = [word value, newline] := by
  simp only [terminators, List.mem_cons, List.not_mem_nil, or_false] at hv
  rcases hv with rfl | rfl | rfl <;> decide

theorem followed_followed (c : Cursor) (us vs : List Token) :
    (c.followed us).followed vs = c.followed (us ++ vs) := by
  simp [Cursor.followed, Cursor.within]

theorem followed_wellFormed (hw : c.WellFormed) (s : String) :
    (c.followed (lex s)).WellFormed := by
  intro t ht
  rw [Cursor.followed_rest, List.mem_append] at ht
  exact ht.elim (hw t) (lex_wellFormed s t)

section Blocks

variable {q : Parser Stmt} {value : String} {ss : Array Stmt}

theorem statementsUntil_closes (hv : value ∈ terminators)
    (hc : c.rest = [word value, newline] ∨ c.rest = [newline, word value, newline])
    (hm : c.rest.length < m) :
    ∃ r c₁, statementsUntil (atTerminator value) q m ss c = .ok r c₁ ∧
      c₁.rest = [word value, newline] := by
  have stops : ∀ {c : Cursor} {m}, c.rest = [word value, newline] →
      ∃ r c₁, statementsUntil (atTerminator value) q (m + 1) ss c = .ok r c₁ ∧
        c₁.rest = [word value, newline] := by
    intro c m hc
    obtain ⟨c₁, h₁⟩ := Cursor.passes_of_cons hc
    have ha := atTerminator_passes value h₁
    rw [if_pos hv] at ha
    exact ⟨_, c, statementsUntil_stop ha, hc⟩
  obtain ⟨m, rfl⟩ := Nat.exists_eq_succ_of_ne_zero (Nat.ne_of_gt (Nat.zero_lt_of_lt hm))
  rcases hc with hc | hc
  · exact stops hc
  · obtain ⟨c₁, h₁⟩ := Cursor.passes_of_cons hc
    have hr := h₁.rest_eq hc
    have ha := atTerminator_passes value h₁
    rw [if_neg (by decide), if_neg (by simp [hr])] at ha
    rw [statementsUntil_newline ha h₁ rfl]
    obtain ⟨m, rfl⟩ : ∃ j, m = j + 1 := ⟨m - 1, by simp [hc] at hm; omega⟩
    exact stops hr

/-- The parser of the statements in a block mends them. -/
def MendableStatement (p : Parser Stmt) : Prop :=
  ∀ {c c' : Cursor} {t : Token}, c.WellFormed → c.Ended → c.Passes [t] c' → t.kind ≠ .newLine →
    Mendable c p

/-- An open block can be closed by its own word, below the words that close the blocks in it. -/
theorem statementsUntil_mendable (hv : value ∈ terminators) (hq : MendableStatement q)
    (ha : ∀ w, AlikeStatement w q) (hr : ReadsStatement k q) (hw : c.WellFormed) (he : c.Ended)
    (hn : c.rest.length < n) (h : statementsUntil (atTerminator value) q n ss c = .error e c')
    (hi : e.incomplete = true) :
    ∃ s, ∀ m ss', (c.followed (lex s)).rest.length < m →
      ∃ r c₁, statementsUntil (atTerminator value) q m ss' (c.followed (lex s)) = .ok r c₁ ∧
        c₁.rest = [word value, newline] := by
  induction n generalizing c ss with
  | zero => exact absurd hn (Nat.not_lt_zero _)
  | succ n ih =>
    have hx := lex_terminator hv
    rcases c.exists_passes with hc | ⟨t, c₁, hc⟩
    · refine ⟨value, fun m ss' hm => statementsUntil_closes hv (Or.inl ?_) hm⟩
      simp [hc, hx]
    have hb := atTerminator_passes value hc
    have hl := hc.length
    simp only [List.length_singleton] at hl
    split_ifs at hb with ht hz
    · rw [statementsUntil_stop hb] at h
      cases h
    · have hnl := he.eq_newline hc hz
      refine ⟨value, fun m ss' hm => statementsUntil_closes hv (Or.inr ?_) hm⟩
      simp [hc.rest, hz, hx, hnl]
    -- the block goes on, alone and with text after it
    have goes : ∀ us, atTerminator value (c.followed us) = .ok false (c.followed us) := by
      intro us
      have hb := atTerminator_passes value (hc.followed us)
      rwa [if_neg ht, if_neg (by simp [hz])] at hb
    by_cases hk : t.kind = .newLine
    · rw [statementsUntil_newline hb hc hk] at h
      obtain ⟨s, hs⟩ := ih (hc.wellFormed hw) (he.of_passes hc) (by omega) h
      refine ⟨s, fun m ss' hm => ?_⟩
      obtain ⟨m, rfl⟩ := Nat.exists_eq_succ_of_ne_zero (Nat.ne_of_gt (Nat.zero_lt_of_lt hm))
      have hl' := (hc.followed (lex s)).length
      simp only [List.length_singleton] at hl'
      rw [statementsUntil_newline (goes _) (hc.followed _) hk]
      exact hs m ss' (by omega)
    · rw [statementsUntil_statement hb hc hk] at h
      cases hs : q c with
      | ok s c₂ =>
        rw [bind_ok hs] at h
        obtain ⟨ts, h₂, -, hg⟩ := (hr hw hc hk).ok hs
        have h2 := two_le_length hg
        have hl := h₂.length
        obtain ⟨x, hx⟩ := ih (h₂.wellFormed hw) (he.of_passes h₂) (by omega) h
        refine ⟨x, fun m ss' hm => ?_⟩
        obtain ⟨m, rfl⟩ := Nat.exists_eq_succ_of_ne_zero (Nat.ne_of_gt (Nat.zero_lt_of_lt hm))
        have hl' := (h₂.followed (lex x)).length
        rw [statementsUntil_statement (goes _) (hc.followed _) hk,
          bind_ok (AlikeStatement.followed_ok (ha _) hw hc hk hs)]
        exact hx m _ (by omega)
      | error e₁ c₂ =>
        rw [bind_error hs] at h
        cases h
        obtain ⟨x, s, c₃, h₃, hz₃⟩ := hq hw he hc hk e c' hs hi
        refine ⟨x ++ "\n" ++ value, fun m ss' hm => ?_⟩
        obtain ⟨m, rfl⟩ := Nat.exists_eq_succ_of_ne_zero (Nat.ne_of_gt (Nat.zero_lt_of_lt hm))
        have hw' := followed_wellFormed hw x
        have hc' := hc.followed (lex x)
        obtain ⟨ts, h₄, -, hg⟩ := (hr hw' hc' hk).ok h₃
        have h2 := two_le_length hg
        have hl' := (h₄.followed (lex value)).length
        rw [statementsUntil_statement (goes _) (hc.followed _) hk]
        rw [lex_append_newline, ← followed_followed] at hm ⊢
        rw [bind_ok (AlikeStatement.followed_ok (ha _) hw' hc' hk h₃)]
        exact statementsUntil_closes hv (Or.inr (by simp [hz₃, hx])) (by omega)

theorem block_mendable (hv : value ∈ terminators) (hq : MendableStatement q)
    (ha : ∀ w, AlikeStatement w q) (hr : ReadsStatement k q) (hw : c.WellFormed) (he : c.Ended) :
    Mendable c (block q value) := by
  intro e c' h hi
  rw [block, bind_ok (rounds_apply c)] at h
  cases hs : statementsUntil (atTerminator value) q (c.rest.length + 1) #[] c with
  | error e₁ c₁ =>
    rw [bind_error hs] at h
    cases h
    obtain ⟨s, hs⟩ := statementsUntil_mendable hv hq ha hr hw he (Nat.lt_succ_self _) hs hi
    obtain ⟨r, c₂, h₂, hz⟩ := hs _ #[] (Nat.lt_succ_self _)
    obtain ⟨c₃, h₃⟩ := Cursor.passes_of_cons hz
    have hx := expect_passes value h₃
    rw [if_pos rfl] at hx
    refine ⟨s, .block r, c₃, ?_, h₃.rest_eq hz⟩
    rw [block, bind_ok (rounds_apply _), bind_ok h₂, bind_ok hx]
    rfl
  | ok r c₁ =>
    rw [bind_ok hs] at h
    have hx : Settled c₁ (do expect value; return Stmt.block r) :=
      (settled_expect_of_ends hs).bind fun _ _ _ => settled_pure _
    rw [hx e c' h] at hi
    cases hi

end Blocks

theorem Mendable.of_eq {p q : Parser α} (h : ∀ us, p (c.followed us) = q (c₁.followed us))
    (hq : Mendable c₁ q) : Mendable c p := by
  intro e c' he hi
  have h₀ := h []
  rw [Cursor.followed_nil, Cursor.followed_nil] at h₀
  obtain ⟨s, a, c₂, h₂, hz⟩ := hq e c' (h₀ ▸ he) hi
  exact ⟨s, a, c₂, (h (lex s)).trans h₂, hz⟩

theorem statement_mendable (d : Nat) : MendableStatement (statement d) := by
  induction d with
  | zero => exact fun _ _ _ _ => settled_statement_zero.mendable
  | succ d ih =>
    intro c c' t hw he hc hk
    rcases statement_opens d hw he hc hk with hs | ⟨value, hv, c₁, f, hw₁, he₁, hb⟩
    · exact hs.mendable
    · exact .of_eq hb (block_mendable hv ih (fun w => statement_alike d) (statement_reads d)
        hw₁ he₁).bind_pure

theorem statementsUntil_atEnd_mendable {ss : Array Stmt} (hw : c.WellFormed) (he : c.Ended)
    (hn : c.rest.length < n) (h : statementsUntil atEnd (statement d) n ss c = .error e c')
    (hi : e.incomplete = true) :
    ∃ s, ∀ m ss', (c.followed (lex s)).rest.length < m →
      ∃ r c₁, statementsUntil atEnd (statement d) m ss' (c.followed (lex s)) = .ok r c₁ := by
  induction n generalizing c ss with
  | zero => exact absurd hn (Nat.not_lt_zero _)
  | succ n ih =>
    rcases c.exists_passes with hc | ⟨t, c₁, hc⟩
    · have ha : atEnd c = .ok true c := by rw [atEnd_apply, hc]; rfl
      rw [statementsUntil_stop ha] at h
      cases h
    by_cases hz : c₁.rest = []
    · rw [statementsUntil_stop (atEnd_true hc hz)] at h
      cases h
    have hl := hc.length
    simp only [List.length_singleton] at hl
    have hb := atEnd_false hc hz
    have goes : ∀ us, atEnd (c.followed us) = .ok false (c.followed us) :=
      fun us => atEnd_false (hc.followed us) (by simp [hz])
    by_cases hk : t.kind = .newLine
    · rw [statementsUntil_newline hb hc hk] at h
      obtain ⟨s, hs⟩ := ih (hc.wellFormed hw) (he.of_passes hc) (by omega) h
      refine ⟨s, fun m ss' hm => ?_⟩
      obtain ⟨m, rfl⟩ := Nat.exists_eq_succ_of_ne_zero (Nat.ne_of_gt (Nat.zero_lt_of_lt hm))
      have hl' := (hc.followed (lex s)).length
      simp only [List.length_singleton] at hl'
      rw [statementsUntil_newline (goes _) (hc.followed _) hk]
      exact hs m ss' (by omega)
    · rw [statementsUntil_statement hb hc hk] at h
      cases hs : statement d c with
      | ok s c₂ =>
        rw [bind_ok hs] at h
        obtain ⟨ts, h₂, -, hg⟩ := (statement_reads d hw hc hk).ok hs
        have h2 := two_le_length hg
        have hl := h₂.length
        obtain ⟨x, hx⟩ := ih (h₂.wellFormed hw) (he.of_passes h₂) (by omega) h
        refine ⟨x, fun m ss' hm => ?_⟩
        obtain ⟨m, rfl⟩ := Nat.exists_eq_succ_of_ne_zero (Nat.ne_of_gt (Nat.zero_lt_of_lt hm))
        have hl' := (h₂.followed (lex x)).length
        rw [statementsUntil_statement (goes _) (hc.followed _) hk,
          bind_ok (AlikeStatement.followed_ok (statement_alike d) hw hc hk hs)]
        exact hx m _ (by omega)
      | error e₁ c₂ =>
        rw [bind_error hs] at h
        cases h
        obtain ⟨x, s, c₃, h₃, hz₃⟩ := statement_mendable d hw he hc hk e c' hs hi
        refine ⟨x, fun m ss' hm => ?_⟩
        obtain ⟨m, rfl⟩ := Nat.exists_eq_succ_of_ne_zero (Nat.ne_of_gt (Nat.zero_lt_of_lt hm))
        obtain ⟨ts, h₄, -, hg⟩ :=
          (statement_reads d (followed_wellFormed hw x) (hc.followed (lex x)) hk).ok h₃
        have h2 := two_le_length hg
        have hl' := h₄.length
        obtain ⟨m, rfl⟩ : ∃ j, m = j + 1 := ⟨m - 1, by omega⟩
        have ha : atEnd c₃ = .ok true c₃ := by rw [atEnd_apply, hz₃]; rfl
        rw [statementsUntil_statement (goes _) (hc.followed _) hk, bind_ok h₃,
          statementsUntil_stop ha]
        exact ⟨_, c₃, rfl⟩

end Parser

open CommandScript.Parser

variable {calls : Nat} {file : Option String} {script : String}

/-- An incomplete script can be completed below. -/
theorem exists_completion {reason : String} {line : Int}
    (h : parseWithin calls file script =
      .error (.fault ⟨.malformed reason true, some line, file⟩)) :
    ∃ s p, parseWithin calls file (script ++ "\n" ++ s) = .ok p := by
  obtain ⟨e, c, hc, he⟩ := parseWithin_eq_error.mp h
  have hi : e.incomplete = true := by
    cases e with
    | malformed =>
      cases he
      rfl
    | tooDeep => cases he
  rw [program, bind_ok (rounds_apply _)] at hc
  obtain ⟨s, hs⟩ := statementsUntil_atEnd_mendable (Cursor.start_wellFormed script)
    (Cursor.start_ended script) (Nat.lt_succ_self _) hc hi
  obtain ⟨p, c₁, hp⟩ := hs _ #[] (Nat.lt_succ_self _)
  refine ⟨s, p, parseWithin_eq_ok.mpr ⟨c₁, ?_⟩⟩
  rw [Cursor.start_append, program, bind_ok (rounds_apply _), hp]

/-- A script is refused as incomplete exactly if it does not parse but does with more text below,
and a script refused for good is refused in the same words whatever is below. -/
theorem incomplete_iff_completable (calls : Nat) (file : Option String) (script : String)
    (ho : parseWithin calls file script ≠ .error .overflow) :
    ((∃ reason line, parseWithin calls file script =
        .error (.fault ⟨.malformed reason true, some line, file⟩)) ↔
      (∀ p, parseWithin calls file script ≠ .ok p) ∧
        ∃ s n p, parseWithin n file (script ++ "\n" ++ s) = .ok p) ∧
    ∀ reason line, parseWithin calls file script =
        .error (.fault ⟨.malformed reason false, some line, file⟩) →
      ∀ s, parseWithin calls file (script ++ "\n" ++ s) =
        .error (.fault ⟨.malformed reason false, some line, file⟩) := by
  have final : ∀ reason line, parseWithin calls file script =
        .error (.fault ⟨.malformed reason false, some line, file⟩) →
      ∀ s, parseWithin calls file (script ++ "\n" ++ s) =
        .error (.fault ⟨.malformed reason false, some line, file⟩) := by
    intro reason line h s
    apply parseWithin_append_refused h
    rintro f hf
    cases hf
    rfl
  refine ⟨⟨?_, ?_⟩, final⟩
  · rintro ⟨reason, line, h⟩
    obtain ⟨s, p, hs⟩ := exists_completion h
    constructor
    · intro q hq
      rw [h] at hq
      cases hq
    · exact ⟨s, calls, p, hs⟩
  · rintro ⟨hp, s, n, p, hs⟩
    rcases parseWithin_cases calls file script with ⟨q, h⟩ | ⟨reason, incomplete, line, h⟩ | h
    · exact absurd h (hp q)
    · cases incomplete with
      | true => exact ⟨reason, line, h⟩
      | false =>
        -- refused for good, the script would be refused with the text that mends it
        have hr := final reason line h s
        rcases parseWithin_of_derives calls file (derives_of_parseWithin hs) with hd | hd
        · rw [hr] at hd
          cases hd
        · rw [hr] at hd
          cases hd
    · exact absurd h ho

/-- A loop with an open condition in it is incomplete, since text can close both. -/
theorem incomplete_iff_completable_open_blocks :
    parseWithin 24 none "While 1 < 2\nIf 3 > x" ≠ .error .overflow ∧
    (∀ p, parseWithin 24 none "While 1 < 2\nIf 3 > x" ≠ .ok p) ∧
    ∃ s n p, parseWithin n none ("While 1 < 2\nIf 3 > x" ++ "\n" ++ s) = .ok p := by
  have hd : (parseWithin 24 none "While 1 < 2\nIf 3 > x").map (fun _ => ()) =
      .error (.fault ⟨.malformed "Unexpected end of script" true, some 3, none⟩) := by
    decide +kernel
  have hi : parseWithin 24 none "While 1 < 2\nIf 3 > x" =
      .error (.fault ⟨.malformed "Unexpected end of script" true, some 3, none⟩) := by
    cases h : parseWithin 24 none "While 1 < 2\nIf 3 > x" with
    | ok p => rw [h] at hd; cases hd
    | error halt => rw [h] at hd; cases hd; rfl
  have ho : parseWithin 24 none "While 1 < 2\nIf 3 > x" ≠ .error .overflow := by
    rw [hi]
    exact fun h => nomatch h
  exact ⟨ho, (incomplete_iff_completable 24 none "While 1 < 2\nIf 3 > x" ho).1.mp ⟨_, _, hi⟩⟩

end CommandScript
