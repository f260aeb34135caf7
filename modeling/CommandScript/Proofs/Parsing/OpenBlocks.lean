import CommandScript.Proofs.Parsing.Extension

/-! # Open blocks

Inside a line the end of that line is still ahead, so what is read there is never found
incomplete. A statement is refused as incomplete only after its first line, in the block below it.
-/

namespace CommandScript

open Token

namespace Parser

variable {α β : Type} {c c' c₁ : Cursor} {t : Token} {d k n : Nat} {p : Parser α}
  {f : α → Parser β} {e : Refusal}

/-- The parser does not find its input incomplete. -/
def Settled (c : Cursor) (p : Parser α) : Prop :=
  ∀ e c', p c = .error e c' → e.incomplete = false

theorem Settled.bind (hp : Settled c p) (hf : ∀ a c', p c = .ok a c' → Settled c' (f a)) :
    Settled c (p >>= f) := by
  intro e c' h
  rw [bind_apply] at h
  cases he : p c with
  | ok a c₁ =>
    rw [he] at h
    exact hf a c₁ he e c' h
  | error e₁ c₁ =>
    rw [he] at h
    cases h
    exact hp e c' he

theorem settled_pure (a : α) : Settled c (pure a) := by
  intro e c' h
  cases h

theorem settled_fail (reason : String) : Settled c (fail reason : Parser α) := by
  intro e c' h
  cases h
  rfl

theorem settled_advance (hc : c.Passes [t] c₁) : Settled c advance := by
  intro e c' h
  rw [advance_passes hc] at h
  cases h

theorem settled_peek (hc : c.Passes [t] c₁) : Settled c peek := by
  intro e c' h
  rw [peek_passes hc] at h
  cases h

theorem settled_accept (value : String) (hc : c.Passes [t] c₁) : Settled c (accept value) := by
  intro e c' h
  rw [accept_passes value hc] at h
  split at h <;> cases h

theorem settled_eatNewline (hc : c.Passes [t] c₁) : Settled c eatNewline := by
  intro e c' h
  rw [eatNewline_passes hc] at h
  split at h <;> cases h
  rfl

theorem settled_expect (value : String) (hc : c.Passes [t] c₁) : Settled c (expect value) := by
  intro e c' h
  rw [expect_passes value hc] at h
  split at h <;> cases h
  rfl

theorem Reads.settled {G : List Token → α → Prop} (hp : Reads True n c p G)
    (hc : 0 < newlines c.rest) : Settled c p := by
  intro e c' h
  cases hi : e.incomplete with
  | false => rfl
  | true =>
    have := hp.lacking h trivial hi
    omega

theorem passes_of_newlines (hc : 0 < newlines c.rest) : ∃ t c', c.Passes [t] c' := by
  rcases c.exists_passes with h | h
  · simp [h] at hc
  · exact h

theorem newlines_pos_of_ended (he : c.Ended) (hc : c.Passes [t] c') : 0 < newlines c.rest := by
  have hn : c.rest ≠ [] := by rw [hc.rest]; simp
  have hl := he _ (List.getLast?_eq_some_getLast hn)
  rw [← List.dropLast_append_getLast hn, hl]
  simp [newlines_cons]

theorem itemsUntil_settled (items : Array Expr) (hw : c.WellFormed) (hc : 0 < newlines c.rest)
    (hk : c.rest.length < k) :
    Settled c (itemsUntil (acceptKind .newLine) (argument d) k items) := by
  induction k generalizing c items with
  | zero => exact absurd hk (Nat.not_lt_zero _)
  | succ k ih =>
    obtain ⟨t, c₁, h₁⟩ := passes_of_newlines hc
    have ha := acceptNewline_takes.passes hw h₁
    unfold itemsUntil
    intro e c' h
    split at ha
    · rw [bind_ok ha] at h
      cases h
    · rw [bind_ok ha] at h
      refine ((argument_reads d hw).settled hc).bind (fun a c₂ h₂ => ?_) e c' h
      obtain ⟨ts, h₃, hz, hg⟩ := (argument_reads d hw).ok h₂
      have hp := ne_nil_of_argument hg
      have hl := h₃.length
      have hn := h₃.newlines_rest
      have hz := hz trivial
      exact ih _ (h₃.wellFormed hw) (by omega) (by omega)

theorem newlines_pos_of_passes {ts : List Token} (hn : 0 < newlines c.rest) (hc : c.Passes ts c')
    (hz : newlines ts = 0) : 0 < newlines c'.rest := by
  have := hc.newlines_rest
  omega

theorem Takes.inline {q : Parser Bool} {u : Token} {b : Bool} (hq : Takes q u)
    (hu : u.kind ≠ .newLine) (hw : c.WellFormed) (h : q c = .ok b c') :
    ∃ ts, c.Passes ts c' ∧ newlines ts = 0 := by
  rcases c.exists_passes with hc | ⟨t, c₁, hc⟩
  · rw [hq.nil hc] at h
    cases h
  · rw [hq.passes hw hc] at h
    split at h <;> cases h
    · next ht => exact ⟨[t], hc, by simp [newlines_cons, ht, hu]⟩
    · exact ⟨[], .refl c, rfl⟩

theorem settled_congr {p q : Parser α} (h : p c = q c₁) (hq : Settled c₁ q) : Settled c p := by
  intro e c' he
  exact hq e c' (h ▸ he)

theorem plainStatement_settled {x : String} (hw : c.WellFormed) (hn : 0 < newlines c.rest)
    (hc : c.Passes [name x] c₁) : Settled c (plainStatement d) := by
  have hw₁ := hc.wellFormed hw
  have hn₁ := newlines_pos_of_passes hn hc rfl
  obtain ⟨t, c₂, h₂⟩ := passes_of_newlines hn₁
  apply settled_congr (bind_ok (get_apply c))
  apply settled_congr (bind_ok (advance_passes hc))
  apply (settled_accept "=" h₂).bind
  intro b c₃ h₃
  obtain ⟨ts, h₃, hz⟩ := (accept_takes equals_wellFormed).inline (by simp) hw₁ h₃
  have hw₃ := h₃.wellFormed hw₁
  have hn₃ := newlines_pos_of_passes hn₁ h₃ hz
  cases b with
  | true =>
    apply ((sum_reads d hw₃).settled hn₃).bind
    intro e c₄ h₄
    obtain ⟨us, h₄, hz, -⟩ := (sum_reads d hw₃).ok h₄
    obtain ⟨u, c₅, h₅⟩ := passes_of_newlines (newlines_pos_of_passes hn₃ h₄ (hz trivial))
    apply (settled_eatNewline h₅).bind
    intro _ c₆ _
    exact settled_pure _
  | false =>
    obtain ⟨u, c₄, h₄⟩ := passes_of_newlines hn₃
    apply (settled_accept "(" h₄).bind
    intro b c₅ h₅
    obtain ⟨us, h₅, hz⟩ := (accept_takes open_wellFormed).inline (by simp) hw₃ h₅
    have hw₅ := h₅.wellFormed hw₃
    have hn₅ := newlines_pos_of_passes hn₃ h₅ hz
    cases b with
    | true =>
      apply ((arguments_reads d hw₅).settled hn₅).bind
      intro es c₆ _
      exact settled_pure _
    | false =>
      apply Settled.bind
      · apply settled_congr (bind_ok (rounds_apply c₅))
        exact itemsUntil_settled #[] hw₅ hn₅ (Nat.lt_succ_self _)
      · intro es c₆ _
        exact settled_pure _

/-- The loop of a block ends at a word that closes one, so the end is not in the way. -/
theorem settled_expect_of_ends {value : String} {q : Parser Stmt} {ss : Array Stmt} {r : Program}
    (h : statementsUntil (atTerminator value) q n ss c = .ok r c₁) :
    Settled c₁ (expect value) := by
  obtain ⟨c₂, hc₂⟩ := statementsUntil_ends h
  rcases c₂.exists_passes with hn | ⟨t, c₃, h₃⟩
  · rw [atTerminator_nil hn] at hc₂
    cases hc₂
  · rw [atTerminator_passes value h₃] at hc₂
    split_ifs at hc₂ <;> cases hc₂
    exact settled_expect value h₃

/-! ## Statements that open a block -/

/-- From `c` the parser does not find its input incomplete, or it goes on with a block of `q` once
its first line is read, also with text after it. -/
def Opens (q : Parser Stmt) (c : Cursor) (p : Parser Stmt) : Prop :=
  Settled c p ∨ ∃ value ∈ terminators, ∃ (c₁ : Cursor) (f : Stmt → Stmt), c₁.WellFormed ∧
    c₁.Ended ∧ ∀ us, p (c.followed us) = (do let s ← block q value; return f s) (c₁.followed us)

section Statements

variable {q : Parser Stmt}

theorem Opens.of_eq {p p' : Parser Stmt} (h : ∀ us, p (c.followed us) = p' (c₁.followed us))
    (hp : Opens q c₁ p') : Opens q c p := by
  rcases hp with hs | ⟨value, hv, c₂, f, hw, he, hb⟩
  · have h₀ := h []
    rw [Cursor.followed_nil, Cursor.followed_nil] at h₀
    exact Or.inl (settled_congr h₀ hs)
  · exact Or.inr ⟨value, hv, c₂, f, hw, he, fun us => (h us).trans (hb us)⟩

theorem Opens.bind {f : α → Parser Stmt} (hp : Settled c p) (ha : ∀ w, Alike w id c p p)
    (hf : ∀ a c', p c = .ok a c' → Opens q c' (f a)) : Opens q c (p >>= f) := by
  cases he : p c with
  | error e₁ c₁ =>
    refine Or.inl (hp.bind fun a c' h => ?_)
    rw [he] at h
    cases h
  | ok a c₁ =>
    refine (hf a c₁ he).of_eq fun us => ?_
    exact bind_ok ((ha { after := us }).ok he)

theorem opens_get_bind {f : Cursor → Parser Stmt} (hf : ∀ us, f (c.followed us) = f c)
    (h : Opens q c (f c)) : Opens q c (get >>= f) :=
  h.of_eq fun us => by rw [bind_ok (get_apply _), hf]

theorem headed_opens {p : Parser α} {G : List Token → α → Prop} {value : String}
    {f : α → Stmt → Stmt} (hp : Reads True d c p G) (hpa : ∀ w, Alike w id c p p)
    (hv : value ∈ terminators) (hw : c.WellFormed) (he : c.Ended) (hn : 0 < newlines c.rest) :
    Opens q c (do let a ← p; eatNewline; let s ← block q value; return f a s) := by
  apply Opens.bind (hp.settled hn) hpa
  intro a c₁ h₁
  obtain ⟨ts, h₁, hz, -⟩ := hp.ok h₁
  obtain ⟨t, c₂, h₂⟩ := passes_of_newlines (newlines_pos_of_passes hn h₁ (hz trivial))
  apply Opens.bind (settled_eatNewline h₂) fun w => eatNewline_alike
  intro _ c₃ h₃
  obtain ⟨u, h₃⟩ := eatNewline_eq_ok h₃
  have h₃ := h₁.trans h₃
  exact Or.inr ⟨value, hv, c₃, f a, h₃.wellFormed hw, he.of_passes h₃, fun us => rfl⟩

theorem conditional_opens (hw : c.WellFormed) (he : c.Ended) (hc : c.Passes [word "If"] c₁) :
    Opens q c (conditional d q) := by
  have hw₁ := hc.wellFormed hw
  have hn₁ := newlines_pos_of_passes (newlines_pos_of_ended he hc) hc rfl
  apply opens_get_bind (fun us => by simp only [Cursor.followed_line])
  apply Opens.bind (settled_advance hc) fun w => advance_alike
  intro t c₂ h₂
  rw [advance_passes hc] at h₂
  cases h₂
  exact headed_opens (comparison_reads d hw₁) (fun w => comparison_alike d hw₁) (by decide) hw₁
    (he.of_passes hc) hn₁

theorem loop_opens (hw : c.WellFormed) (he : c.Ended) (hc : c.Passes [word "While"] c₁) :
    Opens q c (loop d q) := by
  have hw₁ := hc.wellFormed hw
  have hn₁ := newlines_pos_of_passes (newlines_pos_of_ended he hc) hc rfl
  apply opens_get_bind (fun us => by simp only [Cursor.followed_line])
  apply Opens.bind (settled_advance hc) fun w => advance_alike
  intro t c₂ h₂
  rw [advance_passes hc] at h₂
  cases h₂
  exact headed_opens (comparison_reads d hw₁) (fun w => comparison_alike d hw₁) (by decide) hw₁
    (he.of_passes hc) hn₁

theorem definition_opens (hw : c.WellFormed) (he : c.Ended) (hc : c.Passes [word "Method"] c₁) :
    Opens q c (definition d q) := by
  have hw₁ := hc.wellFormed hw
  have hn₁ := newlines_pos_of_passes (newlines_pos_of_ended he hc) hc rfl
  obtain ⟨x, c₃, h₃⟩ := passes_of_newlines hn₁
  apply opens_get_bind (fun us => by simp only [Cursor.followed_line])
  apply Opens.bind (settled_advance hc) fun w => advance_alike
  intro t c₂ h₂
  rw [advance_passes hc] at h₂
  cases h₂
  apply Opens.bind (settled_peek h₃) fun w => peek_alike
  intro y c₄ h₄
  rw [peek_passes h₃] at h₄
  cases h₄
  split
  · exact Or.inl ((settled_fail _).bind fun _ _ h => nomatch h)
  · next hx =>
    have hn₃ := newlines_pos_of_passes hn₁ h₃ (by simp [newlines_cons, not_not.mp hx])
    have hw₃ := h₃.wellFormed hw₁
    obtain ⟨u, c₅, h₅⟩ := passes_of_newlines hn₃
    apply Opens.bind (settled_advance h₃) fun w => advance_alike
    intro y c₄ h₄
    rw [advance_passes h₃] at h₄
    cases h₄
    apply Opens.bind (settled_accept "(" h₅) fun w => accept_alike "("
    intro b c₆ h₆
    obtain ⟨ts, h₆, hz⟩ := (accept_takes open_wellFormed).inline (by simp) hw₃ h₆
    have hw₆ := h₆.wellFormed hw₃
    have hn₆ := newlines_pos_of_passes hn₃ h₆ hz
    have he₆ := ((he.of_passes hc).of_passes h₃).of_passes h₆
    cases b with
    | false => exact Or.inl ((settled_fail _).bind fun _ _ h => nomatch h)
    | true =>
      exact headed_opens (parameters_reads d hw₆) (fun w => parameters_alike d hw₆) (by decide)
        hw₆ he₆ hn₆

theorem statement_opens (d : Nat) (hw : c.WellFormed) (he : c.Ended) (hc : c.Passes [t] c')
    (hk : t.kind ≠ .newLine) : Opens (statement d) c (statement (d + 1)) := by
  obtain ⟨p, hp, h⟩ := statement_cases d hk
  apply Opens.of_eq fun us => hp (hc.followed us)
  rcases h with ⟨rfl, rfl⟩ | ⟨rfl, rfl⟩ | ⟨rfl, rfl⟩ | ⟨⟨x, rfl⟩, rfl⟩ | ⟨reason, rfl⟩
  · exact conditional_opens hw he hc
  · exact loop_opens hw he hc
  · exact definition_opens hw he hc
  · exact Or.inl (plainStatement_settled hw (newlines_pos_of_ended he hc) hc)
  · exact Or.inl (settled_fail reason)

theorem settled_statement_zero : Settled c (statement 0) := by
  intro e c' h
  cases h
  rfl

end Statements

end Parser

end CommandScript
