import CommandScript.Proofs.Parsing.Extension
import CommandScript.Proofs.Parsing.Places

/-! # Source lines

Lines are exact. What parses has the lines of its first tokens at every depth, and a refusal names
the line of the token at which it was raised. Only past the last token is there no such token, and
only an incomplete script is refused there.
-/

namespace CommandScript

open Token Grammar

namespace Parser

variable {α β : Type} {c c' : Cursor} {t : Token} {d k : Nat} {p : Parser α} {f : α → Parser β}

/-- From `c` the parser passes tokens, or it refuses its input at the line of the cursor it leaves
behind. Past the last token it finds the input incomplete. -/
structure Blames (c : Cursor) (p : Parser α) : Prop where
  ok : ∀ {a c'}, p c = .ok a c' → ∃ ts, c.Passes ts c'
  refused : ∀ {reason incomplete line c'}, p c = .error (.malformed reason incomplete line) c' →
    (∃ ts, c.Passes ts c') ∧ line = c'.line ∧ (c'.rest = [] → incomplete = true)

/-! ## Rules for the primitives -/

theorem Blames.bind (hp : Blames c p)
    (hf : ∀ a ts c', p c = .ok a c' → c.Passes ts c' → Blames c' (f a)) :
    Blames c (p >>= f) := by
  cases he : p c with
  | error e d =>
    have hb := bind_error (f := f) he
    refine ⟨fun h => ?_, fun h => ?_⟩ <;> rw [hb] at h <;> cases h
    exact hp.refused he
  | ok a d =>
    have hb := bind_ok (f := f) he
    obtain ⟨ts, hts⟩ := hp.ok he
    have hd := hf a ts d he hts
    refine ⟨fun h => ?_, fun h => ?_⟩ <;> rw [hb] at h
    · obtain ⟨us, hus⟩ := hd.ok h
      exact ⟨ts ++ us, hts.trans hus⟩
    · obtain ⟨⟨us, hus⟩, hl, hi⟩ := hd.refused h
      exact ⟨⟨ts ++ us, hts.trans hus⟩, hl, hi⟩

theorem blames_congr {q : Parser α} (h : p c = q c) (hq : Blames c q) : Blames c p :=
  ⟨fun hp => hq.ok (h ▸ hp), fun hp => hq.refused (h ▸ hp)⟩

theorem blames_pure {a : α} : Blames c (pure a) := by
  refine ⟨fun h => ?_, fun h => ?_⟩ <;> cases h
  exact ⟨[], .refl c⟩

theorem blames_fail {reason : String} (hc : c.rest ≠ []) : Blames c (fail reason : Parser α) := by
  refine ⟨fun h => ?_, fun h => ?_⟩ <;> cases h
  exact ⟨⟨[], .refl c⟩, rfl, fun hr => absurd hr hc⟩

theorem blames_failIncomplete {reason : String} :
    Blames c (failIncomplete reason : Parser α) := by
  refine ⟨fun h => ?_, fun h => ?_⟩ <;> cases h
  exact ⟨⟨[], .refl c⟩, rfl, fun _ => rfl⟩

theorem blames_endOfScript : Blames c (endOfScript : Parser α) := blames_failIncomplete

theorem rest_ne_nil (hc : c.Passes [t] c') : c.rest ≠ [] := by
  rw [hc.rest]
  exact List.cons_ne_nil _ _

theorem blames_of_passes (hn : c.rest = [] → p c = (endOfScript : Parser α) c)
    (h : ∀ t c', c.Passes [t] c' → Blames c p) : Blames c p := by
  rcases c.exists_passes with hc | ⟨t, c', hc⟩
  · exact blames_congr (hn hc) blames_endOfScript
  · exact h t c' hc

theorem blames_peek_bind {f : Token → Parser β} (h : ∀ t c', c.Passes [t] c' → Blames c (f t)) :
    Blames c (peek >>= f) := by
  refine blames_of_passes (fun hc => ?_) fun t c' hc => ?_
  · rw [bind_error (peek_nil hc)]; rfl
  · exact blames_congr (bind_ok (peek_passes hc)) (h t c' hc)

theorem blames_take {a : α} (hc : c.Passes [t] c') (hp : p c = .ok a c') : Blames c p := by
  refine ⟨fun h => ?_, fun h => ?_⟩ <;> rw [hp] at h <;> cases h
  exact ⟨[t], hc⟩

theorem blames_advance : Blames c advance :=
  blames_of_passes advance_nil fun _ _ hc => blames_take hc (advance_passes hc)

theorem blames_accept {value : String} : Blames c (accept value) := by
  refine blames_of_passes accept_nil fun t c' hc => ?_
  have ha := accept_passes value hc
  split at ha
  · exact blames_take hc ha
  · exact blames_congr (q := pure false) ha blames_pure

theorem blames_acceptKind {kind : TokenKind} : Blames c (acceptKind kind) := by
  refine blames_of_passes acceptKind_nil fun t c' hc => ?_
  have ha := acceptKind_passes kind hc
  split at ha
  · exact blames_take hc ha
  · exact blames_congr (q := pure false) ha blames_pure

theorem blames_eatNewline : Blames c eatNewline := by
  refine blames_of_passes eatNewline_nil fun t c' hc => ?_
  have ha := eatNewline_passes hc
  split at ha
  · exact blames_take hc ha
  · exact blames_congr ha (blames_fail (rest_ne_nil hc))

theorem blames_expect {value : String} : Blames c (expect value) := by
  refine blames_of_passes expect_nil fun t c' hc => ?_
  have ha := expect_passes value hc
  split at ha
  · exact blames_take hc ha
  · exact blames_congr ha (blames_fail (rest_ne_nil hc))

theorem rest_ne_nil_of_accept {value : String} (h : accept value c = .ok false c') :
    c'.rest ≠ [] := by
  rcases c.exists_passes with hc | ⟨t, c₁, hc⟩
  · rw [accept_nil hc] at h
    cases h
  · rw [accept_passes value hc] at h
    split at h <;> cases h
    exact rest_ne_nil hc

/-! ## Expressions -/

theorem term_blames (d : Nat) : Blames c (term d) := by
  induction d generalizing c with
  | zero => exact ⟨fun h => (by cases h), fun h => (by cases h)⟩
  | succ d ih =>
    rw [term]
    apply blames_peek_bind
    intro t c' hc
    split
    · split
      · exact blames_advance.bind fun _ _ _ _ _ => blames_pure
      · exact blames_fail (rest_ne_nil hc)
    · split
      · exact blames_advance.bind fun _ _ _ _ _ => blames_pure
      · split
        · apply blames_advance.bind
          intro _ _ c₁ _ _
          apply ih.bind
          intro e _ c₂ _ _
          apply blames_accept.bind
          intro b _ c₃ _ _
          cases b with
          | true => exact blames_pure
          | false => exact blames_peek_bind fun u c₄ h₄ => blames_fail (rest_ne_nil h₄)
        · exact blames_fail (rest_ne_nil hc)

theorem chain_blames {allowed : Op → Bool} {operand : Parser Expr}
    (ho : ∀ {c : Cursor}, Blames c operand) (k : Nat) (left : Expr) :
    Blames c (chain allowed operand k left) := by
  induction k generalizing c left with
  | zero => exact blames_endOfScript
  | succ k ih =>
    rw [chain]
    apply blames_peek_bind
    intro t c' hc
    split
    · exact blames_pure
    · apply blames_advance.bind
      intro _ _ c₁ _ _
      exact ho.bind fun r _ c₂ _ _ => ih _

theorem product_blames (d : Nat) : Blames c (product d) :=
  (term_blames d).bind fun e _ c₁ _ _ =>
    blames_congr (bind_ok (rounds_apply c₁)) (chain_blames (term_blames d) _ e)

theorem sum_blames (d : Nat) : Blames c (sum d) :=
  (product_blames d).bind fun e _ c₁ _ _ =>
    blames_congr (bind_ok (rounds_apply c₁)) (chain_blames (product_blames d) _ e)

theorem comparison_blames (d : Nat) : Blames c (comparison d) := by
  apply (sum_blames d).bind
  intro l _ c₁ _ _
  apply blames_peek_bind
  intro t c₂ hc
  split
  · exact blames_fail (rest_ne_nil hc)
  · apply blames_advance.bind
    intro _ _ c₃ _ _
    exact (sum_blames d).bind fun r _ c₄ _ _ => blames_pure

theorem argument_blames (d : Nat) : Blames c (argument d) :=
  (term_blames d).bind fun _ _ _ _ _ => blames_accept.bind fun _ _ _ _ _ => blames_pure

theorem itemsUntil_blames {q : Parser Bool} (hq : ∀ {c : Cursor}, Blames c q)
    (hp : ∀ {c : Cursor}, Blames c p) (k : Nat) (items : Array α) :
    Blames c (itemsUntil q p k items) := by
  induction k generalizing c items with
  | zero => exact blames_endOfScript
  | succ k ih =>
    rw [itemsUntil]
    apply hq.bind
    intro b _ c₁ _ _
    cases b with
    | true => exact blames_pure
    | false => exact hp.bind fun a _ c₂ _ _ => ih _

theorem arguments_blames (d : Nat) : Blames c (arguments d) :=
  blames_congr (bind_ok (rounds_apply c)) (itemsUntil_blames blames_accept (argument_blames d) _ _)

theorem lineArguments_blames (d : Nat) : Blames c (lineArguments d) :=
  blames_congr (bind_ok (rounds_apply c))
    (itemsUntil_blames blames_acceptKind (argument_blames d) _ _)

theorem mapM_parameter_blames (hc : c.rest ≠ []) (es : List Expr) :
    Blames c (es.mapM parameter) := by
  induction es with
  | nil => exact blames_pure
  | cons e es ih =>
    rw [List.mapM_cons]
    cases e with
    | var x =>
      apply blames_congr (bind_ok (pure_apply x c))
      exact ih.bind fun _ _ _ _ _ => blames_pure
    | _ => exact blames_congr (q := fail _) (bind_error (fail_apply _ c)) (blames_fail hc)

/-- Parameters are looked at only behind the parenthesis that closes them, where the end of the
last line is still ahead. -/
theorem parameters_blames (d : Nat) (hw : c.WellFormed) (he : c.Ended) :
    Blames c (parameters d) := by
  apply (arguments_blames d).bind
  intro es ts c' h _
  obtain ⟨us, hus, -, vs, -, rfl⟩ := (arguments_reads d hw).ok h
  obtain ⟨c₁, h₀, h₁⟩ := hus.split
  refine mapM_parameter_blames (fun hr => ?_) es
  cases (he.of_passes h₀).eq_newline h₁ hr

/-! ## Statements -/

/-- The parser blames the cursor wherever a whole number of lines is ahead. -/
def BlamesStatement (p : Parser Stmt) : Prop :=
  ∀ {c : Cursor}, c.WellFormed → c.Ended → Blames c p

theorem atTerminator_blames (value : String) : Blames c (atTerminator value) := by
  refine blames_of_passes atTerminator_nil fun t c' hc => ?_
  have ha := atTerminator_passes value hc
  split_ifs at ha
  · exact blames_congr (q := pure true) ha blames_pure
  · exact blames_congr (q := failIncomplete _) ha blames_failIncomplete
  · exact blames_congr (q := pure false) ha blames_pure

theorem atEnd_blames : Blames c atEnd :=
  blames_congr (q := pure _) (atEnd_apply c) blames_pure

theorem statementsUntil_blames {q : Parser Bool} {p : Parser Stmt}
    (hq : ∀ {c : Cursor}, Blames c q) (hp : BlamesStatement p) (k : Nat) (ss : Array Stmt)
    (hw : c.WellFormed) (he : c.Ended) : Blames c (statementsUntil q p k ss) := by
  induction k generalizing c ss with
  | zero => exact blames_endOfScript
  | succ k ih =>
    rw [statementsUntil]
    apply hq.bind
    intro b ts c₁ _ h₁
    have hw₁ := h₁.wellFormed hw
    have he₁ := he.of_passes h₁
    cases b with
    | true => exact blames_pure
    | false =>
      apply blames_peek_bind
      intro t c₂ hc
      split
      · exact blames_eatNewline.bind fun _ _ c₃ _ h₃ =>
          ih ss (h₃.wellFormed hw₁) (he₁.of_passes h₃)
      · exact (hp hw₁ he₁).bind fun s _ c₃ _ h₃ =>
          ih _ (h₃.wellFormed hw₁) (he₁.of_passes h₃)

theorem block_blames {p : Parser Stmt} (hp : BlamesStatement p) (value : String) :
    BlamesStatement (block p value) := by
  intro c hw he
  apply blames_congr (bind_ok (rounds_apply c))
  apply (statementsUntil_blames (atTerminator_blames value) hp _ _ hw he).bind
  intro ss _ c₁ _ _
  exact blames_expect.bind fun _ _ _ _ _ => blames_pure

theorem headed_blames {p : Parser Stmt} (hp : BlamesStatement p) {q : Parser α} {value : String}
    {f : α → Stmt → Stmt} (hq : Blames c q) (hw : c.WellFormed) (he : c.Ended) :
    Blames c (do let a ← q; eatNewline; let s ← block p value; return f a s) := by
  apply hq.bind
  intro a _ c₁ _ h₁
  apply blames_eatNewline.bind
  intro _ _ c₂ _ h₂
  have h₃ := h₁.trans h₂
  exact (block_blames hp value (h₃.wellFormed hw) (he.of_passes h₃)).bind
    fun _ _ _ _ _ => blames_pure

theorem conditional_blames {p : Parser Stmt} (hp : BlamesStatement p) (d : Nat) :
    BlamesStatement (conditional d p) := by
  intro c hw he
  apply blames_congr (bind_ok (get_apply c))
  apply blames_advance.bind
  intro _ _ c₁ _ h₁
  exact headed_blames hp (comparison_blames d) (h₁.wellFormed hw) (he.of_passes h₁)

theorem loop_blames {p : Parser Stmt} (hp : BlamesStatement p) (d : Nat) :
    BlamesStatement (loop d p) := by
  intro c hw he
  apply blames_congr (bind_ok (get_apply c))
  apply blames_advance.bind
  intro _ _ c₁ _ h₁
  exact headed_blames hp (comparison_blames d) (h₁.wellFormed hw) (he.of_passes h₁)

theorem definition_blames {p : Parser Stmt} (hp : BlamesStatement p) (d : Nat) :
    BlamesStatement (definition d p) := by
  intro c hw he
  apply blames_congr (bind_ok (get_apply c))
  apply blames_advance.bind
  intro _ _ c₁ _ h₁
  apply blames_peek_bind
  intro t c₂ hc
  split
  · exact blames_congr (q := fail _) (bind_error (fail_apply _ _)) (blames_fail (rest_ne_nil hc))
  · apply blames_advance.bind
    intro _ _ c₃ _ h₃
    apply blames_accept.bind
    intro b _ c₄ hb h₄
    have h₅ := h₁.trans (h₃.trans h₄)
    have hw₅ := h₅.wellFormed hw
    have he₅ := he.of_passes h₅
    cases b with
    | true => exact headed_blames hp (parameters_blames d hw₅ he₅) hw₅ he₅
    | false =>
      exact blames_congr (q := fail _) (bind_error (fail_apply _ _))
        (blames_fail (rest_ne_nil_of_accept hb))

theorem plainStatement_blames (d : Nat) : Blames c (plainStatement d) := by
  apply blames_congr (bind_ok (get_apply c))
  apply blames_advance.bind
  intro name _ c₁ _ _
  apply blames_accept.bind
  intro b _ c₂ _ _
  cases b with
  | true =>
    exact (sum_blames d).bind fun _ _ _ _ _ => blames_eatNewline.bind fun _ _ _ _ _ => blames_pure
  | false =>
    apply blames_accept.bind
    intro b _ c₃ _ _
    cases b with
    | true => exact (arguments_blames d).bind fun _ _ _ _ _ => blames_pure
    | false => exact (lineArguments_blames d).bind fun _ _ _ _ _ => blames_pure

theorem skipNewlines_blames (k : Nat) : Blames c (skipNewlines k) := by
  induction k generalizing c with
  | zero => exact blames_endOfScript
  | succ k ih =>
    rw [skipNewlines]
    apply blames_peek_bind
    intro t c' hc
    split
    · exact blames_eatNewline.bind fun _ _ _ _ _ => ih
    · exact blames_pure

theorem statement_blames (d : Nat) : BlamesStatement (statement d) := by
  induction d with
  | zero => exact fun _ _ => ⟨fun h => (by cases h), fun h => (by cases h)⟩
  | succ d ih =>
    intro c hw he
    rw [statement]
    apply blames_congr (bind_ok (rounds_apply c))
    apply (skipNewlines_blames _).bind
    intro _ _ c₁ _ h₁
    have hw₁ := h₁.wellFormed hw
    have he₁ := he.of_passes h₁
    apply blames_peek_bind
    intro t c₂ hc
    split
    · split_ifs
      · exact conditional_blames ih _ hw₁ he₁
      · exact loop_blames ih _ hw₁ he₁
      · exact definition_blames ih _ hw₁ he₁
      · exact blames_fail (rest_ne_nil hc)
    · exact plainStatement_blames _
    · exact blames_fail (rest_ne_nil hc)

theorem program_blames (d : Nat) (hw : c.WellFormed) (he : c.Ended) : Blames c (program d) :=
  blames_congr (bind_ok (rounds_apply c))
    (statementsUntil_blames atEnd_blames (statement_blames d) _ _ hw he)

end Parser

open CommandScript.Parser

theorem Munch.line_of_passes {script : String} {gap : List Char}
    {pieces : List (Token × List Char)} (h : Munch (script ++ "\n").toList gap pieces)
    {ts : List Token} {c : Cursor} (hc : (Cursor.start script).Passes ts c) :
    c.rest = (lex script).drop c.position ∧
      (c.rest ≠ [] ∧ c.position < (lex script).length ∧
          c.line = lineAt script.toList (placeOf gap pieces c.position) ∨
        c.rest = [] ∧ c.position = (lex script).length ∧
          c.line = script.toList.count '\n' + 2) := by
  have hp : c.position = ts.length := by simpa using hc.position
  have hl : c.line = 1 + newlines ts := hc.line
  have hr : lex script = ts ++ c.rest := hc.rest
  have hs : (lex script).length = ts.length + c.rest.length := by rw [hr, List.length_append]
  refine ⟨by rw [hr, hp, List.drop_left], ?_⟩
  by_cases hn : c.rest = []
  · refine Or.inr ⟨hn, by simp [hs, hp, hn], ?_⟩
    rw [hn, List.append_nil] at hr
    rw [hl, ← hr, newlines_lex]
    omega
  · have hk : c.position < (lex script).length := by
      have := List.length_pos_of_ne_nil hn
      omega
    have hm : c.position < pieces.length := by
      rwa [lex_eq_of_munch h, List.length_map] at hk
    refine Or.inl ⟨hn, hk, ?_⟩
    rw [h.lineAt_placeOf hm, hl, hr, hp, List.take_left]

/-- Source lines are exact. A script is cut into its tokens in such a way that, if it parses, every
statement at every depth has the line of the character with which its first token begins, and if it
is refused, the line is that of the token at the cursor. Past the last token the line is the one
below the last, and the script is incomplete. -/
theorem lines_exact (script : String) :
    ∃ gap pieces, Munch (script ++ "\n").toList gap pieces ∧ pieces.map Prod.fst = lex script ∧
      ∀ (calls : Nat) (file : Option String),
        (∀ p, parseWithin calls file script = .ok p →
          ItemsAt (fun k => lineAt script.toList (placeOf gap pieces k)) 0 (lex script) p) ∧
        ∀ halt, parseWithin calls file script = .error halt →
          halt = .overflow ∧ calls < callsPerStatement * ((lex script).length + 1) ∨
          ∃ reason incomplete c,
            program (calls / callsPerStatement) (.start script) =
              .error (.malformed reason incomplete c.line) c ∧
            halt = .fault ⟨.malformed reason incomplete, some c.line, file⟩ ∧
            c.rest = (lex script).drop c.position ∧
            (c.position < (lex script).length ∧
                c.line = lineAt script.toList (placeOf gap pieces c.position) ∨
              c.position = (lex script).length ∧ c.line = script.toList.count '\n' + 2 ∧
                incomplete = true) := by
  obtain ⟨gap, pieces, h⟩ := exists_munch (script ++ "\n").toList
  refine ⟨gap, pieces, h, (lex_eq_of_munch h).symm, fun calls file => ⟨fun p hp => ?_, ?_⟩⟩
  · apply (derives_of_parseWithin hp).at
    intro k hk
    rw [Nat.zero_add]
    exact h.lineAt_placeOf (by rwa [lex_eq_of_munch h, List.length_map] at hk)
  · intro halt hh
    obtain ⟨e, c, hc, rfl⟩ := parseWithin_eq_error.mp hh
    cases e with
    | tooDeep => exact Or.inl ⟨rfl, lt_of_overflow hh⟩
    | malformed reason incomplete line =>
      obtain ⟨⟨ts, hts⟩, rfl, hi⟩ :=
        (program_blames _ (Cursor.start_wellFormed script) (Cursor.start_ended script)).refused hc
      obtain ⟨hr, ⟨-, hk, hl⟩ | ⟨hn, hk, hl⟩⟩ := h.line_of_passes hts
      · exact Or.inr ⟨reason, incomplete, c, hc, rfl, hr, Or.inl ⟨hk, hl⟩⟩
      · exact Or.inr ⟨reason, incomplete, c, hc, rfl, hr, Or.inr ⟨hk, hl, hi hn⟩⟩

end CommandScript
