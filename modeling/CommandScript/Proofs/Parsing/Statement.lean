import CommandScript.Proofs.Parsing.Expression
import CommandScript.Stmt.Parser

/-! # Statements are read by the grammar

A statement parser reads what the grammar derives at the line of the cursor. So does the parser of
whole programs, which stops one token early.
-/

namespace CommandScript.Parser

open Token Grammar

variable {c c' : Cursor} {t : Token} {d m n k : Nat}

theorem atEnd_apply (c : Cursor) : atEnd c = .ok (decide (c.rest.length ≤ 1)) c := by
  rw [atEnd, bind_ok (get_apply c)]
  rcases c.rest with _ | ⟨t, _ | ⟨u, r⟩⟩ <;> simp

theorem atTerminator_nil {value : String} (h : c.rest = []) :
    atTerminator value c = (endOfScript : Parser Bool) c := by
  rw [atTerminator, bind_error (peek_nil h)]
  rfl

theorem atTerminator_passes (value : String) (h : c.Passes [t] c') :
    atTerminator value c =
      if t.value ∈ terminators then .ok true c
      else if c'.rest = [] then
        .error (.malformed ("Expected " ++ value ++ " but reached end of script") true c.line) c
      else .ok false c := by
  have hl : c.rest.length ≤ 1 ↔ c'.rest = [] := by
    rw [h.length, ← List.length_eq_zero_iff, List.length_singleton]
    omega
  rw [atTerminator, bind_ok (peek_passes h)]
  by_cases ht : t.value ∈ terminators
  · simp [ht]
  · simp only [List.contains_eq_mem, ht, decide_false, if_false, Bool.false_eq_true,
      bind_ok (atEnd_apply c), hl]
    by_cases hr : c'.rest = []
    · simp only [hr, decide_true, if_true]
      exact bind_error (failIncomplete_apply _ c)
    · simp [hr]

theorem atTerminator_reads (value : String) :
    Reads False n c (atTerminator value) fun ts _ => ts = [] := by
  apply reads_of_passes atTerminator_nil
  intro t c' hc
  have ha := atTerminator_passes value hc
  split_ifs at ha with ht hr
  · exact reads_congr (q := pure true) ha (reads_pure rfl)
  · exact reads_congr (q := failIncomplete _) ha
      ⟨fun h => (by cases h), fun h => (by cases h), fun _ h => h.elim⟩
  · exact reads_congr (q := pure false) ha (reads_pure rfl)

theorem atEnd_reads : Reads False n c atEnd fun ts _ => ts = [] :=
  reads_congr (q := pure _) (atEnd_apply c) (reads_pure rfl)

theorem two_le_length {line : Int} {ts : List Token} {s : Stmt} (h : Statement line ts s) :
    2 ≤ ts.length := by
  cases h <;> simp <;> omega

/-- The parser reads a statement wherever the next token is no newline. -/
def ReadsStatement (n : Nat) (p : Parser Stmt) : Prop :=
  ∀ {c c' : Cursor} {t : Token}, c.WellFormed → c.Passes [t] c' → t.kind ≠ .newLine →
    Reads False n c p fun ts s => Statement c.line ts s

theorem statementsUntil_reads {q : Parser Bool} {p : Parser Stmt}
    (hq : ∀ {c : Cursor} {n}, Reads False n c q fun ts _ => ts = []) (hp : ReadsStatement n p)
    (k : Nat) (ss : Array Stmt) (hw : c.WellFormed) (hk : c.rest.length < k) :
    Reads False n c (statementsUntil q p k ss) fun ts r =>
      ∃ r', Items c.line ts r' ∧ r = ss.toList ++ r' := by
  induction k generalizing c ss with
  | zero => exact absurd hk (Nat.not_lt_zero _)
  | succ k ih =>
    rw [statementsUntil]
    apply hq.bind
    intro b ts c₁ he hts hb
    subst hb
    obtain rfl := hts.eq_of_nil
    cases b with
    | true => exact reads_pure ⟨[], .nil _, by simp⟩
    | false =>
      apply reads_peek_bind
      intro t c₁ hc
      have hl := hc.length
      split
      · apply reads_eatNewline_bind hw
        intro c₂ h₂
        have hl₂ := h₂.length
        have hn : c₂.line = c.line + 1 := by simpa [newlines_cons] using h₂.line
        simp only [List.length_singleton] at hl₂
        apply (ih ss (h₂.wellFormed hw) (by omega)).weaken (by omega)
        rintro us r ⟨r', hr, rfl⟩
        exact ⟨r', .newline (hn ▸ hr), rfl⟩
      · next hn =>
        apply (hp hw hc hn).bind
        intro s us c₂ he hus hs
        have hl₂ := hus.length
        have h2 := two_le_length hs
        apply (ih (ss.push s) (hus.wellFormed hw) (by omega)).weaken (by omega)
        rintro vs r ⟨r', hr, rfl⟩
        have hi := Items.statement hs (hus.line ▸ hr)
        exact ⟨s :: r', by simpa using hi, by simp⟩

theorem block_reads {p : Parser Stmt} (hp : ReadsStatement n p) {value : String}
    (hv : (word value).WellFormed) (hw : c.WellFormed) :
    Reads False n c (block p value) fun ts s =>
      ∃ us ss, Items c.line us ss ∧ ts = us ++ [word value] ∧ s = .block ss := by
  apply reads_congr (bind_ok (rounds_apply c))
  refine (statementsUntil_reads (atTerminator_reads value) hp _ #[] hw (Nat.lt_succ_self _)).bind
    fun ss us c₁ he hus hs => ?_
  obtain ⟨ss, hs, rfl⟩ := hs
  apply reads_expect_bind (hus.wellFormed hw) hv (by simp)
  intro c₂ h₂
  exact reads_pure ⟨us, ss, hs, rfl, rfl⟩

theorem word_wellFormed {value : String} (h : value ∈ keywords) : (word value).WellFormed := h

theorem headed_reads {p : Parser Stmt} (hp : ReadsStatement n p) {α : Type} {q : Parser α}
    {G : List Token → α → Prop} {value : String} {f : α → Stmt → Stmt}
    {S : List Token → Stmt → Prop}
    (hq : Reads True n c q G) (hn : ∀ ts a, G ts a → newlines ts = 0) (hv : value ∈ keywords)
    (hs : ∀ ts us a ss, G ts a → Items (c.line + 1) us ss →
      S (ts ++ newline :: (us ++ [word value])) (f a (.block ss))) (hw : c.WellFormed) :
    Reads False n c (do let a ← q; eatNewline; let s ← block p value; return f a s) S := by
  apply hq.relax.bind
  intro a ts c₁ he hts hg
  have hw₁ := hts.wellFormed hw
  apply reads_eatNewline_bind hw₁
  intro c₂ h₂
  have hb := block_reads hp (word_wellFormed hv) (h₂.wellFormed hw₁)
  apply (hb.weaken (by omega) fun _ _ h => h).bind
  intro s us c₃ he hus hs'
  obtain ⟨vs, ss, hi, rfl, rfl⟩ := hs'
  have hl : c₂.line = c.line + 1 := by
    rw [h₂.line, hts.line, hn ts a hg]
    simp [newlines_cons]
  apply reads_pure
  simpa using hs ts vs a ss hg (hl ▸ hi)

theorem line_of_passes (h : c.Passes [t] c') (hk : t.kind ≠ .newLine) : c'.line = c.line := by
  have := h.line
  simpa [newlines_cons, hk] using this

theorem conditional_reads {p : Parser Stmt} (hp : ReadsStatement n p) (hm : n ≤ m)
    (hw : c.WellFormed) (hc : c.Passes [word "If"] c') :
    Reads False (n + 1) c (conditional m p) fun ts s => Statement c.line ts s := by
  have hl := line_of_passes hc (by simp)
  apply reads_congr (bind_ok (get_apply c))
  apply reads_advance_bind hc False.elim
  refine headed_reads hp ((comparison_reads m (hc.wellFormed hw)).weaken hm fun _ _ h => h)
    (fun _ _ h => h.newlines_eq_zero) (by decide) (fun ts us e ss he hs => ?_) (hc.wellFormed hw)
  exact .conditional he (hl ▸ hs)

theorem loop_reads {p : Parser Stmt} (hp : ReadsStatement n p) (hm : n ≤ m)
    (hw : c.WellFormed) (hc : c.Passes [word "While"] c') :
    Reads False (n + 1) c (loop m p) fun ts s => Statement c.line ts s := by
  have hl := line_of_passes hc (by simp)
  apply reads_congr (bind_ok (get_apply c))
  apply reads_advance_bind hc False.elim
  refine headed_reads hp ((comparison_reads m (hc.wellFormed hw)).weaken hm fun _ _ h => h)
    (fun _ _ h => h.newlines_eq_zero) (by decide) (fun ts us e ss he hs => ?_) (hc.wellFormed hw)
  exact .loop he (hl ▸ hs)

theorem definition_reads {p : Parser Stmt} (hp : ReadsStatement n p) (hm : n ≤ m)
    (hw : c.WellFormed) (hc : c.Passes [word "Method"] c') :
    Reads False (n + 1) c (definition m p) fun ts s => Statement c.line ts s := by
  have hl := line_of_passes hc (by simp)
  have hw₁ := hc.wellFormed hw
  apply reads_congr (bind_ok (get_apply c))
  apply reads_advance_bind hc False.elim
  apply reads_peek_bind
  intro t c₁ h₁
  split
  · exact reads_congr (q := fail _) (bind_error (fail_apply _ _)) (reads_fail _)
  · next hk =>
    obtain ⟨kind, x⟩ := t
    obtain rfl : kind = .identifier := not_not.mp hk
    have hl₁ := line_of_passes h₁ (by simp)
    have hw₂ := h₁.wellFormed hw₁
    apply reads_advance_bind h₁ False.elim
    refine reads_takes_bind (accept_takes open_wellFormed) hw₂ (by simp) (fun c₂ h₂ => ?_)
      fun t c₂ h₂ ht => reads_congr (q := fail _) (bind_error (fail_apply _ _)) (reads_fail _)
    have hl₂ := line_of_passes h₂ (by simp)
    have hw₃ := h₂.wellFormed hw₂
    refine Reads.weaken (n := n) ?_ (by omega) fun _ _ h => h
    refine headed_reads hp ((parameters_reads m hw₃).weaken hm fun _ _ h => h)
      ?_ (by decide) ?_ hw₃
    · rintro ts params ⟨us, hu, rfl⟩
      simp [newlines_cons, hu.newlines_eq_zero]
    · rintro ts us params ss ⟨vs, hv, rfl⟩ hs
      rw [hl₂, hl₁, hl] at hs
      simpa using Statement.define hv hs

theorem head?_of_passes {c₁ c₂ : Cursor} {ts us : List Token} (h : c.Passes [t] c₁)
    (h' : c.Passes (ts ++ us) c₂) (ht : ts ≠ []) : ts.head? = some t := by
  have hr := h.rest.symm.trans h'.rest
  obtain ⟨u, vs, rfl⟩ := List.exists_cons_of_ne_nil ht
  obtain ⟨rfl, -⟩ := List.cons.inj hr
  rfl

theorem plainStatement_reads {x : String} (hm : n ≤ m) (hw : c.WellFormed)
    (hc : c.Passes [name x] c') :
    Reads False (n + 1) c (plainStatement m) fun ts s => Statement c.line ts s := by
  have hw₁ := hc.wellFormed hw
  apply reads_congr (bind_ok (get_apply c))
  apply reads_advance_bind hc False.elim
  refine reads_takes_bind (accept_takes equals_wellFormed) hw₁ (by simp) (fun c₁ h₁ => ?_)
    fun t c₁ h₁ ht => ?_
  · refine ((sum_reads m (h₁.wellFormed hw₁)).relax.weaken (by omega) fun _ _ h => h).bind
      fun e ts c₂ he hts hg => ?_
    exact reads_eatNewline_bind (hts.wellFormed (h₁.wellFormed hw₁)) fun c₃ h₃ =>
      reads_pure (.assign hg)
  · refine reads_takes_bind (accept_takes open_wellFormed) hw₁ (by simp) (fun c₁ h₁ => ?_)
      fun t c₂ h₂ ht' => ?_
    · refine ((arguments_reads m (h₁.wellFormed hw₁)).relax.weaken (by omega) fun _ _ h => h).bind
        fun es ts c₂ he hts hg => ?_
      obtain ⟨us, hu, rfl⟩ := hg
      exact reads_pure (by simpa using Statement.invoke hu)
    · refine ((lineArguments_reads m hw₁).weaken (by omega) fun _ _ h => h).bind
        fun es ts c₃ he hts hg => ?_
      obtain ⟨us, hu, rfl⟩ := hg
      have hh : us.head? ≠ some (symbol "(") := by
        intro h
        have hn : us ≠ [] := by rintro rfl; cases h
        rw [head?_of_passes h₂ hts hn] at h
        exact ht' (Option.some.inj h)
      exact reads_pure (by simpa using Statement.command hu hh)

theorem skipNewlines_passes (h : c.Passes [t] c') (hk : t.kind ≠ .newLine) (k : Nat) :
    skipNewlines (k + 1) c = .ok () c := by
  rw [skipNewlines, bind_ok (peek_passes h), if_neg hk]
  rfl

/-- The first token decides which parser a statement is left to. -/
theorem statement_cases (d : Nat) {t : Token} (hk : t.kind ≠ .newLine) :
    ∃ p : Parser Stmt, (∀ {c c' : Cursor}, c.Passes [t] c' → statement (d + 1) c = p c) ∧
      (t = word "If" ∧ p = conditional (termsPerStatement * d) (statement d) ∨
        t = word "While" ∧ p = loop (termsPerStatement * d) (statement d) ∨
        t = word "Method" ∧ p = definition (termsPerStatement * d) (statement d) ∨
        (∃ x, t = name x) ∧ p = plainStatement (termsPerStatement * d) ∨
        ∃ reason, p = fail reason) := by
  obtain ⟨kind, x⟩ := t
  apply Exists.intro
  constructor
  · intro c c' hc
    rw [statement, bind_ok (rounds_apply c), bind_ok (skipNewlines_passes hc hk _),
      bind_ok (peek_passes hc)]
  · cases kind with
    | keyword =>
      simp only
      split_ifs with hi hl hd
      · exact Or.inl ⟨by rw [hi], rfl⟩
      · exact Or.inr (Or.inl ⟨by rw [hl], rfl⟩)
      · exact Or.inr (Or.inr (Or.inl ⟨by rw [hd], rfl⟩))
      · exact Or.inr (Or.inr (Or.inr (Or.inr ⟨_, rfl⟩)))
    | identifier => exact Or.inr (Or.inr (Or.inr (Or.inl ⟨⟨x, rfl⟩, rfl⟩)))
    | newLine => exact absurd rfl hk
    | _ => exact Or.inr (Or.inr (Or.inr (Or.inr ⟨_, rfl⟩)))

theorem statement_reads (d : Nat) : ReadsStatement d (statement d) := by
  induction d with
  | zero =>
    intro c c' t hw hc hk
    refine ⟨fun h => ?_, fun h => ?_, fun _ hi => hi.elim⟩ <;> cases h
    exact Nat.zero_le _
  | succ d ih =>
    intro c c' t hw hc hk
    have hm : d ≤ termsPerStatement * d := by simp only [termsPerStatement]; omega
    obtain ⟨p, hp, h⟩ := statement_cases d hk
    apply reads_congr (hp hc)
    rcases h with ⟨rfl, rfl⟩ | ⟨rfl, rfl⟩ | ⟨rfl, rfl⟩ | ⟨⟨x, rfl⟩, rfl⟩ | ⟨reason, rfl⟩
    · exact conditional_reads ih hm hw hc
    · exact loop_reads ih hm hw hc
    · exact definition_reads ih hm hw hc
    · exact plainStatement_reads hm hw hc
    · exact reads_fail _

/-! ## The rounds of the loop -/

section Rounds

variable {q : Parser Bool} {p : Parser Stmt} {ss : Array Stmt}

theorem statementsUntil_stop (hq : q c = .ok true c') :
    statementsUntil q p (k + 1) ss c = .ok ss.toList c' := by
  rw [statementsUntil, bind_ok hq]
  rfl

theorem statementsUntil_newline (hq : q c = .ok false c) (hc : c.Passes [t] c')
    (hk : t.kind = .newLine) :
    statementsUntil q p (k + 1) ss c = statementsUntil q p k ss c' := by
  have ha := eatNewline_passes hc
  rw [if_pos hk] at ha
  rw [statementsUntil, bind_ok hq, if_neg Bool.false_ne_true, bind_ok (peek_passes hc), if_pos hk,
    bind_ok ha]

theorem statementsUntil_statement (hq : q c = .ok false c) (hc : c.Passes [t] c')
    (hk : t.kind ≠ .newLine) :
    statementsUntil q p (k + 1) ss c =
      (p >>= fun s => statementsUntil q p k (ss.push s)) c := by
  rw [statementsUntil, bind_ok hq, if_neg Bool.false_ne_true, bind_ok (peek_passes hc), if_neg hk]

end Rounds

theorem statementsUntil_ends {q : Parser Bool} {p : Parser Stmt} {ss : Array Stmt} {r : Program}
    (h : statementsUntil q p k ss c = .ok r c') : ∃ c₁, q c₁ = .ok true c' := by
  induction k generalizing c ss with
  | zero => cases h
  | succ k ih =>
    rw [statementsUntil] at h
    obtain ⟨b, c₁, hb, h⟩ := bind_eq_ok h
    cases b with
    | true =>
      obtain ⟨-, rfl⟩ := EStateM.Result.ok.inj h
      exact ⟨c, hb⟩
    | false =>
      obtain ⟨t, c₂, -, h⟩ := bind_eq_ok h
      split at h
      · obtain ⟨-, c₃, -, h⟩ := bind_eq_ok h
        exact ih h
      · obtain ⟨s, c₃, -, h⟩ := bind_eq_ok h
        exact ih h

theorem program_reads (d : Nat) (hw : c.WellFormed) :
    Reads False d c (program d) fun ts r => Items c.line ts r := by
  apply reads_congr (bind_ok (rounds_apply c))
  refine (statementsUntil_reads atEnd_reads (statement_reads d) _ #[] hw
    (Nat.lt_succ_self _)).weaken (Nat.le_refl _) ?_
  rintro ts r ⟨r', hr, rfl⟩
  exact hr

theorem program_ends {r : Program} (h : program d c = .ok r c') : c'.rest.length ≤ 1 := by
  rw [program, bind_ok (rounds_apply c)] at h
  obtain ⟨c₁, h₁⟩ := statementsUntil_ends h
  rw [atEnd_apply] at h₁
  obtain ⟨hl, rfl⟩ := EStateM.Result.ok.inj h₁
  exact of_decide_eq_true hl

/-- What the parser returns for a script derives from the grammar: the newline that it may leave
is one of the program's. -/
theorem program_sound {r : Program} {ts : List Token} (hw : c.WellFormed)
    (hc : c.rest = ts ++ [newline]) (h : program d c = .ok r c') : Items c.line c.rest r := by
  obtain ⟨us, hus, -, hr⟩ := (program_reads d hw).ok h
  have hl := program_ends h
  rw [hus.rest] at hc ⊢
  rcases hd : c'.rest with _ | ⟨t, r'⟩
  · simpa using hr
  · obtain rfl : r' = [] := by simpa [hd] using hl
    rw [hd] at hc
    obtain ⟨rfl, ht⟩ := List.append_inj' hc rfl
    have hn := hr.append (.newline (.nil _))
    rw [ht]
    simpa using hn

end CommandScript.Parser
