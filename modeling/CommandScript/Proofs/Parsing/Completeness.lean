import CommandScript.Proofs.Parsing.Statement

/-! # Every derivation is found

Where the grammar derives a tree, the parsers return that tree, unless they run out of depth. A
chain of operators needs to know that the token after it does not go on with it.
-/

namespace CommandScript.Parser

open Token Grammar

variable {α β : Type} {c c' c₁ c₂ : Cursor} {t : Token} {ts us : List Token} {d k : Nat}

/-- The parser returns `a` at `c'`, if it does not run out of depth. -/
def Yields (c : Cursor) (p : Parser α) (a : α) (c' : Cursor) : Prop :=
  p c = .ok a c' ∨ ∃ c₁, p c = .error .tooDeep c₁

theorem Yields.bind {p : Parser α} {f : α → Parser β} {a : α} {b : β} (hp : Yields c p a c₁)
    (hf : Yields c₁ (f a) b c') : Yields c (p >>= f) b c' := by
  rcases hp with hp | ⟨c₂, hp⟩
  · rw [Yields, bind_ok hp]
    exact hf
  · exact Or.inr ⟨c₂, bind_error hp⟩

theorem yields_congr {p q : Parser α} {a : α} (h : p c = q c₁) (hq : Yields c₁ q a c') :
    Yields c p a c' := by
  rw [Yields, h]
  exact hq

theorem yields_pure (a : α) (c : Cursor) : Yields c (pure a) a c := Or.inl rfl

theorem Takes.yields_true {q : Parser Bool} {u : Token} {f : Bool → Parser β} {b : β}
    (hq : Takes q u) (hw : c.WellFormed) (hc : c.Passes [u] c₁) (hf : Yields c₁ (f true) b c') :
    Yields c (q >>= f) b c' := by
  refine yields_congr (bind_ok ?_) hf
  rw [hq.passes hw hc, if_pos rfl]

theorem Takes.yields_false {q : Parser Bool} {u : Token} {f : Bool → Parser β} {b : β}
    (hq : Takes q u) (hw : c.WellFormed) (hc : c.Passes [t] c₁) (ht : t ≠ u)
    (hf : Yields c (f false) b c') : Yields c (q >>= f) b c' := by
  refine yields_congr (bind_ok ?_) hf
  rw [hq.passes hw hc, if_neg ht]

/-! ## Expressions -/

theorem readInt?_number {text : String} {ds : List Nat} (hw : (number text).WellFormed)
    (hds : text.toList.mapM Text.digitValue? = some ds) (hl : ds.length ≤ Text.digitLimit) :
    Text.readInt? text = some (Text.positional ds : Int) := by
  have hn : Text.IsNumeral text.toList := hw
  rw [hn.readInt?_eq hds, if_pos hl]

theorem term_yields {e : Expr} (h : Term ts e) (d : Nat) (hw : c.WellFormed)
    (hc : c.Passes ts c') : Yields c (term d) e c' := by
  induction h generalizing d c c' with
  | @number text ds hds hl =>
    cases d with
    | zero => exact Or.inr ⟨c, rfl⟩
    | succ d =>
      have hr := readInt?_number (wellFormed_of_passes hw hc) hds hl
      rw [term]
      apply yields_congr (bind_ok (peek_passes hc))
      simp only [if_true, hr]
      exact yields_congr (bind_ok (advance_passes hc)) (yields_pure _ _)
  | name x =>
    cases d with
    | zero => exact Or.inr ⟨c, rfl⟩
    | succ d =>
      rw [term]
      apply yields_congr (bind_ok (peek_passes hc))
      simp only [reduceCtorEq, if_false, if_true]
      exact yields_congr (bind_ok (advance_passes hc)) (yields_pure _ _)
  | @group ts e h ih =>
    cases d with
    | zero => exact Or.inr ⟨c, rfl⟩
    | succ d =>
      obtain ⟨c₁, h₁, hc⟩ := hc.uncons
      obtain ⟨c₂, h₂, h₃⟩ := hc.split
      have hw₁ := h₁.wellFormed hw
      rw [term]
      apply yields_congr (bind_ok (peek_passes h₁))
      simp only [reduceCtorEq, if_false, if_true]
      apply yields_congr (bind_ok (advance_passes h₁))
      apply (ih d hw₁ h₂).bind
      exact (accept_takes close_wellFormed).yields_true (h₂.wellFormed hw₁) h₃ (yields_pure _ _)

theorem operator?_symbol (allowed : Op → Bool) (op : Op) :
    operator? allowed (symbol op.lexeme) = if allowed op then some op else none := by
  simp only [operator?, if_true, Op.ofLexeme?_lexeme, Option.filter_some]

/-- The next token is no operator of the level. -/
def Stops (allowed : Op → Bool) (c : Cursor) : Prop :=
  ∃ t c', c.Passes [t] c' ∧ operator? allowed t = none

theorem stops_of_kind {allowed : Op → Bool} (hc : c.Passes [t] c') (hk : t.kind ≠ .operator) :
    Stops allowed c :=
  ⟨t, c', hc, if_neg hk⟩

theorem stops_of_operator {allowed : Op → Bool} {op : Op} (hc : c.Passes [symbol op.lexeme] c')
    (ho : allowed op = false) : Stops allowed c :=
  ⟨_, c', hc, by rw [operator?_symbol, ho]; rfl⟩

theorem chain_stops {allowed : Op → Bool} {operand : Parser Expr} {e : Expr}
    (h : Stops allowed c) (hk : c.rest.length < k) : chain allowed operand k e c = .ok e c := by
  obtain ⟨t, c', hc, ho⟩ := h
  cases k with
  | zero => exact absurd hk (Nat.not_lt_zero _)
  | succ k =>
    rw [chain, bind_ok (peek_passes hc), ho]
    rfl

theorem chain_yields {allowed : Op → Bool} {operand : Parser Expr}
    {Operand : List Token → Expr → Prop} {F : Cursor → Prop}
    (ho : ∀ {ts e c c'}, Operand ts e → c.WellFormed → c.Passes ts c' → F c' →
      Yields c operand e c')
    (hf : ∀ {op c c'}, allowed op = true → c.Passes [symbol op.lexeme] c' → F c)
    {e r : Expr} (h : Chain allowed Operand ts e) (hw : c.WellFormed) (hc : c.Passes ts c')
    (hc' : F c')
    (hr : ∀ k, c'.rest.length < k → Yields c' (chain allowed operand k e) r c₂) :
    Yields c (do let first ← operand; chain allowed operand (← rounds) first) r c₂ := by
  induction h generalizing c' r with
  | single h =>
    apply (ho h hw hc hc').bind
    exact yields_congr (bind_ok (rounds_apply c')) (hr _ (Nat.lt_succ_self _))
  | @join ts us l r' op _ ha hu ih =>
    obtain ⟨c₁, h₁, hc⟩ := hc.split
    obtain ⟨c₃, h₃, h₄⟩ := hc.uncons
    have hw₃ := h₃.wellFormed (h₁.wellFormed hw)
    have hl₃ := h₃.length
    have hl₄ := h₄.length
    simp only [List.length_singleton] at hl₃
    apply ih h₁ (hf ha h₃)
    intro k hk
    cases k with
    | zero => exact absurd hk (Nat.not_lt_zero _)
    | succ k =>
      rw [chain]
      apply yields_congr (bind_ok (peek_passes h₃))
      rw [operator?_symbol, if_pos ha]
      apply yields_congr (bind_ok (advance_passes h₃))
      exact (ho hu hw₃ h₄ hc').bind (hr k (by omega))

theorem product_yields {e : Expr} (h : Product ts e) (d : Nat) (hw : c.WellFormed)
    (hc : c.Passes ts c') (hs : Stops Op.isProduct c') : Yields c (product d) e c' :=
  chain_yields (F := fun _ => True) (fun h hw hc _ => term_yields h d hw hc)
    (fun _ _ => trivial) h hw hc trivial fun _ hk => Or.inl (chain_stops hs hk)

theorem Op.isProduct_of_isSum {op : Op} (h : op.isSum = true) : op.isProduct = false := by
  cases op <;> first | rfl | cases h

theorem sum_yields {e : Expr} (h : Sum ts e) (d : Nat) (hw : c.WellFormed)
    (hc : c.Passes ts c') (hp : Stops Op.isProduct c') (hs : Stops Op.isSum c') :
    Yields c (sum d) e c' :=
  chain_yields (fun h hw hc hf => product_yields h d hw hc hf)
    (fun ha h => stops_of_operator h (Op.isProduct_of_isSum ha)) h hw hc hp
    fun _ hk => Or.inl (chain_stops hs hk)

theorem comparison_yields {e : Expr} (h : Comparison ts e) (d : Nat) (hw : c.WellFormed)
    (hc : c.Passes ts c') (ht : c'.Passes [t] c₁) (hk : t.kind ≠ .operator) :
    Yields c (comparison d) e c' := by
  obtain ⟨hl, ho, hr⟩ := h
  obtain ⟨c₂, h₂, hc⟩ := hc.split
  obtain ⟨c₃, h₃, h₄⟩ := hc.uncons
  have hw₃ := h₃.wellFormed (h₂.wellFormed hw)
  rw [Op.isComparison, Bool.and_eq_true, Bool.not_eq_true', Bool.not_eq_true'] at ho
  apply (sum_yields hl d hw h₂ (stops_of_operator h₃ ho.2) (stops_of_operator h₃ ho.1)).bind
  apply yields_congr (bind_ok (peek_passes h₃))
  rw [operator?_symbol, if_pos (by simp [Op.isComparison, ho])]
  apply yields_congr (bind_ok (advance_passes h₃))
  exact (sum_yields hr d hw₃ h₄ (stops_of_kind ht hk) (stops_of_kind ht hk)).bind (yields_pure _ _)

/-- A token that a term can start with. -/
def StartsTerm (t : Token) : Prop :=
  t.kind = .number ∨ t.kind = .identifier ∨ t = symbol "("

theorem startsTerm_of_passes {e : Expr} (h : Term ts e) (hc : c.Passes (ts ++ us) c') :
    ∃ t c₁, c.Passes [t] c₁ ∧ StartsTerm t := by
  cases h with
  | @number text =>
    obtain ⟨c₁, h₁, -⟩ := hc.uncons
    exact ⟨number text, c₁, h₁, Or.inl rfl⟩
  | name x =>
    obtain ⟨c₁, h₁, -⟩ := hc.uncons
    exact ⟨name x, c₁, h₁, Or.inr (Or.inl rfl)⟩
  | group =>
    obtain ⟨c₁, h₁, -⟩ := hc.uncons
    exact ⟨symbol "(", c₁, h₁, Or.inr (Or.inr rfl)⟩

theorem not_startsTerm_comma : ¬ StartsTerm (symbol ",") := by
  rintro (h | h | h) <;> revert h <;> decide

theorem not_startsTerm_close : ¬ StartsTerm (symbol ")") := by
  rintro (h | h | h) <;> revert h <;> decide

theorem not_startsTerm_newline : ¬ StartsTerm newline := by
  rintro (h | h | h) <;> revert h <;> decide

theorem argument_yields_bare {e : Expr} (h : Term ts e) (d : Nat) (hw : c.WellFormed)
    (hc : c.Passes ts c') (ht : c'.Passes [t] c₁) (hn : t ≠ symbol ",") :
    Yields c (argument d) e c' :=
  (term_yields h d hw hc).bind
    ((accept_takes comma_wellFormed).yields_false (hc.wellFormed hw) ht hn (yields_pure _ _))

theorem argument_yields_comma {e : Expr} (h : Term ts e) (d : Nat) (hw : c.WellFormed)
    (hc : c.Passes ts c₁) (ht : c₁.Passes [symbol ","] c') : Yields c (argument d) e c' :=
  (term_yields h d hw hc).bind
    ((accept_takes comma_wellFormed).yields_true (hc.wellFormed hw) ht (yields_pure _ _))

theorem passes_arguments {u : Token} {es : List Expr} (h : Arguments ts es)
    (hc : c.Passes (ts ++ [u]) c') : ∃ t c₁, c.Passes [t] c₁ ∧ (StartsTerm t ∨ t = u) := by
  cases h with
  | nil => exact ⟨u, c', hc, Or.inr rfl⟩
  | bare ht _ =>
    rw [List.append_assoc] at hc
    obtain ⟨t, c₁, h₁, hs⟩ := startsTerm_of_passes ht hc
    exact ⟨t, c₁, h₁, Or.inl hs⟩
  | comma ht _ =>
    rw [List.append_assoc] at hc
    obtain ⟨t, c₁, h₁, hs⟩ := startsTerm_of_passes ht hc
    exact ⟨t, c₁, h₁, Or.inl hs⟩

theorem itemsUntil_goes {q : Parser Bool} {u : Token} (hq : Takes q u) (hs : ¬ StartsTerm u)
    {item : Parser Expr} {items : Array Expr} {e : Expr} {r : List Expr} (hw : c.WellFormed)
    (hc : c.Passes [t] c₁) (ht : StartsTerm t) (hi : Yields c item e c₂)
    (hr : Yields c₂ (itemsUntil q item k (items.push e)) r c') :
    Yields c (itemsUntil q item (k + 1) items) r c' := by
  rw [itemsUntil]
  exact hq.yields_false hw hc (fun hu => hs (hu ▸ ht)) (hi.bind hr)

theorem itemsUntil_yields {q : Parser Bool} {u : Token} (hq : Takes q u) (hs : ¬ StartsTerm u)
    (hn : u ≠ symbol ",") {es : List Expr} (h : Arguments ts es) (items : Array Expr)
    (hw : c.WellFormed) (hc : c.Passes (ts ++ [u]) c') (hk : c.rest.length < k) :
    Yields c (itemsUntil q (argument d) k items) (items.toList ++ es) c' := by
  induction h generalizing c k items with
  | nil =>
    obtain ⟨k, rfl⟩ := Nat.exists_eq_succ_of_ne_zero (Nat.ne_of_gt (Nat.zero_lt_of_lt hk))
    rw [itemsUntil, List.append_nil]
    exact hq.yields_true hw hc (yields_pure _ _)
  | @bare ts us e es ht ha ih =>
    obtain ⟨k, rfl⟩ := Nat.exists_eq_succ_of_ne_zero (Nat.ne_of_gt (Nat.zero_lt_of_lt hk))
    rw [List.append_assoc] at hc
    obtain ⟨t, c₁, h₁, hst⟩ := startsTerm_of_passes ht hc
    obtain ⟨c₂, h₂, h₃⟩ := hc.split
    obtain ⟨v, c₄, h₄, hv⟩ := passes_arguments ha h₃
    have hv : v ≠ symbol "," := by
      rintro rfl
      exact hv.elim not_startsTerm_comma fun h => hn h.symm
    have hp := ne_nil_of_argument ⟨ts, ht, Or.inl rfl⟩
    have hl := h₂.length
    apply itemsUntil_goes hq hs hw h₁ hst (argument_yields_bare ht d hw h₂ h₄ hv)
    simpa using ih (items.push e) (h₂.wellFormed hw) h₃ (by omega)
  | @comma ts us e es ht ha ih =>
    obtain ⟨k, rfl⟩ := Nat.exists_eq_succ_of_ne_zero (Nat.ne_of_gt (Nat.zero_lt_of_lt hk))
    rw [List.append_assoc] at hc
    obtain ⟨t, c₁, h₁, hst⟩ := startsTerm_of_passes ht hc
    obtain ⟨c₂, h₂, h₃⟩ := hc.split
    obtain ⟨c₃, h₃, h₄⟩ := h₃.uncons
    have hw₃ := h₃.wellFormed (h₂.wellFormed hw)
    have hl₂ := h₂.length
    have hl₃ := h₃.length
    simp only [List.length_singleton] at hl₃
    apply itemsUntil_goes hq hs hw h₁ hst (argument_yields_comma ht d hw h₂ h₃)
    simpa using ih (items.push e) hw₃ h₄ (by omega)

theorem arguments_yields {es : List Expr} (h : Arguments ts es) (d : Nat) (hw : c.WellFormed)
    (hc : c.Passes (ts ++ [symbol ")"]) c') : Yields c (arguments d) es c' := by
  apply yields_congr (bind_ok (rounds_apply c))
  simpa using itemsUntil_yields (accept_takes close_wellFormed) not_startsTerm_close (by decide) h
    #[] hw hc (Nat.lt_succ_self _)

theorem lineArguments_yields {es : List Expr} (h : Arguments ts es) (d : Nat) (hw : c.WellFormed)
    (hc : c.Passes (ts ++ [newline]) c') : Yields c (lineArguments d) es c' := by
  apply yields_congr (bind_ok (rounds_apply c))
  simpa using itemsUntil_yields acceptNewline_takes not_startsTerm_newline (by decide) h
    #[] hw hc (Nat.lt_succ_self _)

theorem mapM_parameter_yields (params : List String) (c : Cursor) :
    Yields c ((params.map Expr.var).mapM parameter) params c := by
  induction params with
  | nil => exact yields_pure _ _
  | cons x params ih =>
    rw [List.map_cons, List.mapM_cons]
    apply yields_congr (bind_ok (pure_apply x c))
    exact ih.bind (yields_pure _ _)

theorem parameters_yields {params : List String} (h : Arguments ts (params.map .var)) (d : Nat)
    (hw : c.WellFormed) (hc : c.Passes (ts ++ [symbol ")"]) c') :
    Yields c (parameters d) params c' :=
  (arguments_yields h d hw hc).bind (mapM_parameter_yields params c')

/-! ## Statements -/

theorem statement_head {line : Int} {s : Stmt} (h : Statement line ts s) (hw : c.WellFormed)
    (hc : c.Passes ts c') : ∃ t us c₁, c.Passes [t] c₁ ∧ c₁.Passes us c' ∧ us ≠ [] ∧
      t.kind ≠ .newLine ∧ t.value ∉ terminators := by
  have ht : ∀ x ∈ terminators, x ∈ keywords := by decide
  have named : ∀ {x us}, c.Passes (name x :: us) c' → us ≠ [] → ∃ t us c₁, c.Passes [t] c₁ ∧
      c₁.Passes us c' ∧ us ≠ [] ∧ t.kind ≠ .newLine ∧ t.value ∉ terminators := by
    intro x us hc hu
    obtain ⟨c₁, h₁, h₂⟩ := hc.uncons
    have hx : Text.IsWord x.toList ∧ x ∉ keywords := wellFormed_of_passes hw h₁
    exact ⟨name x, us, c₁, h₁, h₂, hu, by simp, fun h => hx.2 (ht x h)⟩
  cases h with
  | conditional =>
    obtain ⟨c₁, h₁, h₂⟩ := hc.uncons
    exact ⟨_, _, c₁, h₁, h₂, by simp, by simp, by decide⟩
  | loop =>
    obtain ⟨c₁, h₁, h₂⟩ := hc.uncons
    exact ⟨_, _, c₁, h₁, h₂, by simp, by simp, by decide⟩
  | define =>
    obtain ⟨c₁, h₁, h₂⟩ := hc.uncons
    exact ⟨_, _, c₁, h₁, h₂, by simp, by simp, by decide⟩
  | assign => exact named hc (by simp)
  | invoke => exact named hc (by simp)
  | command => exact named hc (by simp)

def YieldsStatement (p : Parser Stmt) : Prop :=
  ∀ {c c' : Cursor} {ts : List Token} {s : Stmt}, c.WellFormed → c.Passes ts c' →
    Statement c.line ts s → Yields c p s c'

/-- Up to `c'` the loop passes over the items; it may stop at `c'` or just before it. -/
theorem statementsUntil_yields {q : Parser Bool} {p : Parser Stmt} (hp : YieldsStatement p)
    {E : Cursor → Prop}
    (hq : ∀ {c c₁ t us}, c.Passes [t] c₁ → c₁.Passes us c' → t.value ∉ terminators →
      q c = .ok false c ∨ us = [] ∧ q c = .ok true c ∧ E c)
    (he : q c' = .ok true c' ∧ E c') {line : Int} {ss : Program} (hs : Items line ts ss)
    (acc : Array Stmt) (k : Nat) (hw : c.WellFormed) (hc : c.Passes ts c') (hl : c.line = line)
    (hk : c.rest.length < k) :
    ∃ c₁, E c₁ ∧ Yields c (statementsUntil q p k acc) (acc.toList ++ ss) c₁ := by
  induction hs using Items.along generalizing c k acc with
  | nil =>
    obtain ⟨k, rfl⟩ := Nat.exists_eq_succ_of_ne_zero (Nat.ne_of_gt (Nat.zero_lt_of_lt hk))
    obtain rfl := hc.eq_of_nil
    rw [statementsUntil, List.append_nil]
    exact ⟨c, he.2, yields_congr (bind_ok he.1) (yields_pure _ _)⟩
  | @newline line ts ss hs ih =>
    obtain ⟨k, rfl⟩ := Nat.exists_eq_succ_of_ne_zero (Nat.ne_of_gt (Nat.zero_lt_of_lt hk))
    obtain ⟨c₁, h₁, h₂⟩ := hc.uncons
    rw [statementsUntil]
    rcases hq h₁ h₂ (by decide) with hb | ⟨rfl, hb, hE⟩
    · have hl₁ := h₁.length
      simp only [List.length_singleton] at hl₁
      have hn : c₁.line = line + 1 := by simpa [newlines_cons, hl] using h₁.line
      obtain ⟨c₂, hE, hy⟩ := ih acc k (h₁.wellFormed hw) h₂ hn (by omega)
      refine ⟨c₂, hE, yields_congr (bind_ok hb) ?_⟩
      apply yields_congr (bind_ok (peek_passes h₁))
      exact yields_congr (bind_ok (eatNewline_passes h₁)) hy
    · obtain rfl := hs.eq_nil rfl
      rw [List.append_nil]
      exact ⟨c, hE, yields_congr (bind_ok hb) (yields_pure _ _)⟩
  | @statement line ts us s ss hs hi ih =>
    obtain ⟨k, rfl⟩ := Nat.exists_eq_succ_of_ne_zero (Nat.ne_of_gt (Nat.zero_lt_of_lt hk))
    obtain ⟨c₁, h₁, h₂⟩ := hc.split
    rw [← hl] at hs
    obtain ⟨t, vs, c₂, h₃, h₄, hv, hn, ht⟩ := statement_head hs hw h₁
    have hl₁ := h₁.length
    have h2 := two_le_length hs
    obtain ⟨c₅, hE, hy⟩ :=
      ih (acc.push s) k (h₁.wellFormed hw) h₂ (by rw [h₁.line, hl]) (by omega)
    rcases hq h₃ (h₄.trans h₂) ht with hb | ⟨h, -⟩
    · rw [statementsUntil]
      refine ⟨c₅, hE, yields_congr (bind_ok hb) ?_⟩
      apply yields_congr (bind_ok (peek_passes h₃))
      rw [if_neg hn]
      apply (hp hw h₁ hs).bind
      simpa using hy
    · exact absurd (List.append_eq_nil_iff.mp h).1 hv

theorem block_yields {p : Parser Stmt} (hp : YieldsStatement p) {value : String}
    (hv : value ∈ terminators) {ss : Program} (hs : Items c.line ts ss) (hw : c.WellFormed)
    (hc : c.Passes (ts ++ [word value]) c') : Yields c (block p value) (.block ss) c' := by
  obtain ⟨c₁, h₁, h₂⟩ := hc.split
  have hq : ∀ {c c₂ : Cursor} {t us}, c.Passes [t] c₂ → c₂.Passes us c₁ → t.value ∉ terminators →
      atTerminator value c = .ok false c ∨
        us = [] ∧ atTerminator value c = .ok true c ∧ c = c₁ := by
    intro c c₂ t us h hu ht
    have hr : c₂.rest ≠ [] := by rw [hu.rest, h₂.rest]; simp
    have ha := atTerminator_passes value h
    rw [if_neg ht, if_neg hr] at ha
    exact Or.inl ha
  have he : atTerminator value c₁ = .ok true c₁ := by
    rw [atTerminator_passes value h₂, if_pos hv]
  obtain ⟨c₂, rfl, hy⟩ := statementsUntil_yields hp hq ⟨he, rfl⟩ hs #[] _ hw h₁ rfl
    (Nat.lt_succ_self _)
  apply yields_congr (bind_ok (rounds_apply c))
  apply Yields.bind (by simpa using hy)
  have ha := expect_passes value h₂
  rw [if_pos rfl] at ha
  exact yields_congr (bind_ok ha) (yields_pure _ _)

theorem headed_yields {p : Parser Stmt} (hp : YieldsStatement p) {q : Parser α} {a : α}
    {value : String} {f : α → Stmt → Stmt} (hq : ∀ {c₁ c₂}, c.Passes ts c₁ →
      c₁.Passes [newline] c₂ → Yields c q a c₁) (hn : newlines ts = 0) (hv : value ∈ terminators)
    {ss : Program} (hs : Items (c.line + 1) us ss) (hw : c.WellFormed)
    (hc : c.Passes (ts ++ newline :: (us ++ [word value])) c') :
    Yields c (do let a ← q; eatNewline; let s ← block p value; return f a s)
      (f a (.block ss)) c' := by
  obtain ⟨c₁, h₁, hc⟩ := hc.split
  obtain ⟨c₂, h₂, h₃⟩ := hc.uncons
  have hl : c₂.line = c.line + 1 := by
    rw [h₂.line, h₁.line, hn]
    simp [newlines_cons]
  have ha := eatNewline_passes h₂
  rw [if_pos rfl] at ha
  apply (hq h₁ h₂).bind
  apply yields_congr (bind_ok ha)
  apply Yields.bind (block_yields hp hv (hl ▸ hs) (h₂.wellFormed (h₁.wellFormed hw)) h₃)
  exact yields_pure _ _

theorem conditional_yields {p : Parser Stmt} (hp : YieldsStatement p) {e : Expr} {ss : Program}
    (he : Comparison ts e) (hs : Items (c.line + 1) us ss) (hw : c.WellFormed)
    (hc : c.Passes (word "If" :: (ts ++ newline :: (us ++ [word "Endif"]))) c') :
    Yields c (conditional d p) (.conditional e (.block ss) c.line) c' := by
  obtain ⟨c₁, h₁, h₂⟩ := hc.uncons
  have hw₁ := h₁.wellFormed hw
  apply yields_congr (bind_ok (get_apply c))
  apply yields_congr (bind_ok (advance_passes h₁))
  apply headed_yields hp (fun h h' => comparison_yields he d hw₁ h h' (by simp))
    he.newlines_eq_zero (by decide) _ hw₁ h₂
  rwa [line_of_passes h₁ (by simp)]

theorem loop_yields {p : Parser Stmt} (hp : YieldsStatement p) {e : Expr} {ss : Program}
    (he : Comparison ts e) (hs : Items (c.line + 1) us ss) (hw : c.WellFormed)
    (hc : c.Passes (word "While" :: (ts ++ newline :: (us ++ [word "Endloop"]))) c') :
    Yields c (loop d p) (.loop e (.block ss) c.line) c' := by
  obtain ⟨c₁, h₁, h₂⟩ := hc.uncons
  have hw₁ := h₁.wellFormed hw
  apply yields_congr (bind_ok (get_apply c))
  apply yields_congr (bind_ok (advance_passes h₁))
  apply headed_yields hp (fun h h' => comparison_yields he d hw₁ h h' (by simp))
    he.newlines_eq_zero (by decide) _ hw₁ h₂
  rwa [line_of_passes h₁ (by simp)]

theorem definition_yields {p : Parser Stmt} (hp : YieldsStatement p) {x : String}
    {params : List String} {ss : Program} (ha : Arguments ts (params.map .var))
    (hs : Items (c.line + 1) us ss) (hw : c.WellFormed)
    (hc : c.Passes (word "Method" :: name x :: symbol "(" :: (ts ++ symbol ")" :: newline ::
      (us ++ [word "Endmethod"]))) c') :
    Yields c (definition d p) (.define x params (.block ss) c.line) c' := by
  obtain ⟨c₁, h₁, hc⟩ := hc.uncons
  obtain ⟨c₂, h₂, hc⟩ := hc.uncons
  obtain ⟨c₃, h₃, hc⟩ := hc.uncons
  have hw₂ := h₂.wellFormed (h₁.wellFormed hw)
  have hw₃ := h₃.wellFormed hw₂
  have hc : c₃.Passes ((ts ++ [symbol ")"]) ++ newline :: (us ++ [word "Endmethod"])) c' := by
    simpa using hc
  apply yields_congr (bind_ok (get_apply c))
  apply yields_congr (bind_ok (advance_passes h₁))
  apply yields_congr (bind_ok (peek_passes h₂))
  simp only [ne_eq, not_true_eq_false, if_false]
  apply yields_congr (bind_ok (advance_passes h₂))
  apply (accept_takes open_wellFormed).yields_true hw₂ h₃
  apply headed_yields hp (fun h _ => parameters_yields ha d hw₃ h) _ (by decide) _ hw₃ hc
  · simp [newlines_cons, ha.newlines_eq_zero]
  · rwa [line_of_passes h₃ (by simp), line_of_passes h₂ (by simp), line_of_passes h₁ (by simp)]

theorem assign_yields {x : String} {e : Expr} (he : Sum ts e) (hw : c.WellFormed)
    (hc : c.Passes (name x :: symbol "=" :: (ts ++ [newline])) c') :
    Yields c (plainStatement d) (.assign x e c.line) c' := by
  obtain ⟨c₁, h₁, hc⟩ := hc.uncons
  obtain ⟨c₂, h₂, hc⟩ := hc.uncons
  obtain ⟨c₃, h₃, h₄⟩ := hc.split
  have hw₁ := h₁.wellFormed hw
  have ha := eatNewline_passes h₄
  rw [if_pos rfl] at ha
  apply yields_congr (bind_ok (get_apply c))
  apply yields_congr (bind_ok (advance_passes h₁))
  apply (accept_takes equals_wellFormed).yields_true hw₁ h₂
  apply Yields.bind (sum_yields he d (h₂.wellFormed hw₁) h₃ (stops_of_kind h₄ (by simp))
    (stops_of_kind h₄ (by simp)))
  exact yields_congr (bind_ok ha) (yields_pure _ _)

theorem invoke_yields {x : String} {es : List Expr} (he : Arguments ts es) (hw : c.WellFormed)
    (hc : c.Passes (name x :: symbol "(" :: (ts ++ [symbol ")"])) c') :
    Yields c (plainStatement d) (.invoke x es c.line) c' := by
  obtain ⟨c₁, h₁, hc⟩ := hc.uncons
  obtain ⟨c₂, h₂, h₃⟩ := hc.uncons
  have hw₁ := h₁.wellFormed hw
  apply yields_congr (bind_ok (get_apply c))
  apply yields_congr (bind_ok (advance_passes h₁))
  apply (accept_takes equals_wellFormed).yields_false hw₁ h₂ (by decide)
  apply (accept_takes open_wellFormed).yields_true hw₁ h₂
  exact (arguments_yields he d (h₂.wellFormed hw₁) h₃).bind (yields_pure _ _)

theorem not_startsTerm_equals : ¬ StartsTerm (symbol "=") := by
  rintro (h | h | h) <;> revert h <;> decide

theorem command_yields {x : String} {es : List Expr} (he : Arguments ts es)
    (hh : ts.head? ≠ some (symbol "(")) (hw : c.WellFormed)
    (hc : c.Passes (name x :: (ts ++ [newline])) c') :
    Yields c (plainStatement d) (.command x es c.line) c' := by
  obtain ⟨c₁, h₁, h₂⟩ := hc.uncons
  obtain ⟨t, c₂, h₃, ht⟩ := passes_arguments he h₂
  have hw₁ := h₁.wellFormed hw
  have hn : t ≠ symbol "=" := by
    rintro rfl
    exact ht.elim not_startsTerm_equals (by decide)
  have ho : t ≠ symbol "(" := by
    rintro rfl
    cases ts with
    | nil => exact absurd (List.cons.inj (h₃.rest.symm.trans h₂.rest)).1 (by decide)
    | cons u us => exact hh (head?_of_passes h₃ h₂ (by simp))
  apply yields_congr (bind_ok (get_apply c))
  apply yields_congr (bind_ok (advance_passes h₁))
  apply (accept_takes equals_wellFormed).yields_false hw₁ h₃ hn
  apply (accept_takes open_wellFormed).yields_false hw₁ h₃ ho
  exact (lineArguments_yields he d hw₁ h₂).bind (yields_pure _ _)

theorem statement_yields (d : Nat) : YieldsStatement (statement d) := by
  induction d with
  | zero => exact fun {c _ _ _} _ _ _ => Or.inr ⟨c, rfl⟩
  | succ d ih =>
    intro c c' ts s hw hc hs
    obtain ⟨t, us, c₁, h₁, -, -, hk, -⟩ := statement_head hs hw hc
    rw [statement]
    apply yields_congr (bind_ok (rounds_apply c))
    apply yields_congr (bind_ok (skipNewlines_passes h₁ hk _))
    cases hs with
    | conditional he hi =>
      apply yields_congr (bind_ok (peek_passes hc))
      exact conditional_yields ih he hi hw hc
    | loop he hi =>
      apply yields_congr (bind_ok (peek_passes hc))
      exact loop_yields ih he hi hw hc
    | define ha hi =>
      apply yields_congr (bind_ok (peek_passes hc))
      exact definition_yields ih ha hi hw hc
    | assign he =>
      apply yields_congr (bind_ok (peek_passes hc))
      exact assign_yields he hw hc
    | invoke ha =>
      apply yields_congr (bind_ok (peek_passes hc))
      exact invoke_yields ha hw hc
    | command ha hh =>
      apply yields_congr (bind_ok (peek_passes hc))
      exact command_yields ha hh hw hc

/-- Every derivation of a whole script is found. -/
theorem program_yields (d : Nat) {p : Program} (hw : c.WellFormed)
    (hp : Items c.line c.rest p) : ∃ c', Yields c (program d) p c' := by
  obtain ⟨c', hc, hr⟩ : ∃ c', c.Passes c.rest c' ∧ c'.rest = [] :=
    ⟨⟨[], _, _⟩, ⟨(List.append_nil _).symm, rfl, rfl⟩, rfl⟩
  have hq : ∀ {c c₁ : Cursor} {t us}, c.Passes [t] c₁ → c₁.Passes us c' → t.value ∉ terminators →
      atEnd c = .ok false c ∨ us = [] ∧ atEnd c = .ok true c ∧ True := by
    intro c c₁ t us h hu _
    have hl := h.length
    have hl₁ := hu.length
    rw [hr, List.length_nil] at hl₁
    cases us with
    | nil => exact Or.inr ⟨rfl, by rw [atEnd_apply, hl, hl₁]; rfl, trivial⟩
    | cons v us =>
      apply Or.inl
      rw [atEnd_apply, decide_eq_false]
      simp only [List.length_cons] at hl hl₁
      omega
  have he : atEnd c' = .ok true c' := by rw [atEnd_apply, hr]; rfl
  obtain ⟨c₁, -, hy⟩ := statementsUntil_yields (statement_yields d) hq ⟨he, trivial⟩ hp #[] _ hw hc
    rfl (Nat.lt_succ_self _)
  refine ⟨c₁, yields_congr (bind_ok (rounds_apply c)) ?_⟩
  simpa using hy

end CommandScript.Parser
