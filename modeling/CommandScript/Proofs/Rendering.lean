import CommandScript.Proofs.Equality
import CommandScript.Proofs.WellFormed

/-! # Rendering programs

Every well-formed program has a source text: its tokens with single blanks between them, on a line
for each statement, for the head of each block and for the word that closes it. The text parses to
the program again, but for the lines.
-/

namespace CommandScript

open Token Grammar

/-! ## The text of a program -/

namespace Expr

def tokens : Expr → List Token
  | int value => [number value.repr]
  | var name => [Token.name name]
  | arith left operator right => left.tokens ++ symbol operator.lexeme :: right.tokens
  | compare left operator right => left.tokens ++ symbol operator.lexeme :: right.tokens
  | misplaced _ => []

/-- Arguments with commas between them. -/
def listed : List Expr → List Token
  | [] => []
  | [e] => e.tokens
  | e :: e' :: es => e.tokens ++ symbol "," :: listed (e' :: es)

end Expr

mutual

/-- The lines of a statement, as tokens. -/
def Stmt.tokenLines : Stmt → List (List Token)
  | .block statements => Stmt.tokenLinesAll statements
  | .conditional condition body _ =>
    (word "If" :: condition.tokens) :: (body.tokenLines ++ [[word "Endif"]])
  | .loop condition body _ =>
    (word "While" :: condition.tokens) :: (body.tokenLines ++ [[word "Endloop"]])
  | .assign name value _ => [Token.name name :: symbol "=" :: value.tokens]
  | .define name params body _ =>
    (word "Method" :: Token.name name :: symbol "(" ::
      (Expr.listed (params.map .var) ++ [symbol ")"])) :: (body.tokenLines ++ [[word "Endmethod"]])
  | .invoke name args _ => [Token.name name :: symbol "(" :: (Expr.listed args ++ [symbol ")"])]
  | .command name args _ => [Token.name name :: Expr.listed args]
  | .misplaced _ => []

def Stmt.tokenLinesAll : List Stmt → List (List Token)
  | [] => []
  | s :: ss => s.tokenLines ++ Stmt.tokenLinesAll ss

end

/-- Tokens on a line, with single blanks between them. -/
def Token.lineText (ts : List Token) : String := " ".intercalate (ts.map Token.value)

/-- Lines of tokens, each ended by a newline. -/
def Token.layout (rows : List (List Token)) : String :=
  String.join (rows.map fun ts => lineText ts ++ "\n")

def Program.render (p : Program) : String := layout (Stmt.tokenLinesAll p)

/-! ## Lexing the text -/

namespace Token

/-- The tokens of lines with the newlines that end them. -/
def flat (rows : List (List Token)) : List Token := rows.flatMap fun ts => ts ++ [newline]

@[simp] theorem flat_nil : flat [] = [] := rfl

@[simp] theorem flat_cons (ts : List Token) (rows : List (List Token)) :
    flat (ts :: rows) = ts ++ newline :: flat rows := by
  simp [flat]

@[simp] theorem flat_append (rows rows' : List (List Token)) :
    flat (rows ++ rows') = flat rows ++ flat rows' := by
  simp [flat]

variable {ts : List Token} {text : String}

/-- The text of the tokens with blanks between them, and blanks or nothing at either end. -/
def Spaced (ts : List Token) (text : String) : Prop :=
  ∃ gap pieces, text.toList = gap ++ spell pieces ∧ pieces.map Prod.fst = ts ∧
    Text.IsGap gap ∧ (∀ p ∈ pieces, Text.IsGap p.2) ∧ pieces.IsChain fun p _ => p.2 ≠ []

/-- Spaced tokens are lexed to these tokens, whatever the blanks. -/
theorem Spaced.lex_eq (h : Spaced ts text) (hw : ∀ t ∈ ts, t.WellFormed) :
    lex text = ts ++ [newline] := by
  obtain ⟨gap, pieces, he, rfl, hg, hgs, hc⟩ := h
  have hm : Munch (text ++ "\n").toList gap (pieces ++ [(newline, [])]) := by
    refine ⟨?_, hg, List.forall_mem_append.mpr ⟨hgs, ?_⟩, List.forall_mem_append.mpr ⟨?_, ?_⟩,
      List.isChain_append.mpr ⟨hc.imp ?_, .singleton _, ?_⟩⟩
    · simp [he, spell]
    · simp [Text.IsGap]
    · exact fun p hp => spelled_iff.mpr (hw p.1 (List.mem_map_of_mem hp))
    · simp [Spelled]
    · exact fun p q hp h => absurd h hp
    · rintro p - q hq - c hc
      -- nothing goes on with the newline at the end
      obtain rfl : (newline, []) = q := by simpa using hq
      obtain rfl : '\n' = c := by simpa using hc
      exact not_extends (Or.inr (by decide))
  rw [lex_eq_of_munch hm, List.map_append]
  rfl

theorem lineText_cons_cons (t u : Token) (us : List Token) :
    lineText (t :: u :: us) = t.value ++ " " ++ lineText (u :: us) := by
  simp [lineText, String.intercalate_cons_cons]

theorem mem_lineText {ts : List Token} {c : Char} (h : c ∈ (lineText ts).toList) :
    c = ' ' ∨ ∃ t ∈ ts, c ∈ t.value.toList := by
  induction ts with
  | nil => simp [lineText] at h
  | cons t us ih =>
    cases us with
    | nil =>
      have ht : lineText [t] = t.value := by simp [lineText]
      exact Or.inr ⟨t, by simp, ht ▸ h⟩
    | cons u us =>
      simp only [lineText_cons_cons, String.toList_append, List.mem_append] at h
      rcases h with (h | h) | h
      · exact Or.inr ⟨t, List.mem_cons_self, h⟩
      · exact Or.inl (List.mem_singleton.mp h)
      · rcases ih h with hc | ⟨v, hv, hc⟩
        · exact Or.inl hc
        · exact Or.inr ⟨v, List.mem_cons_of_mem _ hv, hc⟩

theorem spaced_lineText (ts : List Token) : Spaced ts (lineText ts) := by
  induction ts with
  | nil => exact ⟨[], [], by simp [lineText, spell], rfl, by simp [Text.IsGap], by simp, .nil⟩
  | cons t ts ih =>
    cases ts with
    | nil =>
      exact ⟨[], [(t, [])], by simp [lineText, spell], rfl, by simp [Text.IsGap],
        by simp [Text.IsGap], .singleton _⟩
    | cons u us =>
      obtain ⟨gap, pieces, he, hm, hg, hgs, hc⟩ := ih
      have hb : Text.IsGap (' ' :: gap) :=
        List.forall_mem_cons.mpr ⟨by decide, hg⟩
      refine ⟨[], (t, ' ' :: gap) :: pieces, ?_, by rw [List.map_cons, hm], by simp [Text.IsGap],
        List.forall_mem_cons.mpr ⟨hb, hgs⟩, List.isChain_cons.mpr ⟨by simp, hc⟩⟩
      simp [lineText_cons_cons, he, spell]

theorem lex_lineText (hw : ∀ t ∈ ts, t.WellFormed) : lex (lineText ts) = ts ++ [newline] :=
  (spaced_lineText ts).lex_eq hw

theorem lex_layout {rows : List (List Token)} (hw : ∀ ts ∈ rows, ∀ t ∈ ts, t.WellFormed) :
    lex (layout rows) = flat rows ++ [newline] := by
  induction rows with
  | nil => decide
  | cons ts rows ih =>
    obtain ⟨ht, hr⟩ := List.forall_mem_cons.mp hw
    have he : layout (ts :: rows) = lineText ts ++ "\n" ++ layout rows := String.join_cons
    rw [he, lex_append_newline, lex_lineText ht, ih hr, flat_cons]
    simp

end Token

/-! ## Deriving the tokens -/

namespace Expr

variable {e : Expr} {es : List Expr}

theorem IsLeaf.term (h : e.IsLeaf) : Term e.tokens e ∧ ∀ t ∈ e.tokens, t.WellFormed := by
  cases h with
  | @int n hn =>
    obtain ⟨ds, hds, hl, rfl⟩ := Text.exists_digits_repr hn
    refine ⟨.number hds hl, ?_⟩
    exact List.forall_mem_singleton.mpr (Text.isNumeral_repr _)
  | var hx => exact ⟨.name _, by simpa [tokens] using isName_iff.mp hx⟩

theorem lexeme_wellFormed (op : Op) : (symbol op.lexeme).WellFormed := by
  have hs : op.lexeme.toList.all (fun c => Text.CharClass.of c = .symbol) = true := by
    cases op <;> decide
  refine ⟨by cases op <;> decide, ?_⟩
  intro c hc
  exact of_decide_eq_true (List.all_eq_true.mp hs c hc)

theorem forall_mem_join {ts us : List Token} (op : Op) (hl : ∀ t ∈ ts, t.WellFormed)
    (hr : ∀ t ∈ us, t.WellFormed) : ∀ t ∈ ts ++ symbol op.lexeme :: us, t.WellFormed :=
  List.forall_mem_append.mpr ⟨hl, List.forall_mem_cons.mpr ⟨lexeme_wellFormed op, hr⟩⟩

theorem IsProduct.product (h : e.IsProduct) :
    Product e.tokens e ∧ ∀ t ∈ e.tokens, t.WellFormed := by
  induction h with
  | leaf h => exact ⟨.single h.term.1, h.term.2⟩
  | @join l r op _ ho hr ih => exact ⟨.join ih.1 ho hr.term.1, forall_mem_join op ih.2 hr.term.2⟩

theorem IsSum.sum (h : e.IsSum) : Sum e.tokens e ∧ ∀ t ∈ e.tokens, t.WellFormed := by
  induction h with
  | product h => exact ⟨.single h.product.1, h.product.2⟩
  | @join l r op _ ho hr ih =>
    exact ⟨.join ih.1 ho hr.product.1, forall_mem_join op ih.2 hr.product.2⟩

theorem IsComparison.comparison (h : e.IsComparison) :
    Comparison e.tokens e ∧ ∀ t ∈ e.tokens, t.WellFormed := by
  obtain @⟨l, r, op, hl, ho, hr⟩ := h
  exact ⟨.mk hl.sum.1 ho hr.sum.1, forall_mem_join op hl.sum.2 hr.sum.2⟩

theorem arguments_listed (h : ∀ e ∈ es, e.IsLeaf) :
    Arguments (listed es) es ∧ ∀ t ∈ listed es, t.WellFormed := by
  induction es with
  | nil => exact ⟨.nil, by simp [listed]⟩
  | cons e es ih =>
    obtain ⟨he, hes⟩ := List.forall_mem_cons.mp h
    obtain ⟨hd, hw⟩ := ih hes
    obtain ⟨ht, htw⟩ := he.term
    cases es with
    | nil => exact ⟨by simpa [listed] using Arguments.bare ht .nil, htw⟩
    | cons e' es =>
      exact ⟨.comma ht hd, List.forall_mem_append.mpr
        ⟨htw, List.forall_mem_cons.mpr ⟨Parser.comma_wellFormed, hw⟩⟩⟩

theorem head?_listed (h : ∀ e ∈ es, e.IsLeaf) : (listed es).head? ≠ some (symbol "(") := by
  match es with
  | [] => simp [listed]
  | [e] => cases h e (by simp) <;> simp [listed, tokens]
  | e :: e' :: es => cases h e (by simp) <;> simp [listed, tokens]

theorem isLeaf_var_of_isName {params : List String} (h : ∀ x ∈ params, IsName x) :
    ∀ e ∈ params.map var, e.IsLeaf :=
  List.forall_mem_map.mpr fun x hx => .var (h x hx)

end Expr

theorem IsName.called {x : String} {es : List Expr} (hx : IsName x) (he : ∀ e ∈ es, e.IsLeaf) :
    ∀ t ∈ Token.name x :: symbol "(" :: (Expr.listed es ++ [symbol ")"]), t.WellFormed := by
  refine List.forall_mem_cons.mpr ⟨isName_iff.mp hx, List.forall_mem_cons.mpr
    ⟨Parser.open_wellFormed, List.forall_mem_append.mpr ⟨(Expr.arguments_listed he).2, ?_⟩⟩⟩
  exact List.forall_mem_singleton.mpr Parser.close_wellFormed

namespace Stmt

variable {s : Stmt} {ss : List Stmt} {line : Int}

/-- On every line, the tokens of the statement derive it, but for the lines. -/
def Derivable (s : Stmt) : Prop :=
  ∀ line, ∃ s', s'.withoutLines = s.withoutLines ∧ Items line (flat s.tokenLines) [s']

theorem exists_items_tokenLinesAll (h : ∀ s ∈ ss, s.Derivable) (line : Int) :
    ∃ ss', ss'.map withoutLines = ss.map withoutLines ∧
      Items line (flat (tokenLinesAll ss)) ss' := by
  induction ss generalizing line with
  | nil => exact ⟨[], rfl, .nil line⟩
  | cons s ss ih =>
    obtain ⟨hs, hss⟩ := List.forall_mem_cons.mp h
    obtain ⟨s', he, hi⟩ := hs line
    obtain ⟨ss', hes, his⟩ := ih hss (line + newlines (flat s.tokenLines))
    refine ⟨s' :: ss', by rw [List.map_cons, he, hes, List.map_cons], ?_⟩
    rw [tokenLinesAll, flat_append]
    exact hi.append his

theorem tokenLinesAll_wellFormed (h : ∀ s ∈ ss, ∀ ts ∈ s.tokenLines, ∀ t ∈ ts, t.WellFormed) :
    ∀ ts ∈ tokenLinesAll ss, ∀ t ∈ ts, t.WellFormed := by
  induction ss with
  | nil => simp [tokenLinesAll]
  | cons s ss ih =>
    obtain ⟨hs, hss⟩ := List.forall_mem_cons.mp h
    exact List.forall_mem_append.mpr ⟨hs, ih hss⟩

theorem items_of_statement {ts : List Token} (h : Statement line ts s) :
    Items line (ts ++ [newline]) [s] :=
  .statement h (.newline (.nil _))

theorem WellFormed.derivable (h : s.WellFormed) : s.Derivable := by
  induction h with
  | @conditional e ss _ he _ ih =>
    intro line
    obtain ⟨ss', hes, hi⟩ := exists_items_tokenLinesAll ih (line + 1)
    refine ⟨.conditional e (.block ss') line, by simp [hes], ?_⟩
    simpa [tokenLines] using items_of_statement (.conditional he.comparison.1 hi)
  | @loop e ss _ he _ ih =>
    intro line
    obtain ⟨ss', hes, hi⟩ := exists_items_tokenLinesAll ih (line + 1)
    refine ⟨.loop e (.block ss') line, by simp [hes], ?_⟩
    simpa [tokenLines] using items_of_statement (.loop he.comparison.1 hi)
  | @assign x e _ hx he =>
    intro line
    refine ⟨.assign x e line, rfl, ?_⟩
    simpa [tokenLines] using Items.statement (.assign he.sum.1) (.nil _)
  | @define x params ss _ hx hp _ ih =>
    intro line
    obtain ⟨ss', hes, hi⟩ := exists_items_tokenLinesAll ih (line + 1)
    refine ⟨.define x params (.block ss') line, by simp [hes], ?_⟩
    have ha := (Expr.arguments_listed (Expr.isLeaf_var_of_isName hp)).1
    simpa [tokenLines] using items_of_statement (.define ha hi)
  | @invoke x es _ hx he =>
    intro line
    refine ⟨.invoke x es line, rfl, ?_⟩
    simpa [tokenLines] using items_of_statement (.invoke (Expr.arguments_listed he).1)
  | @command x es _ hx he =>
    intro line
    refine ⟨.command x es line, rfl, ?_⟩
    have hs : Statement line _ (.command x es line) :=
      .command (Expr.arguments_listed he).1 (Expr.head?_listed he)
    simpa [tokenLines] using Items.statement hs (.nil _)

theorem forall_mem_enclosed {ts : List Token} {value : String} (ht : ∀ t ∈ ts, t.WellFormed)
    (hs : ∀ s ∈ ss, ∀ us ∈ s.tokenLines, ∀ t ∈ us, t.WellFormed) (hv : value ∈ keywords) :
    ∀ us ∈ ts :: ((block ss).tokenLines ++ [[word value]]), ∀ t ∈ us, t.WellFormed := by
  refine List.forall_mem_cons.mpr ⟨ht, List.forall_mem_append.mpr ⟨?_, ?_⟩⟩
  · rw [tokenLines]
    exact tokenLinesAll_wellFormed hs
  · simpa using Parser.word_wellFormed hv

theorem WellFormed.tokenLines_wellFormed (h : s.WellFormed) :
    ∀ ts ∈ s.tokenLines, ∀ t ∈ ts, t.WellFormed := by
  induction h with
  | conditional he _ ih =>
    rw [tokenLines]
    refine forall_mem_enclosed (List.forall_mem_cons.mpr ⟨?_, he.comparison.2⟩) ih (by decide)
    exact Parser.word_wellFormed (by decide)
  | loop he _ ih =>
    rw [tokenLines]
    refine forall_mem_enclosed (List.forall_mem_cons.mpr ⟨?_, he.comparison.2⟩) ih (by decide)
    exact Parser.word_wellFormed (by decide)
  | assign hx he =>
    rw [tokenLines, List.forall_mem_singleton]
    exact List.forall_mem_cons.mpr ⟨isName_iff.mp hx,
      List.forall_mem_cons.mpr ⟨Parser.equals_wellFormed, he.sum.2⟩⟩
  | define hx hp _ ih =>
    rw [tokenLines]
    refine forall_mem_enclosed (List.forall_mem_cons.mpr ⟨?_, ?_⟩) ih (by decide)
    · exact Parser.word_wellFormed (by decide)
    · exact hx.called (Expr.isLeaf_var_of_isName hp)
  | invoke hx he =>
    rw [tokenLines, List.forall_mem_singleton]
    exact hx.called he
  | command hx he =>
    rw [tokenLines, List.forall_mem_singleton]
    exact List.forall_mem_cons.mpr ⟨isName_iff.mp hx, (Expr.arguments_listed he).2⟩

end Stmt

namespace Program

variable {p : Program}

theorem WellFormed.lex_render (h : p.WellFormed) :
    lex p.render = flat (Stmt.tokenLinesAll p) ++ [newline] :=
  lex_layout (Stmt.tokenLinesAll_wellFormed fun s hs => (h s hs).tokenLines_wellFormed)

theorem WellFormed.derives_render (h : p.WellFormed) :
    ∃ q, q.map Stmt.withoutLines = p.map Stmt.withoutLines ∧ Derives (lex p.render) q := by
  obtain ⟨q, he, hi⟩ := Stmt.exists_items_tokenLinesAll (fun s hs => (h s hs).derivable) 1
  refine ⟨q, he, ?_⟩
  rw [h.lex_render, Derives]
  simpa using hi.append (.newline (.nil _))

end Program

/-- Scripts parse to well-formed programs, and every well-formed program is parsed from its own
rendering, given calls enough for its tokens to nest. -/
theorem parser_image :
    (∀ calls file script p, parseWithin calls file script = .ok p → p.WellFormed) ∧
    ∀ p : Program, p.WellFormed →
      ∀ calls file, callsPerStatement * ((lex p.render).length + 1) ≤ calls →
        ∃ q, parseWithin calls file p.render = .ok q ∧ Tree.Same q.toTree p.toTree := by
  refine ⟨fun calls file script p => wellFormed_of_parseWithin, ?_⟩
  intro p hp calls file hc
  obtain ⟨q, he, hd⟩ := hp.derives_render
  refine ⟨q, ?_, .block (Stmt.sameItems_withoutLines he)⟩
  rcases parseWithin_of_derives calls file hd with h | h
  · exact h
  · exact absurd (lt_of_overflow h) (Nat.not_lt.mpr hc)

example : Program.render [.loop (.compare (.var "n") (.known .gt) (.int 0))
    (.block [.invoke "step" [.var "n", .int 1] 2]) 1] =
      "While n > 0\nstep ( n , 1 )\nEndloop\n" := by
  decide

end CommandScript
