import CommandScript.Proofs.Parsing.Rounds

/-! # Calls of the parser

The parser may be called from outside, call after call, whatever the tokens and also where a call
was refused. The cursor always stands behind some of the tokens, at the line they lead to.
-/

namespace CommandScript

open Token

namespace Cursor

/-- The cursor stands among these tokens, at the line that the newlines before it lead to. -/
structure Stands (tokens : List Token) (c : Cursor) : Prop where
  rest : c.rest = tokens.drop c.position
  position : c.position ≤ tokens.length
  line : c.line = 1 + newlines (tokens.take c.position)

variable {tokens ts : List Token} {c c' : Cursor}

theorem Stands.start (tokens : List Token) : Stands tokens { rest := tokens } :=
  ⟨rfl, Nat.zero_le _, rfl⟩

theorem Stands.passes (h : c.Stands tokens) (hp : c.Passes ts c') : c'.Stands tokens := by
  have hd : tokens.drop c.position = ts ++ c'.rest := h.rest.symm.trans hp.rest
  have hl := congrArg List.length hd
  rw [List.length_drop, List.length_append] at hl
  have hn := h.position
  refine ⟨?_, ?_, ?_⟩
  · rw [hp.position, ← List.drop_drop, hd, List.drop_left]
  · rw [hp.position]
    omega
  · rw [hp.line, h.line, hp.position, List.take_add, hd, List.take_left, newlines_append]
    omega

theorem Stands.length_rest_le (h : c.Stands tokens) : c.rest.length ≤ tokens.length := by
  rw [h.rest, List.length_drop]
  exact Nat.sub_le _ _

end Cursor

namespace Parser

variable {α β : Type} {c : Cursor} {d d' n m m' : Nat} {k : α → Nat} {l : β → Nat}
  {p q : Parser α} {f g : α → Parser β} {s s' : Parser Stmt}

/-! ## Rules for sequences -/

theorem Moves.andThen (hp : Moves k n c p q) (hf : ∀ a c', Moves l n c' (f a) (g a)) :
    Moves l n c (p >>= f) (q >>= g) :=
  hp.bind fun a _ c' _ _ => (hf a c').weaken (fun _ => Nat.sub_le _ _) (Nat.sub_le _ _)

theorem Moves.past (hp : Moves (fun _ => 1) n c p q)
    (hf : ∀ a c', Moves (fun b => l b - 1) (n - 1) c' (f a) (g a)) :
    Moves l n c (p >>= f) (q >>= g) :=
  hp.bind fun a _ c' _ hl =>
    (hf a c').weaken (fun _ => Nat.sub_le_sub_left hl _) (Nat.sub_le_sub_left hl _)

theorem Moves.shallower (hp : Moves k n c p q) (hm : m ≤ n) : Moves k m c p q :=
  hp.weaken (fun _ => Nat.le_refl _) hm

theorem moves_tooDeep : Moves k 0 c (throw .tooDeep) q := by
  refine ⟨fun h => ?_, fun h => ?_, fun h he => ?_, fun _ => Nat.zero_le _⟩ <;> cases h
  · exact ⟨[], .refl c⟩
  · exact absurd rfl he

/-! ## Expressions -/

theorem term_moves (h : d ≤ d') : Moves (fun _ => 1) d c (term d) (term d') := by
  induction d generalizing c d' with
  | zero => exact moves_tooDeep
  | succ d ih =>
    obtain ⟨d', rfl⟩ : ∃ e, d' = e + 1 := ⟨d' - 1, by omega⟩
    rw [term, term]
    apply moves_peek.andThen
    intro t c₁
    split
    · cases Text.readInt? t.value with
      | some value => exact moves_advance.past fun _ _ => moves_pure rfl
      | none => exact moves_fail
    · split
      · exact moves_advance.past fun _ _ => moves_pure rfl
      · split
        · apply moves_advance.past
          intro _ c₂
          apply Moves.andThen ((ih (by omega)).weaken (fun _ => Nat.zero_le _) (Nat.le_refl d))
          intro inner c₃
          apply moves_accept.andThen
          intro b c₄
          cases b with
          | true => exact moves_pure rfl
          | false => exact moves_peek.andThen fun _ _ => moves_fail
        · exact moves_fail

theorem chain_steady {allowed : Op → Bool} {o o' : Parser Expr}
    (ho : ∀ c, Moves (fun _ => 1) n c o o') :
    Iteration.Steady (fun _ => 0) n (chainLoop allowed o) (chainLoop allowed o') := by
  intro left c
  apply moves_peek.andThen
  intro t c₁
  cases operator? allowed t with
  | none => exact moves_pure rfl
  | some op =>
    apply moves_advance.past
    intro _ c₂
    exact ((ho c₂).shallower (Nat.sub_le _ _)).andThen fun _ _ => moves_pure rfl

theorem chained_moves {allowed : Op → Bool} {o o' : Parser Expr}
    (ho : ∀ c, Moves (fun _ => 1) n c o o') :
    Moves (fun _ => 1) n c (o >>= fun e => rounds >>= fun r => chain allowed o r e)
      (o' >>= fun e => rounds >>= fun r => chain allowed o' r e) := by
  apply (ho c).past
  intro e c₁
  apply moves_rounds.andThen
  intro r c₂
  exact ((chain_steady ho).moves r e c₂).shallower (Nat.sub_le _ _)

theorem product_moves (h : d ≤ d') : Moves (fun _ => 1) d c (product d) (product d') :=
  chained_moves fun _ => term_moves h

theorem sum_moves (h : d ≤ d') : Moves (fun _ => 1) d c (sum d) (sum d') :=
  chained_moves fun _ => product_moves h

theorem comparison_moves (h : d ≤ d') :
    Moves (fun _ => 1) d c (comparison d) (comparison d') := by
  apply (sum_moves h).past
  intro left c₁
  apply moves_peek.andThen
  intro t c₂
  cases operator? Op.isComparison t with
  | none => exact moves_fail
  | some op =>
    apply moves_advance.andThen
    intro _ c₃
    exact ((sum_moves h).shallower (Nat.sub_le _ _)).andThen fun _ _ => moves_pure rfl

theorem argument_moves (h : d ≤ d') : Moves (fun _ => 1) d c (argument d) (argument d') :=
  (term_moves h).past fun _ _ => moves_accept.andThen fun _ _ => moves_pure rfl

theorem item_steady {stop : Parser Bool} (hs : ∀ c, Moves Bool.toNat n c stop stop)
    (hp : ∀ c, Moves (fun _ => 1) n c p q) :
    Iteration.Steady (fun _ => 1) n (itemLoop stop p) (itemLoop stop q) := by
  intro items c
  apply (hs c).bind
  intro b ts c₁ _ hl
  cases b with
  | true => exact moves_pure (Nat.sub_eq_zero_of_le hl)
  | false =>
    exact ((hp c₁).past fun a c₂ => moves_pure rfl).weaken (fun _ => Nat.sub_le _ _)
      (Nat.sub_le _ _)

theorem argument_steady {stop : Parser Bool} (hs : ∀ c, Moves Bool.toNat d c stop stop)
    (h : d ≤ d') :
    Iteration.Steady (fun _ => 1) d (itemLoop stop (argument d)) (itemLoop stop (argument d')) :=
  item_steady hs fun _ => argument_moves h

theorem arguments_moves (h : d ≤ d') :
    Moves (fun _ => 1) d c (arguments d) (arguments d') :=
  moves_rounds.andThen fun r c₁ => (argument_steady (fun _ => moves_accept) h).moves r _ c₁

theorem lineArguments_moves (h : d ≤ d') :
    Moves (fun _ => 1) d c (lineArguments d) (lineArguments d') :=
  moves_rounds.andThen fun r c₁ => (argument_steady (fun _ => moves_acceptKind) h).moves r _ c₁

theorem mapM_parameter_moves (es : List Expr) :
    Moves (fun _ => 0) n c (es.mapM parameter) (es.mapM parameter) := by
  induction es generalizing c with
  | nil => exact moves_pure rfl
  | cons e es ih =>
    have he : Moves (fun _ => 0) n c (parameter e) (parameter e) := by
      cases e with
      | var x => exact moves_pure rfl
      | _ => exact moves_fail
    rw [List.mapM_cons]
    exact he.andThen fun _ _ => ih.andThen fun _ _ => moves_pure rfl

theorem parameters_moves (h : d ≤ d') :
    Moves (fun _ => 1) d c (parameters d) (parameters d') :=
  (arguments_moves h).past fun es _ => mapM_parameter_moves es

/-! ## Statements -/

theorem newline_steady : Iteration.Steady (fun _ => 0) n newlineLoop newlineLoop := by
  intro _ c
  apply moves_peek.andThen
  intro t c₁
  split
  · exact moves_eatNewline.past fun _ _ => moves_pure rfl
  · exact moves_pure rfl

theorem statement_steady {stop : Parser Bool} (hq : ∀ c, Moves (fun _ => 0) n c stop stop)
    (hs : ∀ c, Moves (fun _ => 1) n c s s') :
    Iteration.Steady (fun _ => 0) n (statementLoop stop s) (statementLoop stop s') := by
  intro ss c
  apply (hq c).andThen
  intro b c₁
  cases b with
  | true => exact moves_pure rfl
  | false =>
    apply moves_peek.andThen
    intro t c₂
    split
    · exact moves_eatNewline.past fun _ _ => moves_pure rfl
    · exact (hs c₂).past fun _ _ => moves_pure rfl

theorem block_moves (hs : ∀ c, Moves (fun _ => 1) n c s s') (value : String) :
    Moves (fun _ => 1) n c (block s value) (block s' value) := by
  apply moves_rounds.andThen
  intro r c₁
  apply Moves.andThen ((statement_steady (fun _ => moves_atTerminator) hs).moves r #[] c₁)
  intro ss c₂
  exact moves_expect.past fun _ _ => moves_pure rfl

theorem headed_moves (hp : Moves k n c p q) (hs : ∀ c, Moves (fun _ => 1) n c s s')
    (value : String) (mk : α → Stmt → Stmt) :
    Moves (fun _ => 1) n c
      (do let a ← p; eatNewline; let body ← block s value; return mk a body)
      (do let a ← q; eatNewline; let body ← block s' value; return mk a body) := by
  apply hp.andThen
  intro a c₁
  apply moves_eatNewline.andThen
  intro _ c₂
  exact (block_moves hs value).past fun _ _ => moves_pure rfl

theorem opened_moves {f g : Cursor → Token → Parser Stmt}
    (hf : ∀ c₁ t c, Moves (fun _ => 0) n c (f c₁ t) (g c₁ t)) :
    Moves (fun _ => 1) (n + 1) c (do let c₁ ← get; let t ← advance; f c₁ t)
      (do let c₁ ← get; let t ← advance; g c₁ t) := by
  apply moves_get.andThen
  intro c₁ c₂
  exact moves_advance.past fun t c₃ => hf c₁ t c₃

theorem conditional_moves (hs : ∀ c, Moves (fun _ => 1) n c s s') (hn : n ≤ m) (h : m ≤ m') :
    Moves (fun _ => 1) (n + 1) c (conditional m s) (conditional m' s') := by
  apply opened_moves
  intro c₁ _ c₂
  exact (headed_moves ((comparison_moves h).shallower hn) hs _
    fun e body => .conditional e body c₁.line).weaken (fun _ => Nat.zero_le _) (Nat.le_refl n)

theorem loop_moves (hs : ∀ c, Moves (fun _ => 1) n c s s') (hn : n ≤ m) (h : m ≤ m') :
    Moves (fun _ => 1) (n + 1) c (loop m s) (loop m' s') := by
  apply opened_moves
  intro c₁ _ c₂
  exact (headed_moves ((comparison_moves h).shallower hn) hs _
    fun e body => .loop e body c₁.line).weaken (fun _ => Nat.zero_le _) (Nat.le_refl n)

theorem definition_moves (hs : ∀ c, Moves (fun _ => 1) n c s s') (hn : n ≤ m) (h : m ≤ m') :
    Moves (fun _ => 1) (n + 1) c (definition m s) (definition m' s') := by
  apply opened_moves
  intro c₁ _ c₂
  apply moves_peek.andThen
  intro name c₃
  split
  · exact moves_fail
  · apply moves_advance.andThen
    intro _ c₄
    apply moves_accept.andThen
    intro b c₅
    cases b with
    | false => exact moves_fail
    | true =>
      exact (headed_moves ((parameters_moves h).shallower hn) hs _
        fun params body => .define name.value params body c₁.line).weaken
          (fun _ => Nat.zero_le _) (Nat.le_refl n)

theorem plainStatement_moves (h : m ≤ m') :
    Moves (fun _ => 1) (m + 1) c (plainStatement m) (plainStatement m') := by
  apply opened_moves
  intro c₁ name c₂
  apply moves_accept.andThen
  intro b c₃
  cases b with
  | true =>
    apply (sum_moves h).andThen
    intro value c₄
    exact moves_eatNewline.andThen fun _ _ => moves_pure rfl
  | false =>
    apply moves_accept.andThen
    intro b c₄
    cases b with
    | true => exact (arguments_moves h).andThen fun _ _ => moves_pure rfl
    | false => exact (lineArguments_moves h).andThen fun _ _ => moves_pure rfl

theorem statement_moves (h : d ≤ d') :
    Moves (fun _ => 1) d c (statement d) (statement d') := by
  induction d generalizing c d' with
  | zero => exact moves_tooDeep
  | succ d ih =>
    obtain ⟨d', rfl⟩ : ∃ e, d' = e + 1 := ⟨d' - 1, by omega⟩
    -- the head of a block takes a token before the statements in it take a level
    have hs : ∀ c, Moves (fun _ => 1) d c (statement d) (statement d') := fun _ => ih (by omega)
    have hd : d ≤ termsPerStatement * d := by simp only [termsPerStatement]; omega
    have ht : termsPerStatement * d ≤ termsPerStatement * d' := by
      simp only [termsPerStatement]; omega
    rw [statement, statement]
    apply moves_rounds.andThen
    intro r c₁
    apply Moves.andThen (newline_steady.moves r () c₁)
    intro _ c₂
    apply moves_peek.andThen
    intro t c₃
    cases t.kind with
    | keyword =>
      simp only
      split
      · exact conditional_moves hs hd ht
      · split
        · exact loop_moves hs hd ht
        · split
          · exact definition_moves hs hd ht
          · exact moves_fail
    | identifier => exact (plainStatement_moves ht).shallower (by omega)
    | _ => exact moves_fail

theorem program_moves (h : d ≤ d') : Moves (fun _ => 0) d c (program d) (program d') :=
  moves_rounds.andThen fun r c₁ =>
    (statement_steady (fun _ => moves_atEnd) fun _ => statement_moves h).moves r #[] c₁

/-! ## The calls -/

/-- What a call returns. -/
inductive Answer where
  | none
  | truth (b : Bool)
  | text (value : String)
  | token (t : Token)
  | refusal (e : Refusal)
  | expr (e : Expr)
  | exprs (es : List Expr)
  | names (xs : List String)
  | stmt (s : Stmt)
  | program (p : Program)

inductive Call where
  | atEnd | peek | advance | eatNewline
  | accept (value : String) | acceptKind (kind : TokenKind) | expect (value : String)
  | describe (t : Token) | error (reason : String) (incomplete : Bool)
  | term | product | sum | comparison | arguments | parameters
  | block (terminator : String) | statement | conditional | loop | definition | program

namespace Call

/-- Carries out a call, with statements nested at most `depth` deep. -/
def perform (depth : Nat) : Call → Parser Answer
  | atEnd => return .truth (← Parser.atEnd)
  | peek => return .token (← Parser.peek)
  | advance => return .token (← Parser.advance)
  | eatNewline => do Parser.eatNewline; return .none
  | accept value => return .truth (← Parser.accept value)
  | acceptKind kind => return .truth (← Parser.acceptKind kind)
  | expect value => do Parser.expect value; return .none
  | describe t => return .text t.describe
  | error reason incomplete => return .refusal (.malformed reason incomplete (← get).line)
  | term => return .expr (← Parser.term (termsPerStatement * depth))
  | product => return .expr (← Parser.product (termsPerStatement * depth))
  | sum => return .expr (← Parser.sum (termsPerStatement * depth))
  | comparison => return .expr (← Parser.comparison (termsPerStatement * depth))
  | arguments => return .exprs (← Parser.arguments (termsPerStatement * depth))
  | parameters => return .names (← Parser.parameters (termsPerStatement * depth))
  | block terminator => return .stmt (← Parser.block (Parser.statement depth) terminator)
  | statement => return .stmt (← Parser.statement depth)
  | conditional =>
    return .stmt (← Parser.conditional (termsPerStatement * depth) (Parser.statement depth))
  | loop => return .stmt (← Parser.loop (termsPerStatement * depth) (Parser.statement depth))
  | definition =>
    return .stmt (← Parser.definition (termsPerStatement * depth) (Parser.statement depth))
  | program => return .program (← Parser.program depth)

/-- Whether the call parses something that has tokens. -/
def consumes : Call → Bool
  | term | product | sum | comparison | arguments | parameters => true
  | block _ | statement | conditional | loop | definition => true
  | _ => false

end Call

/-- The loops that calls go into. -/
inductive IsLoop (depth : Nat) : ∀ {σ β : Type}, Iteration σ β → Prop where
  | products : IsLoop depth (chainLoop Op.isProduct (term depth))
  | sums : IsLoop depth (chainLoop Op.isSum (product depth))
  | arguments : IsLoop depth (itemLoop (accept ")") (argument depth))
  | lineArguments : IsLoop depth (itemLoop (acceptKind .newLine) (argument depth))
  | newlines : IsLoop depth newlineLoop
  | block (terminator : String) :
      IsLoop depth (statementLoop (atTerminator terminator) (statement depth))
  | program : IsLoop depth (statementLoop atEnd (statement depth))

theorem IsLoop.steady {σ β : Type} {i : Iteration σ β} (h : IsLoop d i) :
    ∃ l : β → Nat, Iteration.Steady l d i i := by
  cases h with
  | products => exact ⟨_, chain_steady fun _ => term_moves (Nat.le_refl d)⟩
  | sums => exact ⟨_, chain_steady fun _ => product_moves (Nat.le_refl d)⟩
  | arguments => exact ⟨_, argument_steady (fun _ => moves_accept) (Nat.le_refl d)⟩
  | lineArguments => exact ⟨_, argument_steady (fun _ => moves_acceptKind) (Nat.le_refl d)⟩
  | newlines => exact ⟨_, newline_steady⟩
  | block =>
    exact ⟨_, statement_steady (fun _ => moves_atTerminator) fun _ =>
      statement_moves (Nat.le_refl d)⟩
  | program =>
    exact ⟨_, statement_steady (fun _ => moves_atEnd) fun _ => statement_moves (Nat.le_refl d)⟩

theorem Moves.answer {r : Nat} (hp : Moves k n c p q) (hk : ∀ a, r ≤ k a) (f : α → Answer) :
    Moves (fun _ => r) n c (do return f (← p)) (do return f (← q)) :=
  hp.bind fun a _ _ _ hl => moves_pure (Nat.sub_eq_zero_of_le (Nat.le_trans (hk a) hl))

theorem Call.moves (h : d ≤ d') (call : Call) :
    Moves (fun _ => call.consumes.toNat) d c (call.perform d) (call.perform d') := by
  have hd : d ≤ termsPerStatement * d := by simp only [termsPerStatement]; omega
  have ht : termsPerStatement * d ≤ termsPerStatement * d' := Nat.mul_le_mul_left _ h
  have hs : ∀ c, Moves (fun _ => 1) d c (Parser.statement d) (Parser.statement d') :=
    fun _ => statement_moves h
  cases call with
  | atEnd => exact moves_atEnd.answer (fun _ => Nat.zero_le _) _
  | peek => exact moves_peek.answer (fun _ => Nat.zero_le _) _
  | advance => exact moves_advance.answer (fun _ => Nat.zero_le _) _
  | eatNewline => exact moves_eatNewline.answer (fun _ => Nat.zero_le _) _
  | accept value => exact moves_accept.answer (fun _ => Nat.zero_le _) _
  | acceptKind kind => exact moves_acceptKind.answer (fun _ => Nat.zero_le _) _
  | expect value => exact moves_expect.answer (fun _ => Nat.zero_le _) _
  | describe t => exact moves_pure rfl
  | error reason incomplete => exact moves_get.answer (fun _ => Nat.zero_le _) _
  | term => exact ((term_moves ht).shallower hd).answer (fun _ => Nat.le_refl 1) _
  | product => exact ((product_moves ht).shallower hd).answer (fun _ => Nat.le_refl 1) _
  | sum => exact ((sum_moves ht).shallower hd).answer (fun _ => Nat.le_refl 1) _
  | comparison => exact ((comparison_moves ht).shallower hd).answer (fun _ => Nat.le_refl 1) _
  | arguments => exact ((arguments_moves ht).shallower hd).answer (fun _ => Nat.le_refl 1) _
  | parameters => exact ((parameters_moves ht).shallower hd).answer (fun _ => Nat.le_refl 1) _
  | block terminator => exact (block_moves hs terminator).answer (fun _ => Nat.le_refl 1) _
  | statement => exact (hs c).answer (fun _ => Nat.le_refl 1) _
  | conditional =>
    exact ((conditional_moves hs hd ht).shallower d.le_succ).answer (fun _ => Nat.le_refl 1) _
  | loop => exact ((loop_moves hs hd ht).shallower d.le_succ).answer (fun _ => Nat.le_refl 1) _
  | definition =>
    exact ((definition_moves hs hd ht).shallower d.le_succ).answer (fun _ => Nat.le_refl 1) _
  | program => exact (program_moves h).answer (fun _ => Nat.zero_le _) _

/-! ## One call after another -/

/-- Call after call, each from where the one before it stopped. -/
def afterCalls (depth : Nat) (calls : List Call) (c : Cursor) : Cursor :=
  calls.foldl (fun c call => lastState (call.perform depth c)) c

theorem exists_passes_perform (depth : Nat) (call : Call) (c : Cursor) :
    ∃ ts, c.Passes ts (lastState (call.perform depth c)) := by
  have hm := call.moves (c := c) (Nat.le_refl depth)
  cases h : call.perform depth c with
  | ok a c' =>
    obtain ⟨-, ts, hts, -⟩ := hm.returned h
    exact ⟨ts, hts⟩
  | error e c' => exact hm.refused h

theorem stands_afterCalls {tokens : List Token} (h : c.Stands tokens) (calls : List Call) :
    (afterCalls d calls c).Stands tokens := by
  induction calls generalizing c with
  | nil => exact h
  | cons call calls ih =>
    obtain ⟨ts, hts⟩ := exists_passes_perform d call c
    exact ih (h.passes hts)

/-- Whatever the tokens and the calls before it, a call leaves the cursor among the tokens, at the
line that the newlines before it lead to, and no further back. If it returns what has tokens, it has
passed one. Every loop ends by itself. Where statements may nest deeper than there are tokens, no
call runs out of depth, and each does the same as with any greater depth. -/
theorem perform_sound (tokens : List Token) (depth : Nat) (calls : List Call) (call : Call) :
    let c := afterCalls depth calls { rest := tokens }
    let r := call.perform depth c
    c.Stands tokens ∧ (lastState r).Stands tokens ∧ c.position ≤ (lastState r).position ∧
      (call.consumes = true → ∀ a c', r = .ok a c' → c.position < c'.position) ∧
      (∀ (σ β : Type) (i : Iteration σ β), IsLoop depth i → ∀ s c₀,
        Ends i.round s c₀ (i.run (c₀.rest.length + 1) s c₀)) ∧
      (tokens.length < depth → (∀ c', r ≠ .error .tooDeep c') ∧
        ∀ depth', depth ≤ depth' → call.perform depth' c = r) := by
  intro c r
  have hc : c.Stands tokens := stands_afterCalls (Cursor.Stands.start tokens) calls
  have hm := fun depth' (h : depth ≤ depth') => call.moves (c := c) h
  obtain ⟨ts, hts⟩ := exists_passes_perform depth call c
  refine ⟨hc, hc.passes hts, ?_, ?_, ?_, ?_⟩
  · rw [hts.position]
    exact Nat.le_add_right _ _
  · intro hk a c' hr
    obtain ⟨-, us, hus, hl⟩ := (hm depth (Nat.le_refl _)).returned hr
    rw [hk] at hl
    rw [hus.position]
    exact Nat.lt_add_of_pos_right hl
  · intro σ β i hi s c₀
    obtain ⟨l, hl⟩ := hi.steady
    exact hl.ends (Nat.lt_succ_self _) s
  · intro hd
    have hn : ∀ c', r ≠ .error .tooDeep c' := fun c' hr => by
      have := (hm depth (Nat.le_refl _)).deep hr
      have := hc.length_rest_le
      omega
    refine ⟨hn, fun depth' h => ?_⟩
    cases hr : r with
    | ok a c' => exact ((hm depth' h).returned hr).1
    | error e c' => exact (hm depth' h).kept hr fun he => hn c' (he ▸ hr)

/-- A word that closes a block as a number behind a newline that is none. A statement is refused
where it should start, and there a block is closed. -/
theorem perform_sound_malformed :
    let tokens := [⟨.newLine, "Say"⟩, ⟨.number, "Endif"⟩, name "x"]
    let c : Cursor := ⟨[⟨.number, "Endif"⟩, name "x"], 1, 2⟩
    let c' : Cursor := ⟨[name "x"], 2, 2⟩
    afterCalls 9 [.statement] { rest := tokens } = c ∧
      (Call.block "Endif").perform 9 c = .ok (.stmt (.block [])) c' ∧
      Call.consumes (.block "Endif") = true ∧ c.position < c'.position ∧
      tokens.length < 9 ∧ (∀ depth', 9 ≤ depth' →
        (Call.block "Endif").perform depth' c = .ok (.stmt (.block [])) c') := by
  intro tokens c c'
  have hb : (Call.block "Endif").perform 9 c = .ok (.stmt (.block [])) c' := rfl
  obtain ⟨-, -, -, hk, -, hd⟩ := perform_sound tokens 9 [.statement] (.block "Endif")
  exact ⟨rfl, hb, rfl, hk rfl _ _ hb, by decide,
    fun depth' h => ((hd (by decide)).2 depth' h).trans hb⟩

end Parser

end CommandScript
