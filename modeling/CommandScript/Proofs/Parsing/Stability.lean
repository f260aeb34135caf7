import CommandScript.Proofs.Lines
import CommandScript.Proofs.Parsing.Statement

/-! # Scripts within longer scripts

A parser does the same to tokens that stand within a longer script: what it returns or refuses
for good, it returns or refuses there, with its lines counted from further up. Only where it found
the end of the script may it go on.
-/

namespace CommandScript

open Token

/-- Where a script stands in a longer one. -/
structure Place where
  tokensBefore : Nat := 0
  linesBefore : Int := 0
  after : List Token := []

/-- The cursor as seen in the longer script. -/
def Cursor.within (c : Cursor) (w : Place) : Cursor :=
  ⟨c.rest ++ w.after, c.position + w.tokensBefore, c.line + w.linesBefore⟩

/-- The refusal with its line counted from further up. -/
def Refusal.shift (k : Int) : Refusal → Refusal
  | malformed reason incomplete line => malformed reason incomplete (line + k)
  | tooDeep => tooDeep

theorem Refusal.shift_zero (e : Refusal) : e.shift 0 = e := by
  cases e <;> simp [Refusal.shift]

theorem Cursor.Passes.within {c c' : Cursor} {ts : List Token} (h : c.Passes ts c') (w : Place) :
    (c.within w).Passes ts (c'.within w) := by
  obtain ⟨hr, hp, hl⟩ := h
  constructor <;> simp only [Cursor.within]
  · rw [hr, List.append_assoc]
  · omega
  · omega

namespace Parser

variable {α β : Type} {w : Place} {c c' : Cursor} {t : Token} {d k n m : Nat}
  {g : α → α} {h : β → β}

/-- What `p` does at `c`, `q` does within the longer script, with values mapped by `g`. A refusal
that more text could mend counts only if there is no more text. -/
def Alike (w : Place) (g : α → α) (c : Cursor) (p q : Parser α) : Prop :=
  match p c with
  | .ok a c' => q (c.within w) = .ok (g a) (c'.within w)
  | .error e c' => w.after = [] ∨ e.incomplete = false →
    q (c.within w) = .error (e.shift w.linesBefore) (c'.within w)

theorem Alike.ok {p q : Parser α} {a : α} (hp : Alike w g c p q) (ha : p c = .ok a c') :
    q (c.within w) = .ok (g a) (c'.within w) := by
  simpa only [Alike, ha] using hp

theorem Alike.error {p q : Parser α} {e : Refusal} (hp : Alike w g c p q) (he : p c = .error e c')
    (hi : w.after = [] ∨ e.incomplete = false) :
    q (c.within w) = .error (e.shift w.linesBefore) (c'.within w) := by
  simp only [Alike, he] at hp
  exact hp hi

theorem Alike.bind {p q : Parser α} {f f' : α → Parser β} (hp : Alike w g c p q)
    (hf : ∀ a c', p c = .ok a c' → Alike w h c' (f a) (f' (g a))) :
    Alike w h c (p >>= f) (q >>= f') := by
  unfold Alike
  rw [bind_apply]
  cases he : p c with
  | ok a c' =>
    rw [bind_ok (hp.ok he)]
    exact hf a c' he
  | error e c' =>
    intro hi
    exact bind_error (hp.error he hi)

theorem Alike.bindSame {p q : Parser α} {f f' : α → Parser β} (hp : Alike w id c p q)
    (hf : ∀ a c', p c = .ok a c' → Alike w h c' (f a) (f' a)) :
    Alike w h c (p >>= f) (q >>= f') :=
  hp.bind hf

theorem alike_pure {a b : α} (hb : g a = b) : Alike w g c (pure a) (pure b) := by
  rw [← hb]
  rfl

theorem alike_throw (e : Refusal) (he : e.shift w.linesBefore = e) :
    Alike w g c (throw e) (throw e) := by
  intro _
  rw [he]
  rfl

theorem alike_fail (reason : String) : Alike w g c (fail reason) (fail reason) := fun _ => rfl

theorem alike_congr {p p' q q' : Parser α} (hp : p c = p' c)
    (hq : q (c.within w) = q' (c.within w)) (ha : Alike w g c p' q') : Alike w g c p q := by
  unfold Alike at *
  rw [hp, hq]
  exact ha

theorem alike_of_passes {p q : Parser α} (hp : c.rest = [] → p c = (endOfScript : Parser α) c)
    (hq : (c.within w).rest = [] → q (c.within w) = (endOfScript : Parser α) (c.within w))
    (h : ∀ t c', c.Passes [t] c' → Alike w g c p q) : Alike w g c p q := by
  rcases c.exists_passes with hc | ⟨t, c', hc⟩
  · unfold Alike
    rw [hp hc]
    rintro (ha | hi)
    · have hr : (c.within w).rest = [] := by rw [Cursor.within, hc, ha]; rfl
      rw [hq hr]
      rfl
    · cases hi
  · exact h t c' hc

theorem peek_alike : Alike w id c peek peek := by
  apply alike_of_passes peek_nil peek_nil
  intro t c' hc
  unfold Alike
  rw [peek_passes hc, peek_passes (hc.within w)]
  rfl

theorem advance_alike : Alike w id c advance advance := by
  apply alike_of_passes advance_nil advance_nil
  intro t c' hc
  unfold Alike
  rw [advance_passes hc, advance_passes (hc.within w)]
  rfl

theorem accept_alike (value : String) : Alike w id c (accept value) (accept value) := by
  unfold accept
  apply peek_alike.bindSame
  intro t c' _
  split
  · exact advance_alike.bindSame fun _ c' _ => alike_pure rfl
  · exact alike_pure rfl

theorem acceptKind_alike (kind : TokenKind) :
    Alike w id c (acceptKind kind) (acceptKind kind) := by
  unfold acceptKind
  apply peek_alike.bindSame
  intro t c' _
  split
  · exact advance_alike.bindSame fun _ c' _ => alike_pure rfl
  · exact alike_pure rfl

theorem eatNewline_alike : Alike w id c eatNewline eatNewline := by
  unfold eatNewline
  apply (acceptKind_alike .newLine).bindSame
  intro b c' _
  split
  · exact alike_pure rfl
  · exact peek_alike.bindSame fun t c' _ => alike_fail _

theorem expect_alike (value : String) : Alike w id c (expect value) (expect value) := by
  unfold expect
  apply (accept_alike value).bindSame
  intro b c' _
  split
  · exact alike_pure rfl
  · exact peek_alike.bindSame fun t c' _ => alike_fail _

theorem alike_get_bind {f f' : Cursor → Parser β} (hf : Alike w h c (f c) (f' (c.within w))) :
    Alike w h c (get >>= f) (get >>= f') :=
  alike_congr (bind_ok (get_apply c)) (bind_ok (get_apply _)) hf

theorem alike_rounds_bind {f f' : Nat → Parser β}
    (hf : Alike w h c (f (c.rest.length + 1)) (f' ((c.within w).rest.length + 1))) :
    Alike w h c (rounds >>= f) (rounds >>= f') :=
  alike_congr (bind_ok (rounds_apply c)) (bind_ok (rounds_apply _)) hf

/-! ## Expressions -/

theorem term_alike (d : Nat) : Alike w id c (term d) (term d) := by
  induction d generalizing c with
  | zero => exact alike_throw _ rfl
  | succ d ih =>
    unfold term
    apply peek_alike.bindSame
    intro t c₁ _
    split
    · split
      · exact advance_alike.bindSame fun _ c₂ _ => alike_pure rfl
      · exact alike_fail _
    · split
      · exact advance_alike.bindSame fun _ c₂ _ => alike_pure rfl
      · split
        · apply advance_alike.bindSame
          intro _ c₂ _
          apply ih.bindSame
          intro e c₃ _
          apply (accept_alike ")").bindSame
          intro b c₄ _
          split
          · exact alike_pure rfl
          · exact peek_alike.bindSame fun t c₅ _ => alike_fail _
        · exact alike_fail _

theorem within_length (h : c.rest.length = n + c'.rest.length) :
    (c.within w).rest.length = n + (c'.within w).rest.length := by
  simp only [Cursor.within, List.length_append]
  omega

theorem chain_alike {allowed : Op → Bool} {operand : Parser Expr} {G : List Token → Expr → Prop}
    (ho : ∀ {c}, c.WellFormed → Alike w id c operand operand)
    (hr : ∀ {c}, c.WellFormed → Reads True k c operand G) (left : Expr) (hw : c.WellFormed)
    (hn : c.rest.length < n) (hm : (c.within w).rest.length < m) :
    Alike w id c (chain allowed operand n left) (chain allowed operand m left) := by
  induction n generalizing c m left with
  | zero => exact absurd hn (Nat.not_lt_zero _)
  | succ n ih =>
    obtain ⟨m, rfl⟩ := Nat.exists_eq_succ_of_ne_zero (Nat.ne_of_gt (Nat.zero_lt_of_lt hm))
    unfold chain
    apply peek_alike.bindSame
    intro t c₁ h₁
    obtain ⟨rfl, c₂, h₂⟩ := peek_eq_ok h₁
    split
    · exact alike_pure rfl
    · apply advance_alike.bindSame
      intro _ c₃ h₃
      obtain rfl : c₃ = c₂ := by rw [advance_passes h₂] at h₃; cases h₃; rfl
      have hw₂ := h₂.wellFormed hw
      apply (ho hw₂).bindSame
      intro r c₄ h₄
      obtain ⟨ts, h₅, -⟩ := (hr hw₂).ok h₄
      have hl := (h₂.trans h₅).length
      have hl' := within_length (w := w) hl
      simp only [List.length_append, List.length_singleton] at hl hl'
      exact ih _ (h₅.wellFormed hw₂) (by omega) (by omega)

theorem product_alike (d : Nat) (hw : c.WellFormed) : Alike w id c (product d) (product d) := by
  apply (term_alike d).bindSame
  intro e c₁ h₁
  obtain ⟨ts, h₂, -⟩ := (term_reads d hw).ok h₁
  apply alike_rounds_bind
  exact chain_alike (fun _ => term_alike d) (fun h => term_reads d h) e (h₂.wellFormed hw)
    (Nat.lt_succ_self _) (Nat.lt_succ_self _)

theorem sum_alike (d : Nat) (hw : c.WellFormed) : Alike w id c (sum d) (sum d) := by
  apply (product_alike d hw).bindSame
  intro e c₁ h₁
  obtain ⟨ts, h₂, -⟩ := (product_reads d hw).ok h₁
  apply alike_rounds_bind
  exact chain_alike (fun h => product_alike d h) (fun h => product_reads d h) e
    (h₂.wellFormed hw) (Nat.lt_succ_self _) (Nat.lt_succ_self _)

theorem comparison_alike (d : Nat) (hw : c.WellFormed) :
    Alike w id c (comparison d) (comparison d) := by
  apply (sum_alike d hw).bindSame
  intro l c₁ h₁
  obtain ⟨ts, h₂, -⟩ := (sum_reads d hw).ok h₁
  apply peek_alike.bindSame
  intro t c₂ h₃
  obtain ⟨rfl, c₃, h₄⟩ := peek_eq_ok h₃
  split
  · exact alike_fail _
  · apply advance_alike.bindSame
    intro _ c₄ h₅
    rw [advance_passes h₄] at h₅
    cases h₅
    apply (sum_alike d (h₄.wellFormed (h₂.wellFormed hw))).bindSame
    intro r c₅ _
    exact alike_pure rfl

theorem argument_alike (d : Nat) : Alike w id c (argument d) (argument d) :=
  (term_alike d).bindSame fun _ _ _ => (accept_alike ",").bindSame fun _ _ _ => alike_pure rfl

theorem itemsUntil_alike {q : Parser Bool} {u : Token} (hq : ∀ {c}, Alike w id c q q)
    (ht : Takes q u) (items : Array Expr) (hw : c.WellFormed) (hn : c.rest.length < n)
    (hm : (c.within w).rest.length < m) :
    Alike w id c (itemsUntil q (argument d) n items) (itemsUntil q (argument d) m items) := by
  induction n generalizing c m items with
  | zero => exact absurd hn (Nat.not_lt_zero _)
  | succ n ih =>
    obtain ⟨m, rfl⟩ := Nat.exists_eq_succ_of_ne_zero (Nat.ne_of_gt (Nat.zero_lt_of_lt hm))
    unfold itemsUntil
    apply hq.bindSame
    intro b c₁ h₁
    cases b with
    | true => exact alike_pure rfl
    | false =>
      obtain rfl := ht.eq_of_false hw h₁
      apply (argument_alike d).bindSame
      intro e c₂ h₂
      obtain ⟨ts, h₃, -, hg⟩ := (argument_reads d hw).ok h₂
      have hp := ne_nil_of_argument hg
      have hl := h₃.length
      have hl' := within_length (w := w) hl
      exact ih _ (h₃.wellFormed hw) (by omega) (by omega)

theorem arguments_alike (d : Nat) (hw : c.WellFormed) :
    Alike w id c (arguments d) (arguments d) := by
  apply alike_rounds_bind
  exact itemsUntil_alike (accept_alike ")") (accept_takes close_wellFormed) #[] hw
    (Nat.lt_succ_self _) (Nat.lt_succ_self _)

theorem lineArguments_alike (d : Nat) (hw : c.WellFormed) :
    Alike w id c (lineArguments d) (lineArguments d) := by
  apply alike_rounds_bind
  exact itemsUntil_alike (acceptKind_alike .newLine) acceptNewline_takes #[] hw
    (Nat.lt_succ_self _) (Nat.lt_succ_self _)

theorem mapM_parameter_alike (es : List Expr) :
    Alike w id c (es.mapM parameter) (es.mapM parameter) := by
  induction es generalizing c with
  | nil => exact alike_pure rfl
  | cons e es ih =>
    have he : Alike w id c (parameter e) (parameter e) := by
      cases e with
      | var x => exact alike_pure rfl
      | _ => exact alike_fail _
    rw [List.mapM_cons]
    exact he.bindSame fun _ _ _ => ih.bindSame fun _ _ _ => alike_pure rfl

theorem parameters_alike (d : Nat) (hw : c.WellFormed) :
    Alike w id c (parameters d) (parameters d) :=
  (arguments_alike d hw).bindSame fun es _ _ => mapM_parameter_alike es

/-! ## Statements -/

theorem atTerminator_alike (value : String) :
    Alike w id c (atTerminator value) (atTerminator value) := by
  apply alike_of_passes atTerminator_nil atTerminator_nil
  intro t c' hc
  have ha := atTerminator_passes value hc
  have hb := atTerminator_passes value (hc.within w)
  unfold Alike
  rw [ha, hb]
  by_cases ht : t.value ∈ terminators
  · rw [if_pos ht, if_pos ht]
    rfl
  · rw [if_neg ht, if_neg ht]
    by_cases hr : c'.rest = []
    · rw [if_pos hr]
      rintro (h | h)
      · rw [if_pos (by rw [Cursor.within, hr, h]; rfl)]
        rfl
      · cases h
    · rw [if_neg hr, if_neg (by simp [Cursor.within, hr])]
      rfl

/-- The statement parser does the same within the longer script, with lines shifted. -/
def AlikeStatement (w : Place) (p : Parser Stmt) : Prop :=
  ∀ {c c' : Cursor} {t : Token}, c.WellFormed → c.Passes [t] c' → t.kind ≠ .newLine →
    Alike w (Stmt.shift w.linesBefore) c p p

theorem statementsUntil_alike {q : Parser Bool} {p : Parser Stmt}
    (hq : ∀ {c}, Alike w id c q q)
    (hs : ∀ {c : Cursor}, Reads False 0 c q fun ts _ => ts = [])
    (hp : AlikeStatement w p) (hr : ReadsStatement k p) (before : Program) {ss ss' : Array Stmt}
    (hss : ss'.toList = before ++ ss.toList.map (Stmt.shift w.linesBefore)) (hw : c.WellFormed)
    (hn : c.rest.length < n) (hm : (c.within w).rest.length < m) :
    Alike w (fun r => before ++ r.map (Stmt.shift w.linesBefore)) c
      (statementsUntil q p n ss) (statementsUntil q p m ss') := by
  induction n generalizing c m ss ss' with
  | zero => exact absurd hn (Nat.not_lt_zero _)
  | succ n ih =>
    obtain ⟨m, rfl⟩ := Nat.exists_eq_succ_of_ne_zero (Nat.ne_of_gt (Nat.zero_lt_of_lt hm))
    unfold statementsUntil
    apply hq.bindSame
    intro b c₁ h₁
    obtain ⟨ts, hts, -, rfl⟩ := hs.ok h₁
    obtain rfl := hts.eq_of_nil
    cases b with
    | true => exact alike_pure hss.symm
    | false =>
      apply peek_alike.bindSame
      intro t c₁ h₁
      obtain ⟨rfl, c₂, h₂⟩ := peek_eq_ok h₁
      have hl := h₂.length
      have hl' := (h₂.within w).length
      simp only [List.length_singleton] at hl hl'
      split
      · next hk =>
        apply eatNewline_alike.bindSame
        intro _ c₃ h₃
        rw [eatNewline_passes h₂, if_pos hk] at h₃
        cases h₃
        exact ih hss (h₂.wellFormed hw) (by omega) (by omega)
      · next hk =>
        apply (hp hw h₂ hk).bind
        intro s c₃ h₃
        obtain ⟨us, h₄, -, hg⟩ := (hr hw h₂ hk).ok h₃
        have h2 := two_le_length hg
        have hl := h₄.length
        have hl' := (h₄.within w).length
        refine ih ?_ (h₄.wellFormed hw) (by omega) (by omega)
        simp [hss]

theorem block_alike {p : Parser Stmt} (hp : AlikeStatement w p) (hr : ReadsStatement k p)
    (value : String) (hw : c.WellFormed) :
    Alike w (Stmt.shift w.linesBefore) c (block p value) (block p value) := by
  apply alike_rounds_bind
  refine (statementsUntil_alike (atTerminator_alike value) (atTerminator_reads value) hp hr []
    (by simp) hw (Nat.lt_succ_self _) (Nat.lt_succ_self _)).bind fun ss c₁ _ => ?_
  apply (expect_alike value).bindSame
  intro _ c₂ _
  exact alike_pure (Stmt.mapLines_block ss)

theorem headed_alike {p : Parser Stmt} (hp : AlikeStatement w p) (hr : ReadsStatement k p)
    {q : Parser α} {G : List Token → α → Prop} {value : String} {f f' : α → Stmt → Stmt}
    (hq : Alike w id c q q) (hg : Reads True d c q G)
    (hf : ∀ a s, (f a s).shift w.linesBefore = f' a (s.shift w.linesBefore))
    (hw : c.WellFormed) :
    Alike w (Stmt.shift w.linesBefore) c
      (do let a ← q; eatNewline; let s ← block p value; return f a s)
      (do let a ← q; eatNewline; let s ← block p value; return f' a s) := by
  apply hq.bindSame
  intro a c₁ h₁
  obtain ⟨ts, h₂, -⟩ := hg.ok h₁
  have hw₁ := h₂.wellFormed hw
  apply eatNewline_alike.bindSame
  intro _ c₂ h₃
  obtain ⟨t, h₄⟩ := eatNewline_eq_ok h₃
  have hw₂ := h₄.wellFormed hw₁
  apply (block_alike hp hr value hw₂).bind
  intro s c₃ _
  exact alike_pure (hf a s)

theorem conditional_alike {p : Parser Stmt} (hp : AlikeStatement w p) (hr : ReadsStatement k p)
    (d : Nat) (hw : c.WellFormed) :
    Alike w (Stmt.shift w.linesBefore) c (conditional d p) (conditional d p) := by
  apply alike_get_bind
  apply advance_alike.bindSame
  intro t c₁ h₁
  have hw₁ := (advance_eq_ok h₁).wellFormed hw
  exact headed_alike hp hr (comparison_alike d hw₁) (comparison_reads d hw₁)
    (fun _ _ => rfl) hw₁

theorem loop_alike {p : Parser Stmt} (hp : AlikeStatement w p) (hr : ReadsStatement k p)
    (d : Nat) (hw : c.WellFormed) :
    Alike w (Stmt.shift w.linesBefore) c (loop d p) (loop d p) := by
  apply alike_get_bind
  apply advance_alike.bindSame
  intro t c₁ h₁
  have hw₁ := (advance_eq_ok h₁).wellFormed hw
  exact headed_alike hp hr (comparison_alike d hw₁) (comparison_reads d hw₁)
    (fun _ _ => rfl) hw₁

theorem definition_alike {p : Parser Stmt} (hp : AlikeStatement w p) (hr : ReadsStatement k p)
    (d : Nat) (hw : c.WellFormed) :
    Alike w (Stmt.shift w.linesBefore) c (definition d p) (definition d p) := by
  apply alike_get_bind
  apply advance_alike.bindSame
  intro t c₁ h₁
  have hw₁ := (advance_eq_ok h₁).wellFormed hw
  apply peek_alike.bindSame
  intro x c₂ h₂
  obtain ⟨rfl, -⟩ := peek_eq_ok h₂
  split
  · exact (alike_fail (g := id) _).bindSame fun _ c₃ h₃ => nomatch h₃
  · apply advance_alike.bindSame
    intro _ c₃ h₃
    have hw₃ := (advance_eq_ok h₃).wellFormed hw₁
    apply (accept_alike "(").bindSame
    intro b c₄ h₄
    obtain ⟨ts, h₅⟩ := accept_eq_ok h₄
    have hw₄ := h₅.wellFormed hw₃
    cases b with
    | false => exact (alike_fail (g := id) _).bindSame fun _ c₃ h₃ => nomatch h₃
    | true =>
      exact headed_alike hp hr (parameters_alike d hw₄) (parameters_reads d hw₄)
        (fun _ _ => rfl) hw₄

theorem plainStatement_alike (d : Nat) (hw : c.WellFormed) :
    Alike w (Stmt.shift w.linesBefore) c (plainStatement d) (plainStatement d) := by
  apply alike_get_bind
  apply advance_alike.bindSame
  intro x c₁ h₁
  have hw₁ := (advance_eq_ok h₁).wellFormed hw
  apply (accept_alike "=").bindSame
  intro b c₂ h₂
  obtain ⟨ts, h₃⟩ := accept_eq_ok h₂
  have hw₂ := h₃.wellFormed hw₁
  cases b with
  | true =>
    apply (sum_alike d hw₂).bindSame
    intro e c₃ _
    apply eatNewline_alike.bindSame
    intro _ c₄ _
    exact alike_pure rfl
  | false =>
    apply (accept_alike "(").bindSame
    intro b c₃ h₄
    obtain ⟨us, h₅⟩ := accept_eq_ok h₄
    have hw₃ := h₅.wellFormed hw₂
    cases b with
    | true => exact (arguments_alike d hw₃).bindSame fun es c₄ _ => alike_pure rfl
    | false => exact (lineArguments_alike d hw₃).bindSame fun es c₄ _ => alike_pure rfl

theorem statement_alike (d : Nat) : AlikeStatement w (statement d) := by
  induction d with
  | zero => exact fun _ _ _ => alike_throw _ rfl
  | succ d ih =>
    intro c c' t hw hc hk
    have hr : ReadsStatement d (statement d) := statement_reads d
    obtain ⟨p, hp, h⟩ := statement_cases d hk
    apply alike_congr (hp hc) (hp (hc.within w))
    rcases h with ⟨-, rfl⟩ | ⟨-, rfl⟩ | ⟨-, rfl⟩ | ⟨-, rfl⟩ | ⟨reason, rfl⟩
    · exact conditional_alike ih hr _ hw
    · exact loop_alike ih hr _ hw
    · exact definition_alike ih hr _ hw
    · exact plainStatement_alike _ hw
    · exact alike_fail _

end Parser

end CommandScript
