import CommandScript.Proofs.MaximalMunch
import CommandScript.Proofs.Parsing.Recognition

/-! # Places of statements in the text

Tokens carry no lines, so the line of a statement is what the parser has counted by then. Here the
count is traced back to characters: maximal munch gives the place where each token begins, and as
many newline tokens come before it as there are newlines in the text before that place.
-/

namespace CommandScript

open Token

/-- The line of a place in a text, where the first line is one. -/
def lineAt (text : List Char) (place : Nat) : Int := 1 + (text.take place).count '\n'

/-- The place where the `k`th token begins. -/
def placeOf (gap : List Char) (pieces : List (Token × List Char)) (k : Nat) : Nat :=
  (gap ++ spell (pieces.take k)).length

/-! ## Newlines in the text and among the tokens -/

section Newlines

variable {gap text cs : List Char} {pieces : List (Token × List Char)} {t : Token}

theorem spell_cons (p : Token × List Char) (pieces : List (Token × List Char)) :
    spell (p :: pieces) = p.1.value.toList ++ (p.2 ++ spell pieces) := by
  simp [spell]

theorem count_newline_eq_zero (h : ∀ c ∈ cs, Text.CharClass.of c ≠ .newline) :
    cs.count '\n' = 0 := by
  rw [List.count_eq_zero]
  exact fun hm => h _ hm (by decide)

theorem count_newline_gap (h : Text.IsGap cs) : cs.count '\n' = 0 := by
  apply count_newline_eq_zero
  intro c hc
  rw [Text.isGap_iff.mp h c hc]
  decide

theorem count_newline_word (h : Text.IsWord cs) : cs.count '\n' = 0 := by
  apply count_newline_eq_zero
  cases cs with
  | nil => exact h.elim
  | cons c cs =>
    rw [List.forall_mem_cons]
    refine ⟨by rw [h.1]; decide, fun d hd => ?_⟩
    rcases h.2 d hd with h | h <;> rw [h] <;> decide

theorem count_newline_value (h : t.Spelled) :
    t.value.toList.count '\n' = if t.kind = .newLine then 1 else 0 := by
  have hw := Token.spelled_iff.mp h
  obtain ⟨kind, value⟩ := t
  cases kind with
  | comment => exact hw.elim
  | newLine =>
    obtain rfl : value = "\n" := hw
    rfl
  | number => exact count_newline_eq_zero fun c hc => by rw [hw.2 c hc]; decide
  | operator => exact count_newline_eq_zero fun c hc => by rw [hw.2 c hc]; decide
  | keyword => exact count_newline_word (Text.isWord_of_mem_keywords hw)
  | identifier => exact count_newline_word hw.1

theorem count_newline_spell (hg : ∀ p ∈ pieces, Text.IsGap p.2)
    (ht : ∀ p ∈ pieces, p.1.Spelled) :
    (spell pieces).count '\n' = newlines (pieces.map Prod.fst) := by
  induction pieces with
  | nil => rfl
  | cons p pieces ih =>
    rw [List.forall_mem_cons] at hg ht
    rw [spell_cons, List.count_append, List.count_append, count_newline_value ht.1,
      count_newline_gap hg.1, ih hg.2 ht.2, List.map_cons, newlines_cons, Nat.zero_add]

end Newlines

namespace Munch

variable {script : String} {gap : List Char} {pieces : List (Token × List Char)} {k : Nat}

theorem count_newline_take {text : List Char} (h : Munch text gap pieces) (k : Nat) :
    (gap ++ spell (pieces.take k)).count '\n' = newlines ((pieces.map Prod.fst).take k) := by
  rw [List.count_append, count_newline_gap h.gap, Nat.zero_add,
    count_newline_spell (fun p hp => h.gaps p (List.mem_of_mem_take hp))
      (fun p hp => h.tokens p (List.mem_of_mem_take hp)), List.map_take]

theorem take_placeOf (h : Munch (script ++ "\n").toList gap pieces) (hk : k < pieces.length) :
    script.toList.take (placeOf gap pieces k) = gap ++ spell (pieces.take k) := by
  have hs : script.toList ++ ['\n'] =
      (gap ++ spell (pieces.take k)) ++ spell (pieces.drop k) := by
    have ht := h.text_eq
    rw [String.toList_append] at ht
    rw [List.append_assoc, spell, spell, ← List.flatMap_append, List.take_append_drop]
    exact ht
  -- the token itself is not empty, so the last newline of the text is not before it
  have hd : spell (pieces.drop k) ≠ [] := by
    obtain ⟨c, cs, hv, -⟩ := (Token.spelled_iff.mp (h.tokens _ (List.getElem_mem hk))).kind_eq
    rw [List.drop_eq_getElem_cons hk, spell_cons, hv]
    exact List.cons_ne_nil _ _
  have hl := congrArg List.length hs
  have hp := List.length_pos_of_ne_nil hd
  rw [List.length_append, List.length_append, List.length_singleton] at hl
  have ht := congrArg (List.take (placeOf gap pieces k)) hs
  rw [List.take_append_of_le_length (by unfold placeOf; omega), placeOf, List.take_left] at ht
  exact ht

/-- The line of a token's place counts the newline tokens before it. -/
theorem lineAt_placeOf (h : Munch (script ++ "\n").toList gap pieces) (hk : k < pieces.length) :
    lineAt script.toList (placeOf gap pieces k) = 1 + newlines ((lex script).take k) := by
  rw [lineAt, h.take_placeOf hk, h.count_newline_take, lex_eq_of_munch h]

end Munch

theorem newlines_lex (script : String) :
    newlines (lex script) = 1 + script.toList.count '\n' := by
  obtain ⟨gap, pieces, h⟩ := exists_munch (script ++ "\n").toList
  have hc := h.count_newline_take pieces.length
  rw [List.take_length, ← h.text_eq, List.take_of_length_le (by simp), ← lex_eq_of_munch h,
    String.toList_append, List.count_append] at hc
  rw [← hc, Nat.add_comm]
  rfl

/-! ## Statements at the lines of their first tokens -/

namespace Grammar

variable {lineOf : Nat → Int}

mutual

/-- The tokens from the `k`th on derive a statement that has the line of its first token, and so
has every statement in it. -/
inductive StatementAt (lineOf : Nat → Int) : Nat → List Token → Stmt → Prop where
  | conditional {k : Nat} {ts us : List Token} {e : Expr} {ss : Program} :
      Comparison ts e → ItemsAt lineOf (k + 1 + ts.length + 1) us ss →
      StatementAt lineOf k (word "If" :: (ts ++ newline :: (us ++ [word "Endif"])))
        (.conditional e (.block ss) (lineOf k))
  | loop {k : Nat} {ts us : List Token} {e : Expr} {ss : Program} :
      Comparison ts e → ItemsAt lineOf (k + 1 + ts.length + 1) us ss →
      StatementAt lineOf k (word "While" :: (ts ++ newline :: (us ++ [word "Endloop"])))
        (.loop e (.block ss) (lineOf k))
  | define {k : Nat} {x : String} {params : List String} {ts us : List Token} {ss : Program} :
      Arguments ts (params.map .var) → ItemsAt lineOf (k + 3 + ts.length + 2) us ss →
      StatementAt lineOf k
        (word "Method" :: name x :: symbol "(" :: (ts ++ symbol ")" :: newline ::
          (us ++ [word "Endmethod"])))
        (.define x params (.block ss) (lineOf k))
  | assign {k : Nat} {x : String} {ts : List Token} {e : Expr} : Sum ts e →
      StatementAt lineOf k (name x :: symbol "=" :: (ts ++ [newline])) (.assign x e (lineOf k))
  | invoke {k : Nat} {x : String} {ts : List Token} {es : List Expr} : Arguments ts es →
      StatementAt lineOf k (name x :: symbol "(" :: (ts ++ [symbol ")"]))
        (.invoke x es (lineOf k))
  | command {k : Nat} {x : String} {ts : List Token} {es : List Expr} : Arguments ts es →
      ts.head? ≠ some (symbol "(") →
      StatementAt lineOf k (name x :: (ts ++ [newline])) (.command x es (lineOf k))

/-- The tokens from the `k`th on derive statements at the lines of their first tokens. -/
inductive ItemsAt (lineOf : Nat → Int) : Nat → List Token → Program → Prop where
  | nil (k : Nat) : ItemsAt lineOf k [] []
  | newline {k : Nat} {ts : List Token} {ss : Program} : ItemsAt lineOf (k + 1) ts ss →
      ItemsAt lineOf k (newline :: ts) ss
  | statement {k : Nat} {ts us : List Token} {s : Stmt} {ss : Program} :
      StatementAt lineOf k ts s → ItemsAt lineOf (k + ts.length) us ss →
      ItemsAt lineOf k (ts ++ us) (s :: ss)

end

/-- The tokens from the `k`th on lie on the lines that counting newline tokens from `line` gives. -/
def Counts (lineOf : Nat → Int) (k : Nat) (line : Int) (ts : List Token) : Prop :=
  ∀ i < ts.length, lineOf (k + i) = line + newlines (ts.take i)

namespace Counts

variable {k : Nat} {line : Int} {t : Token} {ts us : List Token}

theorem head (h : Counts lineOf k line (t :: ts)) : lineOf k = line := by
  simpa using h 0 (by simp)

theorem left (h : Counts lineOf k line (ts ++ us)) : Counts lineOf k line ts := by
  intro i hi
  rw [h i (by rw [List.length_append]; omega), List.take_append_of_le_length (Nat.le_of_lt hi)]

theorem right (h : Counts lineOf k line (ts ++ us)) :
    Counts lineOf (k + ts.length) (line + newlines ts) us := by
  intro i hi
  rw [Nat.add_assoc, h (ts.length + i) (by rw [List.length_append]; omega),
    List.take_length_add_append, newlines_append, Int.natCast_add, Int.add_assoc]

theorem inline (h : Counts lineOf k line (t :: ts)) (ht : t.kind ≠ .newLine) :
    Counts lineOf (k + 1) line ts := by
  simpa [newlines_cons, ht] using right (show Counts lineOf k line ([t] ++ ts) from h)

theorem skip (h : Counts lineOf k line (ts ++ us)) (hn : newlines ts = 0) :
    Counts lineOf (k + ts.length) line us := by
  simpa [hn] using h.right

theorem below (h : Counts lineOf k line (newline :: ts)) :
    Counts lineOf (k + 1) (line + 1) ts := by
  simpa [newlines_cons] using right (show Counts lineOf k line ([newline] ++ ts) from h)

end Counts

mutual

theorem Statement.at {line : Int} {ts : List Token} {s : Stmt} {k : Nat} :
    Statement line ts s → Counts lineOf k line ts → StatementAt lineOf k ts s
  | .conditional he hs, h => by
    have hb := ((h.inline (by simp)).skip he.newlines_eq_zero).below
    have hi := hs.at hb.left
    obtain rfl := h.head
    exact .conditional he hi
  | .loop he hs, h => by
    have hb := ((h.inline (by simp)).skip he.newlines_eq_zero).below
    have hi := hs.at hb.left
    obtain rfl := h.head
    exact .loop he hi
  | .define ha hs, h => by
    have hp := ((h.inline (by simp)).inline (by simp)).inline (by simp)
    have hb := ((hp.skip ha.newlines_eq_zero).inline (by simp)).below
    have hi := hs.at hb.left
    obtain rfl := h.head
    exact .define ha hi
  | .assign he, h => by
    obtain rfl := h.head
    exact .assign he
  | .invoke ha, h => by
    obtain rfl := h.head
    exact .invoke ha
  | .command ha hn, h => by
    obtain rfl := h.head
    exact .command ha hn

theorem Items.at {line : Int} {ts : List Token} {ss : Program} {k : Nat} :
    Items line ts ss → Counts lineOf k line ts → ItemsAt lineOf k ts ss
  | .nil _, _ => .nil k
  | .newline hs, h => .newline (hs.at h.below)
  | .statement hs hi, h => .statement (hs.at h.left) (hi.at h.right)

end

end Grammar

end CommandScript
