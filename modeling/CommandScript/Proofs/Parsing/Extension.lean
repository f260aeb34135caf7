import CommandScript.Proofs.Parsing.Recognition
import CommandScript.Proofs.Parsing.Stability

/-! # Scripts one after another

A script that parses, followed by another on a line of its own, parses to the statements of both.
A script refused for good is refused whatever follows.
-/

namespace CommandScript

open Token

namespace Cursor

variable {c c' : Cursor} {t : Token} {ts us : List Token}

/-- The last token left, if there is one, ends a line. -/
def Ended (c : Cursor) : Prop := ∀ t, c.rest.getLast? = some t → t = newline

/-- The cursor with text after the script. -/
def followed (c : Cursor) (us : List Token) : Cursor := c.within { after := us }

@[simp] theorem followed_rest (c : Cursor) (us : List Token) :
    (c.followed us).rest = c.rest ++ us := rfl

@[simp] theorem followed_line (c : Cursor) (us : List Token) : (c.followed us).line = c.line :=
  Int.add_zero _

@[simp] theorem followed_nil (c : Cursor) : c.followed [] = c := by
  simp [followed, within]

theorem Passes.followed (hc : c.Passes ts c') (us : List Token) :
    (c.followed us).Passes ts (c'.followed us) :=
  hc.within _

/-- The cursor at the text after the script. -/
def beyond (c : Cursor) (us : List Token) : Cursor :=
  ⟨us, c.position + c.rest.length, c.line + newlines c.rest⟩

theorem Ended.of_passes (he : c.Ended) (hc : c.Passes ts c') : c'.Ended := by
  intro t ht
  apply he
  rw [hc.rest, List.getLast?_append, ht]
  rfl

theorem Ended.eq_newline (he : c.Ended) (hc : c.Passes [t] c') (hr : c'.rest = []) :
    t = newline :=
  he t (by rw [hc.rest, hr]; rfl)

theorem Passes.beyond (hc : c.Passes ts c') (us : List Token) : c'.beyond us = c.beyond us := by
  have hl := hc.length
  have hn := hc.newlines_rest
  obtain ⟨hr, hp, hk⟩ := hc
  simp only [Cursor.beyond, Cursor.mk.injEq, true_and]
  omega

theorem followed_eq_beyond (hc : c.rest = []) (us : List Token) :
    c.followed us = c.beyond us := by
  simp [Cursor.followed, Cursor.within, Cursor.beyond, hc]

end Cursor

namespace Parser

variable {c c' : Cursor} {t : Token} {d n m : Nat} {ss : Array Stmt} {r : Program}
  {us : List Token}

theorem atEnd_false (hc : c.Passes [t] c') (hr : c'.rest ≠ []) : atEnd c = .ok false c := by
  have hl := hc.length
  have hp := List.length_pos_of_ne_nil hr
  rw [atEnd_apply, decide_eq_false]
  simp only [List.length_singleton] at hl
  omega

theorem atEnd_true (hc : c.Passes [t] c') (hr : c'.rest = []) : atEnd c = .ok true c := by
  rw [atEnd_apply, hc.rest, hr]
  rfl

theorem AlikeStatement.followed_ok {q : Parser Stmt} (hq : AlikeStatement { after := us } q)
    {s : Stmt} {c₁ : Cursor} (hw : c.WellFormed) (hc : c.Passes [t] c') (hk : t.kind ≠ .newLine)
    (hs : q c = .ok s c₁) : q (c.followed us) = .ok s (c₁.followed us) := by
  have ha := (hq hw hc hk).ok hs
  rwa [Stmt.shift_zero] at ha

theorem AlikeStatement.followed_error {q : Parser Stmt} (hq : AlikeStatement { after := us } q)
    {e : Refusal} {c₁ : Cursor} (hw : c.WellFormed) (hc : c.Passes [t] c') (hk : t.kind ≠ .newLine)
    (hs : q c = .error e c₁) (hi : e.incomplete = false) :
    q (c.followed us) = .error e (c₁.followed us) := by
  have ha := (hq hw hc hk).error hs (Or.inr hi)
  rwa [Refusal.shift_zero] at ha

theorem statementsUntil_beyond (hu : us ≠ []) (hw : c.WellFormed) (he : c.Ended)
    (hn : c.rest.length < n) (hm : (c.followed us).rest.length < m)
    (h : statementsUntil atEnd (statement d) n ss c = .ok r c') :
    ∃ k, us.length < k ∧ statementsUntil atEnd (statement d) m ss (c.followed us) =
      statementsUntil atEnd (statement d) k r.toArray (c.beyond us) := by
  induction n generalizing c m ss with
  | zero => exact absurd hn (Nat.not_lt_zero _)
  | succ n ih =>
    obtain ⟨m, rfl⟩ := Nat.exists_eq_succ_of_ne_zero (Nat.ne_of_gt (Nat.zero_lt_of_lt hm))
    rcases c.exists_passes with hc | ⟨t, c₁, hc⟩
    · have ha : atEnd c = .ok true c := by rw [atEnd_apply, hc]; rfl
      rw [statementsUntil_stop ha] at h
      cases h
      refine ⟨m + 1, ?_, ?_⟩
      · simpa [hc] using hm
      · rw [Cursor.followed_eq_beyond hc]
    have hc' := hc.followed us
    have hl := hc.length
    have hl' := hc'.length
    simp only [List.length_singleton] at hl hl'
    have hf : atEnd (c.followed us) = .ok false (c.followed us) :=
      atEnd_false hc' (by simp [hu])
    by_cases hr : c₁.rest = []
    · have ht := he.eq_newline hc hr
      rw [statementsUntil_stop (atEnd_true hc hr)] at h
      cases h
      refine ⟨m, ?_, ?_⟩
      · rw [Cursor.followed_rest c₁, hr, List.nil_append] at hl'
        omega
      · rw [statementsUntil_newline hf hc' (by rw [ht]), Cursor.followed_eq_beyond hr,
          hc.beyond us]
    have ha := atEnd_false hc hr
    by_cases hk : t.kind = .newLine
    · rw [statementsUntil_newline ha hc hk] at h
      rw [statementsUntil_newline hf hc' hk, ← hc.beyond us]
      exact ih (hc.wellFormed hw) (he.of_passes hc) (by omega) (by omega) h
    · rw [statementsUntil_statement ha hc hk] at h
      obtain ⟨s, c₂, hs, h⟩ := bind_eq_ok h
      obtain ⟨ts, h₂, -, hg⟩ := (statement_reads d hw hc hk).ok hs
      have h2 := two_le_length hg
      have hl := h₂.length
      have hl' := (h₂.followed us).length
      have hs' := AlikeStatement.followed_ok (statement_alike (w := { after := us }) d) hw hc hk hs
      rw [statementsUntil_statement hf hc' hk, bind_ok hs', ← h₂.beyond us]
      exact ih (h₂.wellFormed hw) (he.of_passes h₂) (by omega) (by omega) h

theorem statementsUntil_refused {e : Refusal} (hi : e.incomplete = false) (us : List Token)
    (hw : c.WellFormed) (hn : c.rest.length < n) (hm : (c.followed us).rest.length < m)
    (h : statementsUntil atEnd (statement d) n ss c = .error e c') :
    statementsUntil atEnd (statement d) m ss (c.followed us) = .error e (c'.followed us) := by
  induction n generalizing c m ss with
  | zero => exact absurd hn (Nat.not_lt_zero _)
  | succ n ih =>
    obtain ⟨m, rfl⟩ := Nat.exists_eq_succ_of_ne_zero (Nat.ne_of_gt (Nat.zero_lt_of_lt hm))
    rcases c.exists_passes with hc | ⟨t, c₁, hc⟩
    · have ha : atEnd c = .ok true c := by rw [atEnd_apply, hc]; rfl
      rw [statementsUntil_stop ha] at h
      cases h
    by_cases hr : c₁.rest = []
    · rw [statementsUntil_stop (atEnd_true hc hr)] at h
      cases h
    have hc' := hc.followed us
    have hl := hc.length
    have hl' := hc'.length
    simp only [List.length_singleton] at hl hl'
    have ha := atEnd_false hc hr
    have hf : atEnd (c.followed us) = .ok false (c.followed us) :=
      atEnd_false hc' (by simp [hr])
    by_cases hk : t.kind = .newLine
    · rw [statementsUntil_newline ha hc hk] at h
      rw [statementsUntil_newline hf hc' hk]
      exact ih (hc.wellFormed hw) (by omega) (by omega) h
    · rw [statementsUntil_statement ha hc hk] at h
      rw [statementsUntil_statement hf hc' hk]
      cases hs : statement d c with
      | error e' c₂ =>
        rw [bind_error hs] at h
        cases h
        exact bind_error (AlikeStatement.followed_error (statement_alike d) hw hc hk hs hi)
      | ok s c₂ =>
        rw [bind_ok hs] at h
        obtain ⟨ts, h₂, -, hg⟩ := (statement_reads d hw hc hk).ok hs
        have h2 := two_le_length hg
        have hl := h₂.length
        have hl' := (h₂.followed us).length
        rw [bind_ok (AlikeStatement.followed_ok (statement_alike d) hw hc hk hs)]
        exact ih (h₂.wellFormed hw) (by omega) (by omega) h

theorem program_beyond (hu : us ≠ []) (hw : c.WellFormed) (he : c.Ended)
    (h : program d c = .ok r c') :
    ∃ k, us.length < k ∧ program d (c.followed us) =
      statementsUntil atEnd (statement d) k r.toArray (c.beyond us) := by
  rw [program, bind_ok (rounds_apply c)] at h
  rw [program, bind_ok (rounds_apply _)]
  exact statementsUntil_beyond hu hw he (Nat.lt_succ_self _) (Nat.lt_succ_self _) h

theorem program_refused {e : Refusal} (hi : e.incomplete = false) (us : List Token)
    (hw : c.WellFormed) (h : program d c = .error e c') :
    program d (c.followed us) = .error e (c'.followed us) := by
  rw [program, bind_ok (rounds_apply c)] at h
  rw [program, bind_ok (rounds_apply _)]
  exact statementsUntil_refused hi us hw (Nat.lt_succ_self _) (Nat.lt_succ_self _) h

theorem atEnd_alike {w : Place} (hw : w.after = []) : Alike w id c atEnd atEnd := by
  unfold Alike
  rw [atEnd_apply, atEnd_apply]
  simp [Cursor.within, hw]

end Parser

namespace Cursor

theorem start_ended (script : String) : (start script).Ended := by
  intro t ht
  obtain ⟨ts, hl⟩ := exists_lex_eq script
  rw [show (start script).rest = ts ++ [newline] from hl, List.getLast?_concat] at ht
  exact (Option.some.inj ht).symm

theorem start_append (a b : String) : start (a ++ "\n" ++ b) = (start a).followed (lex b) := by
  simp [followed, within, lex_append_newline]

theorem start_beyond (a b : String) :
    (start a).beyond (lex b) =
      (start b).within ⟨(lex a).length, newlines (lex a), []⟩ := by
  simp [beyond, within]

end Cursor

open CommandScript.Parser

variable {calls : Nat} {file : Option String} {a : String} {p : Program}

/-- What follows a script that parses is parsed as if it stood alone, further down. -/
theorem program_append {d : Nat} {c : Cursor} (ha : program d (.start a) = .ok p c) (b : String) :
    Alike ⟨(lex a).length, newlines (lex a), []⟩
      (fun q => p ++ q.map (Stmt.shift (newlines (lex a)))) (.start b) (program d)
      fun _ => program d (.start (a ++ "\n" ++ b)) := by
  obtain ⟨ts, hb⟩ := exists_lex_eq b
  have hu : lex b ≠ [] := by simp [hb]
  obtain ⟨k, hk, he⟩ :=
    program_beyond hu (Cursor.start_wellFormed a) (Cursor.start_ended a) ha
  have hl : Alike ⟨(lex a).length, newlines (lex a), []⟩
      (fun q => p ++ q.map (Stmt.shift (newlines (lex a)))) (.start b)
      (statementsUntil atEnd (statement d) ((lex b).length + 1) #[])
      (statementsUntil atEnd (statement d) k p.toArray) :=
    statementsUntil_alike (atEnd_alike rfl) atEnd_reads (statement_alike d) (statement_reads d) p
      (by simp) (Cursor.start_wellFormed b) (Nat.lt_succ_self _) (by simpa [Cursor.within] using hk)
  refine alike_congr (bind_ok (rounds_apply _)) ?_ hl
  rw [Cursor.start_append, he, Cursor.start_beyond]

theorem parseWithin_append_ok {b : String} {q : Program}
    (ha : parseWithin calls file a = .ok p) (hb : parseWithin calls file b = .ok q) :
    parseWithin calls file (a ++ "\n" ++ b) =
      .ok (p ++ q.map (Stmt.shift (newlines (lex a)))) := by
  obtain ⟨c, hc⟩ := parseWithin_eq_ok.mp ha
  obtain ⟨c', hc'⟩ := parseWithin_eq_ok.mp hb
  exact parseWithin_eq_ok.mpr ⟨_, (program_append hc b).ok hc'⟩

theorem parseWithin_append_error {b : String} {halt : Halt}
    (ha : parseWithin calls file a = .ok p) (hb : parseWithin calls file b = .error halt) :
    ∃ halt', parseWithin calls file (a ++ "\n" ++ b) = .error halt' := by
  obtain ⟨c, hc⟩ := parseWithin_eq_ok.mp ha
  obtain ⟨e, c', hc', -⟩ := parseWithin_eq_error.mp hb
  exact ⟨_, parseWithin_eq_error.mpr ⟨_, _, (program_append hc b).error hc' (Or.inl rfl), rfl⟩⟩

/-- Text added below mends only a refusal that calls for it. -/
theorem parseWithin_append_refused {halt : Halt} (ha : parseWithin calls file a = .error halt)
    (hi : ∀ f, halt = .fault f → f.incomplete = false) (b : String) :
    parseWithin calls file (a ++ "\n" ++ b) = .error halt := by
  obtain ⟨e, c, hc, rfl⟩ := parseWithin_eq_error.mp ha
  have he : e.incomplete = false := by
    cases e with
    | malformed => exact hi _ rfl
    | tooDeep => rfl
  have hp := program_refused he (lex b) (Cursor.start_wellFormed a) hc
  rw [← Cursor.start_append] at hp
  exact parseWithin_eq_error.mpr ⟨e, _, hp, rfl⟩

end CommandScript
