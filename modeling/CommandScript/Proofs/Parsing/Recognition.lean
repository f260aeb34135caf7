import CommandScript.Proofs.Parsing.Completeness

/-! # Recognition

A script parses exactly if its tokens derive from the grammar, and it parses to the one tree they
derive. The stack can get in the way only of scripts long enough to nest that deep.
-/

namespace CommandScript

open Token Grammar CommandScript.Parser

variable {calls : Nat} {file : Option String} {script : String} {p q : Program}

/-- The cursor before the first token of a script. -/
abbrev Cursor.start (script : String) : Cursor := { rest := lex script }

theorem Cursor.start_wellFormed (script : String) : (Cursor.start script).WellFormed :=
  lex_wellFormed script

theorem parseWithin_of_ok {c : Cursor}
    (h : program (calls / callsPerStatement) (.start script) = .ok p c) :
    parseWithin calls file script = .ok p := by
  unfold parseWithin parseTokens EStateM.run
  rw [h]
  rfl

theorem parseWithin_of_error {e : Refusal} {c : Cursor}
    (h : program (calls / callsPerStatement) (.start script) = .error e c) :
    parseWithin calls file script = .error (e.toHalt file) := by
  unfold parseWithin parseTokens EStateM.run
  rw [h]
  rfl

theorem parseWithin_eq_ok : parseWithin calls file script = .ok p ↔
    ∃ c, program (calls / callsPerStatement) (.start script) = .ok p c := by
  cases h : program (calls / callsPerStatement) (.start script) with
  | ok q c => simp [parseWithin_of_ok h]
  | error e c => simp [parseWithin_of_error h]

theorem parseWithin_eq_error {halt : Halt} : parseWithin calls file script = .error halt ↔
    ∃ e c, program (calls / callsPerStatement) (.start script) = .error e c ∧
      e.toHalt file = halt := by
  cases h : program (calls / callsPerStatement) (.start script) with
  | ok q c => simp [parseWithin_of_ok h]
  | error e c => simp [parseWithin_of_error h]

theorem parseWithin_eq_overflow : parseWithin calls file script = .error .overflow ↔
    ∃ c, program (calls / callsPerStatement) (.start script) = .error .tooDeep c := by
  rw [parseWithin_eq_error]
  constructor
  · rintro ⟨e, c, h, he⟩
    cases e with
    | malformed => cases he
    | tooDeep => exact ⟨c, h⟩
  · rintro ⟨c, h⟩
    exact ⟨.tooDeep, c, h, rfl⟩

/-- A script that parses derives its tree. -/
theorem derives_of_parseWithin (h : parseWithin calls file script = .ok p) :
    Derives (lex script) p := by
  obtain ⟨c, hc⟩ := parseWithin_eq_ok.mp h
  obtain ⟨ts, ht⟩ := exists_lex_eq script
  exact program_sound (Cursor.start_wellFormed script) ht hc

/-- A script that derives a tree parses to it or overflows. -/
theorem parseWithin_of_derives (calls : Nat) (file : Option String)
    (h : Derives (lex script) p) :
    parseWithin calls file script = .ok p ∨ parseWithin calls file script = .error .overflow := by
  obtain ⟨c, hc | ⟨c₁, hc⟩⟩ :=
    program_yields (calls / callsPerStatement) (Cursor.start_wellFormed script) h
  · exact Or.inl (parseWithin_eq_ok.mpr ⟨c, hc⟩)
  · exact Or.inr (parseWithin_eq_overflow.mpr ⟨c₁, hc⟩)

/-- Parsing overflows only if the tokens could nest as deep as the calls allow. -/
theorem lt_of_overflow (h : parseWithin calls file script = .error .overflow) :
    calls < callsPerStatement * ((lex script).length + 1) := by
  obtain ⟨c, hc⟩ := parseWithin_eq_overflow.mp h
  have hd := (program_reads _ (Cursor.start_wellFormed script)).deep hc
  have hm := Nat.div_add_mod calls callsPerStatement
  have hr := Nat.mod_lt calls (show callsPerStatement > 0 by decide)
  simp only [callsPerStatement] at *
  omega

theorem parseWithin_cases (calls : Nat) (file : Option String) (script : String) :
    (∃ p, parseWithin calls file script = .ok p) ∨
    (∃ reason incomplete line, parseWithin calls file script =
      .error (.fault ⟨.malformed reason incomplete, some line, file⟩)) ∨
    parseWithin calls file script = .error .overflow := by
  cases h : parseWithin calls file script with
  | ok p => exact Or.inl ⟨p, rfl⟩
  | error halt =>
    obtain ⟨e, c, -, rfl⟩ := parseWithin_eq_error.mp h
    cases e with
    | malformed reason incomplete line => exact Or.inr (Or.inl ⟨reason, incomplete, line, rfl⟩)
    | tooDeep => exact Or.inr (Or.inr rfl)

theorem derives_unique (hp : Derives (lex script) p) (hq : Derives (lex script) q) : p = q := by
  -- with calls enough for every token to nest, both trees are what the parser returns
  have hn : ∀ r, Derives (lex script) r →
      parseWithin (callsPerStatement * ((lex script).length + 1)) none script = .ok r := by
    intro r hr
    rcases parseWithin_of_derives _ none hr with h | h
    · exact h
    · exact absurd (lt_of_overflow h) (Nat.lt_irrefl _)
  exact Except.ok.inj ((hn p hp).symm.trans (hn q hq))

/-- Parsing recognizes the grammar: it returns the one tree that the tokens derive, and refuses
tokens that derive none as malformed. -/
theorem parses_iff_derives (file : Option String) (script : String) :
    (∀ p q, Derives (lex script) p → Derives (lex script) q → p = q) ∧
    ∀ calls,
      parseWithin calls file script = .error .overflow ∧
        calls < callsPerStatement * ((lex script).length + 1) ∨
      (∀ p, parseWithin calls file script = .ok p ↔ Derives (lex script) p) ∧
        ((∃ reason incomplete line, parseWithin calls file script =
          .error (.fault ⟨.malformed reason incomplete, some line, file⟩)) ↔
          ¬ ∃ p, Derives (lex script) p) := by
  refine ⟨fun p q => derives_unique, fun calls => ?_⟩
  by_cases ho : parseWithin calls file script = .error .overflow
  · exact Or.inl ⟨ho, lt_of_overflow ho⟩
  have hp : ∀ p, parseWithin calls file script = .ok p ↔ Derives (lex script) p := by
    intro p
    constructor
    · exact derives_of_parseWithin
    · intro h
      exact (parseWithin_of_derives calls file h).resolve_right ho
  refine Or.inr ⟨hp, ?_, ?_⟩
  · rintro ⟨reason, incomplete, line, h⟩ ⟨p, hd⟩
    rw [(hp p).mpr hd] at h
    cases h
  · intro hd
    rcases parseWithin_cases calls file script with ⟨p, h⟩ | h | h
    · exact absurd ⟨p, (hp p).mp h⟩ hd
    · exact h
    · exact absurd h ho

end CommandScript
