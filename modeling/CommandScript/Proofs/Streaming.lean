import CommandScript.Proofs.MaximalMunch

/-! # Reading a character at a time

Whatever has been read, the pending lexeme fits the mode, and the delivered tokens with the pending
lexeme behind them spell what was read, blanks left out. A character adds itself to that text, or
nothing if it is a blank, and what has been delivered is not touched again.
-/

namespace CommandScript

open Text

/-- What leaves a trace in the tokens: the newline, and all that is no blank. -/
def Text.leavesTrace (c : Char) : Bool := c = '\n' || !isBlank c

theorem Text.leavesTrace_iff {c : Char} : leavesTrace c = true ↔ CharClass.of c ≠ .blank := by
  simp [leavesTrace, CharClass.of_eq_blank, or_iff_not_imp_right]

namespace Mode

variable {mode : Mode} {cs : List Char}

theorem ne_blank_of_absorbs {k : CharClass} (h : mode.absorbs k = true) : k ≠ .blank := by
  rintro rfl
  cases mode <;> cases h

theorem Fits.idle_iff (h : mode.Fits cs) : mode = .idle ↔ cs = [] := by
  cases mode with
  | idle => exact ⟨fun _ => h, fun _ => rfl⟩
  | identifier =>
    simp only [reduceCtorEq, false_iff]
    rintro rfl
    exact h
  | number => simpa using h.1
  | operator => simpa using h.1

end Mode

namespace Machine

/-- The text of the delivered tokens and of the pending lexeme. -/
def spelling (m : Machine) : List Char :=
  m.tokens.toList.flatMap (fun t => t.value.toList) ++ m.lexeme.toList

/-- What holds of a machine that has read these characters. -/
structure Tracks (m : Machine) (read : List Char) : Prop where
  idle : m.mode = .idle ↔ m.lexeme = ""
  identifier : m.mode = .identifier → SpellsWord m.lexeme.toList
  number : m.mode = .number → m.lexeme ≠ "" ∧ ∀ c ∈ m.lexeme.toList, isDigit c = true
  operator : m.mode = .operator → m.lexeme ≠ "" ∧ ∀ c ∈ m.lexeme.toList, IsOperatorChar c
  spelling : m.spelling = read.filter leavesTrace

variable {m : Machine}

/-! ## What is spelled -/

theorem spelling_emit (h : m.lexeme = "") (kind : TokenKind) (value : String) :
    (m.emit kind value).spelling = m.spelling ++ value.toList := by
  simp [spelling, emit, h]

theorem flush_lexeme (m : Machine) : m.flush.lexeme = "" := by
  unfold flush
  cases m.mode <;> rfl

theorem Valid.spelling_flush (h : m.Valid) : m.flush.spelling = m.spelling := by
  obtain ⟨mode, lexeme, tokens⟩ := m
  cases mode with
  | idle =>
    obtain rfl : lexeme = "" := String.toList_eq_nil_iff.mp h.pending
    rfl
  | _ => simp [Machine.flush, spelling, Machine.emit]

theorem spelling_start (h : m.lexeme = "") (c : Char) :
    (m.start c).spelling = m.spelling ++ [c].filter leavesTrace := by
  unfold start
  cases hc : CharClass.of c with
  | newline =>
    obtain rfl : c = '\n' := CharClass.of_eq_newline.mp hc
    exact spelling_emit h _ _
  | blank =>
    have hb : ¬ leavesTrace c = true := fun ht => leavesTrace_iff.mp ht hc
    simp [hb]
  | _ =>
    have ht : leavesTrace c = true := leavesTrace_iff.mpr (by simp [hc])
    simp [spelling, h, ht, Char.toString_eq_singleton]

/-- A character that is read adds itself to what is spelled, unless it is a blank. -/
theorem Valid.spelling_read (h : m.Valid) (c : Char) :
    (m.read c).spelling = m.spelling ++ [c].filter leavesTrace := by
  unfold Machine.read
  split
  · next ha =>
    have ht : leavesTrace c = true := leavesTrace_iff.mpr (Mode.ne_blank_of_absorbs ha)
    simp [spelling, ht]
  · rw [spelling_start m.flush_lexeme, h.spelling_flush]

theorem Valid.spelling_readAll (h : m.Valid) (cs : List Char) :
    (m.readAll cs).spelling = m.spelling ++ cs.filter leavesTrace := by
  induction cs generalizing m with
  | nil => simp [Machine.readAll]
  | cons c cs ih =>
    have hc := ih (h.read c)
    rw [h.spelling_read, List.append_assoc, ← List.filter_append] at hc
    exact hc

/-! ## What is delivered -/

/-- Tokens that have been delivered stay as they are, with new ones behind them. -/
theorem tokens_prefix_readAll (m : Machine) (cs : List Char) :
    m.tokens.toList <+: (m.readAll cs).tokens.toList := by
  have hm : m = after m.tokens { m with tokens := #[] } := by simp [after]
  rw [hm, readAll_after]
  simp [after]

/-! ## States after reading -/

theorem Valid.tracks {read : List Char} (h : m.Valid)
    (hs : m.spelling = read.filter leavesTrace) : m.Tracks read := by
  have hp := h.pending
  have hn : m.lexeme = "" ↔ m.lexeme.toList = [] := String.toList_eq_nil_iff.symm
  refine ⟨?_, ?_, ?_, ?_, hs⟩
  · rw [hp.idle_iff, hn]
  · intro hm
    rw [hm] at hp
    exact spellsWord_iff.mpr hp
  · intro hm
    rw [hm] at hp
    rw [ne_eq, hn]
    exact ⟨hp.1, fun c hc => CharClass.of_eq_digit.mp (hp.2 c hc)⟩
  · intro hm
    rw [hm] at hp
    rw [ne_eq, hn]
    exact ⟨hp.1, fun c hc => CharClass.of_eq_symbol.mp (hp.2 c hc)⟩

/-- After every part of a text, mode and pending lexeme belong together, and nothing that was read
is lost but blanks. Reading on delivers the same tokens and others behind them. -/
theorem tracks_every_prefix (read rest : List Char) :
    Tracks (readAll {} read) read ∧
      (readAll {} read).tokens.toList <+: (readAll {} (read ++ rest)).tokens.toList := by
  constructor
  · exact (Valid.fresh.readAll read).tracks (Valid.fresh.spelling_readAll read)
  · rw [readAll_append]
    exact tokens_prefix_readAll _ rest

/-- A letter ends a number without a blank between them. -/
example : readAll {} ['x', ' ', '4', '2', 'y'] =
    { mode := .identifier, lexeme := "y", tokens := #[⟨.identifier, "x"⟩, ⟨.number, "42"⟩] } := by
  rfl

end Machine

end CommandScript
