import Mathlib.Data.List.Basic
import CommandScript.Token.Lexer

/-! # Lexed tokens

Every token of a lexed script is well formed: its value has the shape of its kind, so the value
alone fixes the token. A newline cuts lexing in two, and the last token is always a newline.
-/

namespace CommandScript

open Text

namespace Text

/-- A letter followed by letters and digits. -/
def IsWord : List Char → Prop
  | [] => False
  | c :: cs => CharClass.of c = .letter ∧
      ∀ d ∈ cs, CharClass.of d = .letter ∨ CharClass.of d = .digit

/-- One or more digits. -/
def IsNumeral (cs : List Char) : Prop := cs ≠ [] ∧ ∀ c ∈ cs, CharClass.of c = .digit

/-- One or more characters that are neither blank, letter nor digit. -/
def IsSymbols (cs : List Char) : Prop := cs ≠ [] ∧ ∀ c ∈ cs, CharClass.of c = .symbol

theorem IsWord.push {cs : List Char} {c : Char} (h : IsWord cs)
    (hc : CharClass.of c = .letter ∨ CharClass.of c = .digit) : IsWord (cs ++ [c]) := by
  cases cs with
  | nil => exact h.elim
  | cons d ds => exact ⟨h.1, List.forall_mem_append.mpr ⟨h.2, by simpa using hc⟩⟩

theorem IsNumeral.push {cs : List Char} {c : Char} (h : IsNumeral cs)
    (hc : CharClass.of c = .digit) : IsNumeral (cs ++ [c]) :=
  ⟨by simp, List.forall_mem_append.mpr ⟨h.2, by simpa using hc⟩⟩

theorem IsSymbols.push {cs : List Char} {c : Char} (h : IsSymbols cs)
    (hc : CharClass.of c = .symbol) : IsSymbols (cs ++ [c]) :=
  ⟨by simp, List.forall_mem_append.mpr ⟨h.2, by simpa using hc⟩⟩

end Text

namespace Token

/-- The value has the shape that the kind asks for. -/
def WellFormed (t : Token) : Prop :=
  match t.kind with
  | .newLine => t.value = "\n"
  | .number => IsNumeral t.value.toList
  | .keyword => t.value ∈ keywords
  | .identifier => IsWord t.value.toList ∧ t.value ∉ keywords
  | .operator => IsSymbols t.value.toList
  | .comment => False

/-- The kind of the tokens that start with this character and have this value. -/
def kindOf (c : Char) (value : String) : TokenKind :=
  match CharClass.of c with
  | .newline => .newLine
  | .digit => .number
  | .letter => if value ∈ keywords then .keyword else .identifier
  | .symbol => .operator
  | .blank => .comment

theorem head_of_mem_keywords {value : String} (h : value ∈ keywords) :
    ∃ c cs, value.toList = c :: cs ∧ CharClass.of c = .letter := by
  simp only [keywords, List.mem_cons, List.not_mem_nil, or_false] at h
  rcases h with rfl | rfl | rfl | rfl | rfl | rfl
  · exact ⟨'I', ['f'], by decide, by decide⟩
  · exact ⟨'W', ['h', 'i', 'l', 'e'], by decide, by decide⟩
  · exact ⟨'M', ['e', 't', 'h', 'o', 'd'], by decide, by decide⟩
  · exact ⟨'E', ['n', 'd', 'i', 'f'], by decide, by decide⟩
  · exact ⟨'E', ['n', 'd', 'l', 'o', 'o', 'p'], by decide, by decide⟩
  · exact ⟨'E', ['n', 'd', 'm', 'e', 't', 'h', 'o', 'd'], by decide, by decide⟩

theorem WellFormed.kind_eq {t : Token} (h : t.WellFormed) :
    ∃ c cs, t.value.toList = c :: cs ∧ t.kind = kindOf c t.value := by
  obtain ⟨kind, value⟩ := t
  cases kind with
  | newLine =>
    obtain rfl : value = "\n" := h
    exact ⟨'\n', [], by decide, by decide⟩
  | number =>
    obtain ⟨hne, hd⟩ : IsNumeral value.toList := h
    obtain ⟨c, cs, he⟩ := List.exists_cons_of_ne_nil hne
    exact ⟨c, cs, he, by simp [kindOf, hd c (by simp [he])]⟩
  | operator =>
    obtain ⟨hne, hd⟩ : IsSymbols value.toList := h
    obtain ⟨c, cs, he⟩ := List.exists_cons_of_ne_nil hne
    exact ⟨c, cs, he, by simp [kindOf, hd c (by simp [he])]⟩
  | keyword =>
    have h : value ∈ keywords := h
    obtain ⟨c, cs, he, hc⟩ := head_of_mem_keywords h
    exact ⟨c, cs, he, by simp [kindOf, hc, h]⟩
  | identifier =>
    obtain ⟨hw, hk⟩ : IsWord value.toList ∧ value ∉ keywords := h
    cases he : value.toList with
    | nil => rw [he] at hw; exact hw.elim
    | cons c cs =>
      rw [he] at hw
      exact ⟨c, cs, rfl, by simp [kindOf, hw.1, hk]⟩
  | comment => exact (h : False).elim

theorem WellFormed.eq_of_value {t u : Token} (ht : t.WellFormed) (hu : u.WellFormed)
    (h : t.value = u.value) : t = u := by
  obtain ⟨c, cs, hc, hkt⟩ := ht.kind_eq
  obtain ⟨d, ds, hd, hku⟩ := hu.kind_eq
  rw [h, hd] at hc
  obtain ⟨rfl, -⟩ := List.cons.inj hc
  obtain ⟨kt, vt⟩ := t
  obtain ⟨ku, vu⟩ := u
  subst h
  simp only [Token.mk.injEq, and_true]
  exact hkt.trans hku.symm

theorem WellFormed.eq_newline {t : Token} (h : t.WellFormed) (hk : t.kind = .newLine) :
    t = ⟨.newLine, "\n"⟩ := by
  obtain ⟨kind, value⟩ := t
  obtain rfl : kind = .newLine := hk
  obtain rfl : value = "\n" := h
  rfl

end Token

namespace Mode

/-- The lexemes that may be pending in a mode. -/
def Fits : Mode → List Char → Prop
  | .idle, cs => cs = []
  | .identifier, cs => IsWord cs
  | .number, cs => IsNumeral cs
  | .operator, cs => IsSymbols cs

theorem Fits.push {mode : Mode} {cs : List Char} {c : Char} (h : mode.Fits cs)
    (hc : mode.absorbs (CharClass.of c) = true) : mode.Fits (cs ++ [c]) := by
  cases mode with
  | idle => simp [absorbs] at hc
  | identifier =>
    apply IsWord.push h
    revert hc
    cases CharClass.of c <;> simp [absorbs]
  | number =>
    apply IsNumeral.push h
    revert hc
    cases CharClass.of c <;> simp [absorbs]
  | operator =>
    apply IsSymbols.push h
    revert hc
    cases CharClass.of c <;> simp [absorbs]

end Mode

namespace Machine

/-- The delivered tokens are well formed, and the pending lexeme fits the mode. -/
structure Valid (m : Machine) : Prop where
  tokens : ∀ t ∈ m.tokens.toList, t.WellFormed
  pending : m.mode.Fits m.lexeme.toList

theorem Valid.fresh : Valid {} := ⟨by simp, rfl⟩

theorem Valid.emit {m : Machine} (h : m.Valid) {kind : TokenKind} {value : String}
    (ht : Token.WellFormed ⟨kind, value⟩) : (m.emit kind value).Valid := by
  refine ⟨fun t hm => ?_, h.pending⟩
  simp only [Machine.emit, Array.toList_push, List.mem_append, List.mem_singleton] at hm
  rcases hm with hm | rfl
  · exact h.tokens t hm
  · exact ht

theorem Valid.flush {m : Machine} (h : m.Valid) : m.flush.Valid ∧ m.flush.mode = .idle := by
  have hi : Valid { m with mode := .idle, lexeme := "" } := ⟨h.tokens, rfl⟩
  have hp := h.pending
  unfold Machine.flush
  cases hm : m.mode with
  | idle => exact ⟨hi, rfl⟩
  | number => exact ⟨hi.emit (by rw [hm] at hp; exact hp), rfl⟩
  | operator => exact ⟨hi.emit (by rw [hm] at hp; exact hp), rfl⟩
  | identifier =>
    rw [hm] at hp
    refine ⟨hi.emit ?_, rfl⟩
    by_cases hk : m.lexeme ∈ keywords
    · simp [Token.WellFormed, hk]
    · simp only [List.contains_eq_mem, hk, decide_false, Bool.false_eq_true, if_false]
      exact ⟨hp, hk⟩

theorem Valid.start {m : Machine} (h : m.Valid) (c : Char) : (m.start c).Valid := by
  unfold Machine.start
  cases hc : CharClass.of c with
  | newline => exact h.emit rfl
  | blank => exact h
  | letter => exact ⟨h.tokens, by simp [Mode.Fits, IsWord, Char.toString_eq_singleton, hc]⟩
  | digit => exact ⟨h.tokens, by simp [Mode.Fits, IsNumeral, Char.toString_eq_singleton, hc]⟩
  | symbol => exact ⟨h.tokens, by simp [Mode.Fits, IsSymbols, Char.toString_eq_singleton, hc]⟩

theorem Valid.read {m : Machine} (h : m.Valid) (c : Char) : (m.read c).Valid := by
  unfold Machine.read
  split
  · next hc => exact ⟨h.tokens, by simpa [String.toList_push] using h.pending.push hc⟩
  · exact h.flush.1.start c

theorem Valid.readAll {m : Machine} (h : m.Valid) (cs : List Char) : (m.readAll cs).Valid := by
  induction cs generalizing m with
  | nil => exact h
  | cons c cs ih => exact ih (h.read c)

theorem flush_flush (m : Machine) : m.flush.flush = m.flush := by
  unfold flush
  cases m.mode <;> rfl

/-- The machine with tokens delivered before its own. -/
def after (ts : Array Token) (m : Machine) : Machine := { m with tokens := ts ++ m.tokens }

theorem emit_after (ts : Array Token) (m : Machine) (kind : TokenKind) (value : String) :
    (m.after ts).emit kind value = (m.emit kind value).after ts := by
  simp only [emit, after, Array.push_append]

theorem flush_after (ts : Array Token) (m : Machine) :
    (m.after ts).flush = m.flush.after ts := by
  obtain ⟨mode, lexeme, tokens⟩ := m
  cases mode with
  | idle => rfl
  | _ => exact emit_after ts { tokens := tokens } _ _

theorem start_after (ts : Array Token) (m : Machine) (c : Char) :
    (m.after ts).start c = (m.start c).after ts := by
  unfold start
  cases CharClass.of c <;> first | rfl | exact emit_after ..

theorem read_after (ts : Array Token) (m : Machine) (c : Char) :
    (m.after ts).read c = (m.read c).after ts := by
  unfold read
  by_cases h : m.mode.absorbs (CharClass.of c) = true
  · rw [if_pos h, if_pos (show (m.after ts).mode.absorbs _ = true from h)]
    rfl
  · rw [if_neg h, if_neg (show ¬ (m.after ts).mode.absorbs _ = true from h), flush_after,
      start_after]

theorem readAll_after (ts : Array Token) (m : Machine) (cs : List Char) :
    (m.after ts).readAll cs = (m.readAll cs).after ts := by
  induction cs generalizing m with
  | nil => rfl
  | cons c cs ih =>
    simp only [readAll, List.foldl_cons, read_after]
    exact ih (m.read c)

theorem read_newline (m : Machine) :
    ∃ ts : Array Token, m.read '\n' = Machine.after (ts.push ⟨.newLine, "\n"⟩) {} := by
  have hc : CharClass.of '\n' = .newline := by decide
  refine ⟨m.flush.tokens, ?_⟩
  obtain ⟨mode, lexeme, tokens⟩ := m
  cases mode <;> simp [Machine.read, Mode.absorbs, hc, flush, start, emit, after]

end Machine

theorem lex_wellFormed (script : String) : ∀ t ∈ lex script, t.WellFormed :=
  ((Machine.Valid.fresh.readAll script.toList).read '\n').tokens

/-- The last token of a script is a newline. -/
theorem exists_lex_eq (script : String) : ∃ ts, lex script = ts ++ [⟨.newLine, "\n"⟩] := by
  obtain ⟨ts, h⟩ := (Machine.readAll {} script.toList).read_newline
  exact ⟨ts.toList, by simp [lex, h, Machine.after]⟩

theorem lex_append_newline (a b : String) : lex (a ++ "\n" ++ b) = lex a ++ lex b := by
  obtain ⟨ts, h⟩ := (Machine.readAll {} a.toList).read_newline
  have ha : lex a = (ts.push ⟨.newLine, "\n"⟩).toList := by simp [lex, h, Machine.after]
  have hs : (a ++ "\n" ++ b).toList = a.toList ++ '\n' :: b.toList := by simp
  have hr : Machine.readAll {} (a.toList ++ '\n' :: b.toList) =
      (Machine.readAll {} b.toList).after (ts.push ⟨.newLine, "\n"⟩) := by
    rw [← Machine.readAll_after, ← h]
    simp [Machine.readAll, List.foldl_append]
  rw [ha, lex, hs, hr, Machine.read_after, lex]
  simp [Machine.after]

end CommandScript
