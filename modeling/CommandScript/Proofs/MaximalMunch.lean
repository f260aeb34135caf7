import Mathlib.Data.List.Basic
import Mathlib.Data.List.Chain
import Mathlib.Data.List.TakeWhile
import CommandScript.Proofs.Classes
import CommandScript.Proofs.Lexing

/-! # Maximal munch

Lexing cuts a text into tokens with gaps between them. Nothing is lost, every token is as long as
it can be, and there is one way only to cut a text so.
-/

namespace CommandScript

open Text

/-! ## Cutting a text -/

namespace Text

/-- Blanks, but no newline. -/
def IsGap (cs : List Char) : Prop := ∀ c ∈ cs, isBlank c = true ∧ c ≠ '\n'

/-- Neither blank nor letter nor digit. -/
def IsOperatorChar (c : Char) : Prop := isBlank c = false ∧ isLetter c = false ∧ isDigit c = false

/-- A letter and then letters and digits. -/
def SpellsWord (cs : List Char) : Prop :=
  ∃ c ds, cs = c :: ds ∧ isLetter c = true ∧ ∀ d ∈ ds, isLetter d = true ∨ isDigit d = true

end Text

namespace Token

/-- The value is what the kind of the token asks for. -/
def Spelled (t : Token) : Prop :=
  match t.kind with
  | .newLine => t.value = "\n"
  | .number => t.value ≠ "" ∧ ∀ c ∈ t.value.toList, isDigit c = true
  | .keyword => SpellsWord t.value.toList ∧ t.value ∈ keywords
  | .identifier => SpellsWord t.value.toList ∧ t.value ∉ keywords
  | .operator => t.value ≠ "" ∧ ∀ c ∈ t.value.toList, IsOperatorChar c
  | .comment => False

/-- The token could go on with this character. -/
def Extends (t : Token) (c : Char) : Prop :=
  match t.kind with
  | .keyword => isLetter c = true ∨ isDigit c = true
  | .identifier => isLetter c = true ∨ isDigit c = true
  | .number => isDigit c = true
  | .operator => IsOperatorChar c
  | .newLine => False
  | .comment => False

end Token

/-- The text of tokens, each with the gap behind it. -/
def spell (pieces : List (Token × List Char)) : List Char :=
  pieces.flatMap fun (t, gap) => t.value.toList ++ gap

/-- The text is a gap and then tokens with gaps behind them. Where there is no gap between two
tokens, the first could not go on with the first character of the second. -/
structure Munch (text gap : List Char) (pieces : List (Token × List Char)) : Prop where
  text_eq : text = gap ++ spell pieces
  gap : IsGap gap
  gaps : ∀ p ∈ pieces, IsGap p.2
  tokens : ∀ p ∈ pieces, p.1.Spelled
  maximal : pieces.IsChain fun p q => p.2 = [] → ∀ c ∈ q.1.value.toList.head?, ¬ p.1.Extends c

/-! ## Classes of characters in tokens -/

namespace Text

variable {cs : List Char}

theorem isGap_iff : IsGap cs ↔ ∀ c ∈ cs, CharClass.of c = .blank := by
  simp only [IsGap, CharClass.of_eq_blank]

theorem spellsWord_iff : SpellsWord cs ↔ IsWord cs := by
  cases cs with
  | nil => simp [SpellsWord, IsWord]
  | cons c cs => simp [SpellsWord, IsWord, CharClass.of_eq_letter, CharClass.of_eq_digit]

theorem isWord_of_mem_keywords {value : String} (h : value ∈ keywords) : IsWord value.toList := by
  have hk : keywords.all (fun v => v.toList.all fun c => CharClass.of c = .letter) = true := by
    decide +kernel
  have ha := List.all_eq_true.mp (List.all_eq_true.mp hk value h)
  obtain ⟨c, cs, he, hc⟩ := Token.head_of_mem_keywords h
  rw [he] at ha ⊢
  exact ⟨hc, fun d hd => Or.inl (of_decide_eq_true (ha d (List.mem_cons_of_mem c hd)))⟩

end Text

/-- The mode in which the characters of a token are pending. -/
def Token.mode (t : Token) : Mode :=
  match t.kind with
  | .keyword => .identifier
  | .identifier => .identifier
  | .number => .number
  | .operator => .operator
  | .newLine => .idle
  | .comment => .idle

namespace Token

variable {t : Token} {c : Char}

theorem spelled_iff : t.Spelled ↔ t.WellFormed := by
  obtain ⟨kind, value⟩ := t
  have hn : value ≠ "" ↔ value.toList ≠ [] := by simp
  cases kind with
  | newLine => rfl
  | comment => rfl
  | number => simp only [Spelled, WellFormed, IsNumeral, CharClass.of_eq_digit, hn]
  | operator => simp only [Spelled, WellFormed, IsSymbols, IsOperatorChar, CharClass.of_eq_symbol, hn]
  | identifier => simp only [Spelled, WellFormed, spellsWord_iff]
  | keyword =>
    simp only [Spelled, WellFormed, spellsWord_iff]
    exact ⟨And.right, fun h => ⟨isWord_of_mem_keywords h, h⟩⟩

theorem extends_iff : t.Extends c ↔ t.mode.absorbs (CharClass.of c) = true := by
  obtain ⟨kind, value⟩ := t
  have hl : CharClass.of c = .letter ↔ isLetter c = true := CharClass.of_eq_letter
  have hd : CharClass.of c = .digit ↔ isDigit c = true := CharClass.of_eq_digit
  have hs : CharClass.of c = .symbol ↔ IsOperatorChar c := CharClass.of_eq_symbol
  cases kind with
  | newLine => simp [Extends, mode, Mode.absorbs]
  | comment => simp [Extends, mode, Mode.absorbs]
  | _ =>
    simp only [Extends, mode, ← hl, ← hd, ← hs]
    cases CharClass.of c <;> simp [Mode.absorbs]

theorem not_extends (h : CharClass.of c = .blank ∨ CharClass.of c = .newline) : ¬ t.Extends c := by
  rw [extends_iff]
  rcases h with h | h
  · rw [h]
    cases t.mode <;> simp [Mode.absorbs]
  · rw [h]
    cases t.mode <;> simp [Mode.absorbs]

end Token

/-! ## The machine on a token -/

namespace Machine

variable {m : Machine} {t : Token} {cs rest : List Char} {ts : Array Token}

theorem readAll_append (m : Machine) (cs ds : List Char) :
    m.readAll (cs ++ ds) = (m.readAll cs).readAll ds :=
  List.foldl_append

theorem absorbs_idle (c : Char) : Mode.absorbs .idle (CharClass.of c) = false := rfl

theorem flush_mode (m : Machine) : m.flush.mode = .idle := by
  unfold flush
  cases m.mode <;> rfl

theorem readAll_gap (h : IsGap cs) : readAll { tokens := ts } cs = { tokens := ts } := by
  rw [isGap_iff] at h
  induction cs with
  | nil => rfl
  | cons c cs ih =>
    have hc : read { tokens := ts } c = { tokens := ts } := by
      rw [read, if_neg (by simp [absorbs_idle])]
      simp [flush, start, h c (by simp)]
    change readAll (read _ c) cs = _
    rw [hc]
    exact ih fun c hm => h c (by simp [hm])

theorem readAll_absorbed (h : ∀ c ∈ cs, m.mode.absorbs (CharClass.of c) = true) :
    m.readAll cs = { m with lexeme := m.lexeme ++ String.ofList cs } := by
  induction cs generalizing m with
  | nil => simp [readAll]
  | cons c cs ih =>
    change (m.read c).readAll cs = _
    rw [read, if_pos (h c (by simp)),
      ih (m := { m with lexeme := m.lexeme.push c }) fun d hd => h d (by simp [hd])]
    rw [String.ofList_cons, ← String.append_assoc, String.append_singleton]

theorem flush_readAll (h : ∀ c ∈ cs.head?, m.mode.absorbs (CharClass.of c) = false) :
    (m.readAll cs).flush = (m.flush.readAll cs).flush := by
  cases cs with
  | nil => exact m.flush_flush.symm
  | cons c cs =>
    have hm : m.read c = m.flush.read c := by
      rw [read, read, flush_mode, flush_flush, absorbs_idle, h c (by simp)]
      rfl
    change ((m.read c).readAll cs).flush = ((m.flush.read c).readAll cs).flush
    rw [hm]

theorem readAll_value (mode : Mode) {value : String} {c : Char} (hv : value.toList = c :: cs)
    (hs : start { tokens := ts } c = { mode := mode, lexeme := c.toString, tokens := ts })
    (ha : ∀ d ∈ cs, mode.absorbs (CharClass.of d) = true) :
    readAll { tokens := ts } value.toList = { mode := mode, lexeme := value, tokens := ts } := by
  have hr : read { tokens := ts } c = { mode := mode, lexeme := c.toString, tokens := ts } := hs
  rw [hv]
  change readAll (read _ c) cs = _
  rw [hr, readAll_absorbed ha, ← String.ofList_toList (s := value), hv, String.ofList_cons,
    Char.toString_eq_singleton]

theorem readAll_word {value : String} (hw : IsWord value.toList) :
    readAll { tokens := ts } value.toList =
      { mode := .identifier, lexeme := value, tokens := ts } := by
  cases hv : value.toList with
  | nil => rw [hv] at hw; exact hw.elim
  | cons c cs =>
    rw [hv] at hw
    rw [← hv]
    refine readAll_value .identifier hv (by simp [start, hw.1]) ?_
    intro d hd
    rcases hw.2 d hd with h | h
    · rw [h]; rfl
    · rw [h]; rfl

theorem flush_readAll_value (h : t.WellFormed) (ts : Array Token) :
    (readAll { tokens := ts } t.value.toList).mode = t.mode ∧
      (readAll { tokens := ts } t.value.toList).flush = { tokens := ts.push t } := by
  obtain ⟨kind, value⟩ := t
  cases kind with
  | comment => exact h.elim
  | newLine =>
    obtain rfl : value = "\n" := h
    exact ⟨rfl, rfl⟩
  | number =>
    obtain ⟨hn, hd⟩ : IsNumeral value.toList := h
    obtain ⟨c, cs, hv⟩ := List.exists_cons_of_ne_nil hn
    rw [hv, List.forall_mem_cons] at hd
    rw [readAll_value .number hv (by simp [start, hd.1]) fun d hm => by
      rw [hd.2 d hm]; rfl]
    exact ⟨rfl, rfl⟩
  | operator =>
    obtain ⟨hn, hd⟩ : IsSymbols value.toList := h
    obtain ⟨c, cs, hv⟩ := List.exists_cons_of_ne_nil hn
    rw [hv, List.forall_mem_cons] at hd
    rw [readAll_value .operator hv (by simp [start, hd.1]) fun d hm => by
      rw [hd.2 d hm]; rfl]
    exact ⟨rfl, rfl⟩
  | keyword =>
    have hk : value ∈ keywords := h
    rw [readAll_word (isWord_of_mem_keywords hk)]
    exact ⟨rfl, by simp [flush, emit, hk]⟩
  | identifier =>
    obtain ⟨hw, hk⟩ : IsWord value.toList ∧ value ∉ keywords := h
    rw [readAll_word hw]
    exact ⟨rfl, by simp [flush, emit, hk]⟩

theorem flush_readAll_token (h : t.WellFormed) (hr : ∀ c ∈ rest.head?, ¬ t.Extends c) :
    (readAll { tokens := ts } (t.value.toList ++ rest)).flush =
      (readAll { tokens := ts.push t } rest).flush := by
  obtain ⟨hm, hf⟩ := flush_readAll_value h ts
  rw [readAll_append, flush_readAll, hf]
  intro c hc
  rw [hm, ← Bool.not_eq_true, ← Token.extends_iff]
  exact hr c hc

end Machine

/-! ## Texts that are cut -/

namespace Munch

variable {text rest gap : List Char} {t : Token} {pieces : List (Token × List Char)}

theorem blank (h : Munch text gap pieces) {c : Char} (hc : CharClass.of c = .blank) :
    Munch (c :: text) (c :: gap) pieces where
  text_eq := by rw [h.text_eq]; rfl
  gap := List.forall_mem_cons.mpr ⟨CharClass.of_eq_blank.mp hc, h.gap⟩
  gaps := h.gaps
  tokens := h.tokens
  maximal := h.maximal

theorem token (h : Munch rest gap pieces) (ht : t.Spelled)
    (hr : ∀ c ∈ rest.head?, ¬ t.Extends c) :
    Munch (t.value.toList ++ rest) [] ((t, gap) :: pieces) where
  text_eq := by simp [spell, h.text_eq]
  gap := by simp [IsGap]
  gaps := List.forall_mem_cons.mpr ⟨h.gap, h.gaps⟩
  tokens := List.forall_mem_cons.mpr ⟨ht, h.tokens⟩
  maximal := by
    refine List.isChain_cons.mpr ⟨?_, h.maximal⟩
    rintro ⟨u, gap'⟩ hq hg c hc
    obtain ⟨ps, rfl⟩ : ∃ ps, pieces = (u, gap') :: ps := by
      cases pieces with
      | nil => cases hq
      | cons p ps => exact ⟨ps, by cases hq; rfl⟩
    apply hr c
    obtain rfl : gap = [] := hg
    rw [h.text_eq]
    simpa [spell, List.head?_append] using Or.inl hc

theorem ends (h : Munch text gap ((t, rest) :: pieces)) :
    ∀ c ∈ (rest ++ spell pieces).head?, ¬ t.Extends c := by
  intro c hc
  cases rest with
  | cons d ds =>
    obtain rfl : d = c := by simpa using hc
    exact Token.not_extends (Or.inl (isGap_iff.mp (h.gaps (t, d :: ds) (by simp)) d (by simp)))
  | nil =>
    cases pieces with
    | nil => cases hc
    | cons q qs =>
      obtain ⟨d, ds, hv, -⟩ := (Token.spelled_iff.mp (h.tokens q (by simp))).kind_eq
      refine (List.isChain_cons_cons.mp h.maximal).1 rfl c ?_
      simpa [spell, hv] using hc

/-- A machine that reads a text delivers the tokens it is cut into. -/
theorem readAll_tokens (h : Munch text gap pieces) (ts : Array Token) :
    (Machine.readAll { tokens := ts } text).flush.tokens.toList =
      ts.toList ++ pieces.map Prod.fst := by
  induction pieces generalizing text gap ts with
  | nil =>
    have ht : text = gap := by rw [h.text_eq]; exact List.append_nil gap
    rw [ht, Machine.readAll_gap h.gap, List.map_nil, List.append_nil]
    rfl
  | cons p pieces ih =>
    obtain ⟨t, rest⟩ := p
    have hs : Munch (rest ++ spell pieces) rest pieces :=
      { text_eq := rfl
        gap := h.gaps (t, rest) (by simp)
        gaps := fun p hp => h.gaps p (by simp [hp])
        tokens := fun p hp => h.tokens p (by simp [hp])
        maximal := h.maximal.tail }
    have ht : t.WellFormed := Token.spelled_iff.mp (h.tokens (t, rest) (by simp))
    have he : spell ((t, rest) :: pieces) = t.value.toList ++ (rest ++ spell pieces) := by
      simp [spell]
    rw [h.text_eq, Machine.readAll_append, Machine.readAll_gap h.gap, he,
      Machine.flush_readAll_token ht h.ends, ih hs]
    simp

end Munch

/-! ## Every text can be cut -/

namespace Mode

variable {mode : Mode} {cs ds : List Char}

theorem Fits.append (h : mode.Fits cs) (hd : ∀ d ∈ ds, mode.absorbs (CharClass.of d) = true) :
    mode.Fits (cs ++ ds) := by
  induction ds generalizing cs with
  | nil => rwa [List.append_nil]
  | cons d ds ih =>
    rw [List.append_cons]
    exact ih (h.push (hd d (by simp))) fun d hm => hd d (by simp [hm])

theorem Fits.exists_token (h : mode.Fits cs) (hi : mode ≠ .idle) :
    ∃ t : Token, t.value.toList = cs ∧ t.WellFormed ∧ t.mode = mode := by
  have hv : (String.ofList cs).toList = cs := String.toList_ofList
  rw [← hv] at h
  cases mode with
  | idle => exact absurd rfl hi
  | number => exact ⟨⟨.number, String.ofList cs⟩, hv, h, rfl⟩
  | operator => exact ⟨⟨.operator, String.ofList cs⟩, hv, h, rfl⟩
  | identifier =>
    by_cases hk : String.ofList cs ∈ keywords
    · exact ⟨⟨.keyword, String.ofList cs⟩, hv, hk, rfl⟩
    · exact ⟨⟨.identifier, String.ofList cs⟩, hv, ⟨h, hk⟩, rfl⟩

/-- A text whose first character starts a mode starts with a token that cannot go on. -/
theorem Fits.exists_longest {c : Char} (h : mode.Fits [c]) (cs : List Char) :
    ∃ (t : Token) (rest : List Char), c :: cs = t.value.toList ++ rest ∧ t.WellFormed ∧
      rest.length ≤ cs.length ∧ ∀ d ∈ rest.head?, ¬ t.Extends d := by
  have hi : mode ≠ .idle := by
    rintro rfl
    cases h
  let p := fun d => mode.absorbs (CharClass.of d)
  have hf : mode.Fits (c :: cs.takeWhile p) :=
    h.append fun d hd => List.mem_takeWhile_imp (p := p) hd
  obtain ⟨t, hv, ht, hm⟩ := hf.exists_token hi
  refine ⟨t, cs.dropWhile p, ?_, ht, (List.dropWhile_suffix p).length_le, ?_⟩
  · rw [hv, List.cons_append, List.takeWhile_append_dropWhile]
  · intro d hd
    have hn := List.head?_dropWhile_not p cs
    rw [Option.mem_def.mp hd] at hn
    rw [Token.extends_iff, hm, Bool.not_eq_true]
    exact hn

end Mode

theorem exists_munch (text : List Char) : ∃ gap pieces, Munch text gap pieces := by
  induction hn : text.length using Nat.strong_induction_on generalizing text with
  | _ n ih =>
    cases text with
    | nil => exact ⟨[], [], rfl, by simp [IsGap], by simp, by simp, .nil⟩
    | cons c cs =>
      subst hn
      have hl : cs.length < (c :: cs).length := Nat.lt_succ_self _
      -- a character that starts a lexeme is taken with all that belongs to it
      have longest : ∀ mode : Mode, mode.Fits [c] → ∃ gap pieces, Munch (c :: cs) gap pieces := by
        intro mode hf
        obtain ⟨t, rest, he, ht, hr, hx⟩ := hf.exists_longest cs
        obtain ⟨gap, pieces, h⟩ := ih rest.length (by omega) rest rfl
        rw [he]
        exact ⟨[], _, h.token (Token.spelled_iff.mpr ht) hx⟩
      cases hc : CharClass.of c with
      | blank =>
        obtain ⟨gap, pieces, h⟩ := ih cs.length hl cs rfl
        exact ⟨c :: gap, pieces, h.blank hc⟩
      | newline =>
        obtain rfl := CharClass.of_eq_newline.mp hc
        obtain ⟨gap, pieces, h⟩ := ih cs.length hl cs rfl
        exact ⟨[], _, h.token (t := ⟨.newLine, "\n"⟩) rfl fun _ _ hx => hx⟩
      | letter => exact longest .identifier ⟨hc, by simp⟩
      | digit => exact longest .number ⟨by simp, by simpa using hc⟩
      | symbol => exact longest .operator ⟨by simp, by simpa using hc⟩

/-! ## Lexing -/

theorem lex_eq_readAll (script : String) :
    lex script = (Machine.readAll {} (script ++ "\n").toList).flush.tokens.toList := by
  have hs : (script ++ "\n").toList = script.toList ++ ['\n'] := by simp
  obtain ⟨ts, hr⟩ := (Machine.readAll {} script.toList).read_newline
  rw [hs, Machine.readAll_append]
  change ((Machine.readAll {} script.toList).read '\n').tokens.toList =
    ((Machine.readAll {} script.toList).read '\n').flush.tokens.toList
  rw [hr]
  rfl

/-- Tokens into which a script and a last newline can be cut are what it is lexed to. -/
theorem lex_eq_of_munch {script : String} {gap : List Char} {pieces : List (Token × List Char)}
    (h : Munch (script ++ "\n").toList gap pieces) : lex script = pieces.map Prod.fst := by
  rw [lex_eq_readAll, h.readAll_tokens]
  rfl

/-- Lexing is maximal munch: a script is lexed to those tokens into which it can be cut, together
with a last newline, such that no token could go on. -/
theorem lex_eq_iff_munch (script : String) (ts : List Token) :
    lex script = ts ↔
      ∃ gap pieces, Munch (script ++ "\n").toList gap pieces ∧ pieces.map Prod.fst = ts := by
  constructor
  · rintro rfl
    obtain ⟨gap, pieces, h⟩ := exists_munch (script ++ "\n").toList
    exact ⟨gap, pieces, h, (lex_eq_of_munch h).symm⟩
  · rintro ⟨gap, pieces, h, rfl⟩
    exact lex_eq_of_munch h

end CommandScript
