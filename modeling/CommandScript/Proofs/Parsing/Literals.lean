import Mathlib.Data.Nat.Digits.Defs
import CommandScript.Expr.Parser
import CommandScript.Proofs.Classes
import CommandScript.Proofs.Parsing.Logic
import CommandScript.Proofs.Rendering

/-! # Literals

A run of digits, of whatever scripts, is one token. As a term it stands for its positional value,
and it is refused only if it has too many characters: neither its value nor its leading zeros
matter.
-/

namespace CommandScript

open Text Token

/-! ## Digits -/

namespace Text

/-- The character is the digit `d` of a decimal script, which has its ten digits in a row. -/
def IsDigitOf (c : Char) (d : Nat) : Prop := ∃ z ∈ zeros, d < 10 ∧ c.toNat = z + d

theorem digitAt_eq_some {zs : List Nat} (hz : zs.Pairwise fun y z => y + 10 ≤ z) {n d : Nat} :
    digitAt zs n = some d ↔ ∃ z ∈ zs, d < 10 ∧ n = z + d := by
  induction zs with
  | nil => simp [digitAt]
  | cons z zs ih =>
    obtain ⟨hl, hz⟩ := List.pairwise_cons.mp hz
    have hi := ih hz
    rw [digitAt, List.exists_mem_cons_iff]
    split_ifs with hn hd
    · -- the zeros behind are above `n` as well
      constructor
      · intro h
        cases h
      · rintro (⟨-, h⟩ | ⟨y, hy, -, h⟩)
        · omega
        · have := hl y hy
          omega
    · rw [Option.some.injEq]
      constructor
      · rintro rfl
        exact Or.inl (by omega)
      · rintro (⟨-, h⟩ | ⟨y, hy, -, h⟩)
        · omega
        · have := hl y hy
          omega
    · rw [hi]
      exact ⟨Or.inr, fun h => h.resolve_left (by omega)⟩

theorem digitValue?_eq_some {c : Char} {d : Nat} : digitValue? c = some d ↔ IsDigitOf c d :=
  digitAt_eq_some (by decide)

theorem isDigitOf_of_mapM {cs : List Char} {ds : List Nat} (h : cs.mapM digitValue? = some ds) :
    List.Forall₂ IsDigitOf cs ds :=
  (forall₂_of_mapM h).imp fun _ _ => digitValue?_eq_some.mp

theorem positional_eq_ofDigits (ds : List Nat) : positional ds = Nat.ofDigits 10 ds.reverse := by
  induction ds using List.reverseRecOn with
  | nil => rfl
  | append_singleton ds d ih =>
    rw [positional_append, ih, List.reverse_concat, Nat.ofDigits_cons]
    omega

theorem isNumeral_of_isDigit {text : String} (hn : text ≠ "")
    (hd : ∀ c ∈ text.toList, isDigit c = true) : IsNumeral text.toList :=
  ⟨by simpa using hn, fun c hc => CharClass.of_eq_digit.mpr (hd c hc)⟩

end Text

/-! ## Terms -/

namespace Parser

/-- A numeral is passed as its value, or refused where it stands. -/
theorem term_number {text : String} (hn : IsNumeral text.toList) {ds : List Nat}
    (hds : text.toList.mapM digitValue? = some ds) {c c' : Cursor}
    (hc : c.Passes [number text] c') (depth : Nat) :
    term (depth + 1) c =
      if text.length ≤ digitLimit then .ok (.int (Nat.ofDigits 10 ds.reverse : Nat)) c'
      else .error (.malformed ("Could not parse term: " ++ text) false c.line) c := by
  have hl : ds.length = text.length := by
    rw [← (forall₂_of_mapM hds).length_eq, String.length_toList]
  have hr := hn.readInt?_eq hds
  rw [hl, positional_eq_ofDigits] at hr
  rw [term, bind_ok (peek_passes hc)]
  by_cases hs : text.length ≤ digitLimit
  · simp only [if_true, hr, if_pos hs]
    rw [bind_ok (advance_passes hc), pure_apply]
  · simp only [if_true, hr, if_neg hs]
    exact fail_apply _ c

end Parser

theorem lex_numeral {text : String} (hn : IsNumeral text.toList) :
    lex text = [number text, newline] := by
  have hw : ∀ t ∈ [number text], t.WellFormed := List.forall_mem_singleton.mpr hn
  have hl := lex_lineText hw
  exact hl

/-- A text of digits is a single token, and as a term it is read by its value if it is short enough
and else refused at its line, with nothing passed. So the numbers in a script are refused for their
length only. -/
theorem literals_by_value :
    (∀ text : String, text ≠ "" → (∀ c ∈ text.toList, isDigit c = true) →
      lex text = [number text, newline] ∧
      ∃ ds, List.Forall₂ IsDigitOf text.toList ds ∧ ∀ depth rest position line,
        Parser.term (depth + 1) ⟨number text :: rest, position, line⟩ =
          if text.length ≤ digitLimit then
            .ok (.int (Nat.ofDigits 10 ds.reverse : Nat)) ⟨rest, position + 1, line⟩
          else
            .error (.malformed ("Could not parse term: " ++ text) false line)
              ⟨number text :: rest, position, line⟩) ∧
    ∀ script before t after, lex script = before ++ t :: after → t.kind = .number →
      ∀ depth, let c : Cursor := ⟨t :: after, before.length, 1 + newlines before⟩
        (t.value.length ≤ digitLimit → ∃ (n : Nat) (c' : Cursor),
          c.Passes [t] c' ∧ Parser.term (depth + 1) c = .ok (.int n) c') ∧
        (digitLimit < t.value.length → Parser.term (depth + 1) c =
          .error (.malformed ("Could not parse term: " ++ t.value) false c.line) c) := by
  constructor
  · intro text hne hd
    have hn := isNumeral_of_isDigit hne hd
    obtain ⟨ds, hds, -⟩ := hn.mapM_digitValue?
    refine ⟨lex_numeral hn, ds, isDigitOf_of_mapM hds, fun depth rest position line => ?_⟩
    have hc : Cursor.Passes ⟨number text :: rest, position, line⟩ [number text]
        ⟨rest, position + 1, line⟩ := ⟨rfl, rfl, (Int.add_zero line).symm⟩
    exact Parser.term_number hn hds hc depth
  · rintro script before ⟨kind, text⟩ after hl hk depth c
    obtain rfl : kind = .number := hk
    have hn : IsNumeral text.toList := lex_wellFormed script (number text) (by simp [hl])
    obtain ⟨ds, hds, -⟩ := hn.mapM_digitValue?
    obtain ⟨c', hc⟩ : ∃ c', c.Passes [number text] c' := Cursor.passes_of_cons rfl
    have ht := Parser.term_number hn hds hc depth
    constructor
    · intro hs
      exact ⟨_, c', hc, ht.trans (if_pos hs)⟩
    · intro hs
      exact ht.trans (if_neg (Nat.not_le_of_lt hs))

/-- Digits of two scripts are read as one number, a zero that is written too long is refused, and
the number behind an assignment is read where it stands. -/
theorem literals_by_value_mixed :
    ("\u0966\u096a2" ≠ "" ∧ (∀ c ∈ "\u0966\u096a2".toList, isDigit c = true) ∧
      Parser.term 1 ⟨lex "\u0966\u096a2", 0, 1⟩ = .ok (.int 42) ⟨[newline], 1, 1⟩) ∧
    (∃ text : String, text.length = 4301 ∧ text ≠ "" ∧ (∀ c ∈ text.toList, isDigit c = true) ∧
      Parser.term 1 ⟨lex text, 0, 1⟩ =
        .error (.malformed ("Could not parse term: " ++ text) false 1) ⟨lex text, 0, 1⟩) ∧
    lex "x = 7" = [name "x", symbol "="] ++ number "7" :: [newline] ∧
      ∃ (n : Nat) (c' : Cursor), Parser.term 1 ⟨[number "7", newline], 2, 1⟩ = .ok (.int n) c' := by
  obtain ⟨hread, hscript⟩ := literals_by_value
  refine ⟨?_, ?_, ?_⟩
  · have hd : ∀ c ∈ "\u0966\u096a2".toList, isDigit c = true :=
      List.all_eq_true.mp (by decide +kernel)
    obtain ⟨hl, ds, hds, ht⟩ := hread "\u0966\u096a2" (by decide) hd
    have hv : ("\u0966\u096a2".toList).mapM digitValue? = some [0, 4, 2] := by decide +kernel
    have hu : Relator.RightUnique IsDigitOf := by
      intro c d d' h h'
      exact Option.some.inj ((digitValue?_eq_some.mpr h).symm.trans (digitValue?_eq_some.mpr h'))
    obtain rfl := hu.forall₂ hds (isDigitOf_of_mapM hv)
    exact ⟨by decide, hd, by rw [hl, ht, if_pos (by decide)]; rfl⟩
  · have hd : ∀ c ∈ (String.ofList (List.replicate 4301 '0')).toList, isDigit c = true := by
      rw [String.toList_ofList]
      intro c hc
      rw [List.eq_of_mem_replicate hc]
      decide
    have hs : (String.ofList (List.replicate 4301 '0')).length = 4301 := by
      rw [String.length_ofList, List.length_replicate]
    generalize String.ofList (List.replicate 4301 '0') = text at hd hs
    have hne : text ≠ "" := by
      rintro rfl
      cases hs
    obtain ⟨hl, ds, -, ht⟩ := hread text hne hd
    exact ⟨text, hs, hne, hd, by rw [hl, ht, if_neg (by rw [hs]; decide)]⟩
  · have hl : lex "x = 7" = [name "x", symbol "="] ++ number "7" :: [newline] := by
      decide +kernel
    obtain ⟨n, c', -, ht⟩ := (hscript "x = 7" _ _ _ hl rfl 0).1 (by decide)
    exact ⟨hl, n, c', ht⟩

end CommandScript
