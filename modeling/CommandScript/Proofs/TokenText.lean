import CommandScript.Proofs.Blanks
import CommandScript.Proofs.Rendering

/-! # The text of tokens

The values of well-formed tokens, with single blanks between them, are lexed to these tokens: a
blank keeps apart also what would run together. The newline at the end comes without standing in the
script. So the lists of tokens that come from a script are those of well-formed tokens with a
newline at the end.
-/

namespace CommandScript

open Token

namespace Text

instance : DecidablePred IsWord
  | [] => .isFalse id
  | _ :: cs =>
    have := List.decidableBAll (fun d => CharClass.of d = .letter ∨ CharClass.of d = .digit) cs
    inferInstanceAs (Decidable (_ ∧ _))

instance : DecidablePred IsNumeral := fun cs =>
  have := List.decidableBAll (fun c => CharClass.of c = .digit) cs
  inferInstanceAs (Decidable (_ ∧ _))

instance : DecidablePred IsSymbols := fun cs =>
  have := List.decidableBAll (fun c => CharClass.of c = .symbol) cs
  inferInstanceAs (Decidable (_ ∧ _))

end Text

namespace Token

instance : DecidablePred WellFormed
  | ⟨.newLine, value⟩ => inferInstanceAs (Decidable (value = "\n"))
  | ⟨.number, value⟩ => inferInstanceAs (Decidable (Text.IsNumeral value.toList))
  | ⟨.keyword, value⟩ => inferInstanceAs (Decidable (value ∈ keywords))
  | ⟨.identifier, value⟩ =>
    inferInstanceAs (Decidable (Text.IsWord value.toList ∧ value ∉ keywords))
  | ⟨.operator, value⟩ => inferInstanceAs (Decidable (Text.IsSymbols value.toList))
  | ⟨.comment, _⟩ => .isFalse id

/-- Every token is spelled as its kind asks for, and the last one is a newline. -/
structure Complete (ts : List Token) : Prop where
  spelled : ∀ t ∈ ts, t.Spelled
  ends : ∃ t, ts.getLast? = some t ∧ t.kind = .newLine

/-- The tokens on one line but for the last character, which is the newline that lexing adds. -/
def source (ts : List Token) : String := String.ofList (lineText ts).toList.dropLast

variable {ts : List Token}

theorem complete_iff : Complete ts ↔ ts.getLast? = some newline ∧ ∀ t ∈ ts, t.WellFormed := by
  simp only [← spelled_iff]
  constructor
  · rintro ⟨hs, t, ht, hk⟩
    have hw : t.WellFormed := spelled_iff.mp (hs t (List.mem_of_getLast? ht))
    obtain rfl : t = newline := hw.eq_newline hk
    exact ⟨ht, hs⟩
  · rintro ⟨ht, hs⟩
    exact ⟨hs, newline, ht, rfl⟩

instance : Decidable (Complete ts) := decidable_of_iff _ complete_iff.symm

theorem Complete.exists_concat (h : Complete ts) :
    ∃ us, ts = us ++ [newline] ∧ ∀ t ∈ us, t.WellFormed := by
  obtain ⟨hl, hw⟩ := complete_iff.mp h
  obtain ⟨us, rfl⟩ := List.getLast?_eq_some_iff.mp hl
  exact ⟨us, rfl, fun t ht => hw t (List.mem_append_left _ ht)⟩

theorem lineText_concat {us : List Token} (h : us ≠ []) (t : Token) :
    lineText (us ++ [t]) = lineText us ++ " " ++ t.value := by
  induction us with
  | nil => exact absurd rfl h
  | cons u us ih =>
    cases us with
    | nil => simp [lineText, String.intercalate_cons_cons]
    | cons v us =>
      have hl := ih (List.cons_ne_nil v us)
      simp only [List.cons_append, lineText_cons_cons] at hl ⊢
      rw [hl]
      simp only [String.append_assoc]

theorem source_concat {us : List Token} (h : us ≠ []) :
    source (us ++ [newline]) = lineText us ++ " " := by
  rw [← String.toList_inj, source, lineText_concat h, String.toList_ofList]
  simp

theorem lex_source_concat {us : List Token} (hw : ∀ t ∈ us, t.WellFormed) :
    lex (source (us ++ [newline])) = us ++ [newline] := by
  by_cases h : us = []
  · rw [h]
    decide
  · have hb := lex_append_blank (c := ' ') (by decide) (lineText us) ""
    rw [String.append_empty, lex_lineText hw, List.dropLast_concat] at hb
    rw [source_concat h]
    exact hb.trans (by simp [separator, show lex "" = [newline] by decide])

end Token

theorem complete_lex (script : String) : Complete (lex script) := by
  obtain ⟨us, he⟩ := exists_lex_eq script
  exact complete_iff.mpr ⟨by rw [he, List.getLast?_concat], lex_wellFormed script⟩

/-- Tokens are lexed from their own text, and a script has the tokens of the text of its tokens. The
tokens of a script are well formed with a newline at the end, and every such list is that of a
script. -/
theorem lex_source :
    (∀ ts, Complete ts → lex (source ts) = ts ∧ lex (lineText ts.dropLast) = ts) ∧
    (∀ script, lex (source (lex script)) = lex script) ∧
    ∀ ts, (∃ script, lex script = ts) ↔ Complete ts := by
  have hr : ∀ ts, Complete ts → lex (source ts) = ts := by
    intro ts h
    obtain ⟨us, rfl, hw⟩ := h.exists_concat
    exact lex_source_concat hw
  refine ⟨fun ts h => ⟨hr ts h, ?_⟩, fun script => hr _ (complete_lex script), fun ts => ⟨?_, ?_⟩⟩
  · obtain ⟨us, rfl, hw⟩ := h.exists_concat
    rw [List.dropLast_concat, lex_lineText hw]
  · rintro ⟨script, rfl⟩
    exact complete_lex script
  · intro h
    exact ⟨source ts, hr ts h⟩

/-- Two operators that would run together without a blank, and an empty line. -/
theorem lex_source_operators :
    Complete [symbol "-", symbol "(-", newline, newline, word "Endif", newline] ∧
    lex "- (- \n \n Endif " =
      [symbol "-", symbol "(-", newline, newline, word "Endif", newline] := by
  have hc : Complete [symbol "-", symbol "(-", newline, newline, word "Endif", newline] := by
    decide
  exact ⟨hc, (lex_source.1 _ hc).1⟩

end CommandScript
