import CommandScript.Diagnostic
import CommandScript.Proofs.Editor.DocumentLines
import CommandScript.Proofs.Parsing.ScriptEnd

/-! # Where a diagnostic lies

The parser counts newlines, and the lines of a document end at nine more characters. A diagnostic
spans the offending line as long as no other line break stands before the end of that line. With
one there it spans some other line of the document, never a place outside.
-/

namespace CommandScript

open Token

/-! ## Diagnostics over whole lines -/

namespace Diagnostic

variable {text reason : String} {line : Int} {i : Nat} {cs : List Char}

/-- The diagnostic over the whole of a line. -/
def whole (i : Nat) (cs : List Char) (reason : String) : Diagnostic :=
  ⟨⟨⟨i, 0⟩, ⟨i, cs.length⟩⟩, reason⟩

theorem atLine_of_getElem? (h : (Text.lines text)[i]? = some cs)
    (hi : min (line - 1).toNat ((Text.lines text).length - 1) = i) :
    atLine text reason line = whole i cs reason := by
  unfold atLine
  split
  · next hn => rw [hn] at h; cases h
  · dsimp only
    rw [hi, List.getD_eq_getElem?_getD, h]
    rfl

/-- A diagnostic never lies outside the document. -/
theorem exists_atLine (ht : text ≠ "") (reason : String) (line : Int) :
    ∃ i cs, (Text.lines text)[i]? = some cs ∧ atLine text reason line = whole i cs reason := by
  have hp := Nat.lt_of_lt_of_le (Text.newlineLines_pos ht) (Text.length_newlineLines_le text)
  have hi : min (line - 1).toNat ((Text.lines text).length - 1) < (Text.lines text).length := by
    omega
  exact ⟨_, _, List.getElem?_eq_getElem hi, atLine_of_getElem? (List.getElem?_eq_getElem hi) rfl⟩

theorem collect_of_malformed {file : Option String} {incomplete : Bool}
    (h : parse file text = .error (.fault ⟨.malformed reason incomplete, some line, file⟩)) :
    collect text = .ok [atLine text reason line] := by
  unfold parse parseWithin at h
  unfold collect check
  cases hp : parseTokens stackLimit (lex text) with
  | ok p =>
    rw [hp] at h
    cases h
  | error e =>
    rw [hp] at h
    cases e with
    | malformed =>
      cases h
      rfl
    | tooDeep => cases h

theorem atLine_of_lt {l : Nat} (h : (Text.lines text)[l]? = some cs) :
    atLine text reason (1 + l) = whole l cs reason := by
  have hi := (List.getElem?_eq_some_iff.mp h).1
  exact atLine_of_getElem? h (by omega)

theorem atLine_of_take {l : Nat} (hl : (Text.newlineLines text.toList)[l]? = some cs)
    (hc : ∀ line ∈ (Text.newlineLines text.toList).take (l + 1), Text.IsLine line) :
    atLine text reason (1 + l) = whole l cs reason := by
  apply atLine_of_lt
  rw [← List.getElem?_take_of_lt (Nat.lt_succ_self l), Text.take_lines text (l + 1) hc,
    List.getElem?_take_of_lt (Nat.lt_succ_self l), hl]

theorem atLine_of_last {l : Nat} (hl : (Text.newlineLines text.toList)[l]? = some cs)
    (hn : l + 1 = (Text.newlineLines text.toList).length) (hk : 1 + l ≤ line)
    (hc : ∀ line ∈ (Text.newlineLines text.toList).take (l + 1), Text.IsLine line) :
    atLine text reason line = whole l cs reason := by
  rw [hn, List.take_length] at hc
  have he := Text.lines_eq_newlineLines hc
  exact atLine_of_getElem? (he ▸ hl) (by rw [he]; omega)

end Diagnostic

open CommandScript.Parser

variable {text reason : String} {l : Nat}

/-- The parser refuses the text for good at a token that has `l` newlines before it. -/
def RefusedAt (text reason : String) (l : Nat) : Prop :=
  ∃ gap pieces c, Munch (text ++ "\n").toList gap pieces ∧
    program (stackLimit / callsPerStatement) (.start text) =
      .error (.malformed reason false c.line) c ∧
    c.position < pieces.length ∧
    l = (text.toList.take (placeOf gap pieces c.position)).count '\n'

/-- The fault of such a text names the line below those newlines. -/
theorem refusedAt_iff (file : Option String) : RefusedAt text reason l ↔
    parse file text = .error (.fault ⟨.malformed reason false, some (1 + l), file⟩) := by
  have blames := script_blames (stackLimit / callsPerStatement) text
  constructor
  · rintro ⟨gap, pieces, c, hm, hc, hk, rfl⟩
    obtain ⟨⟨ts, hts⟩, -, -⟩ := blames.refused hc
    obtain ⟨-, ⟨-, -, hl⟩ | ⟨-, hn, -⟩⟩ := hm.line_of_passes hts
    · rw [lineAt] at hl
      exact parseWithin_of_error (hl ▸ hc)
    · rw [hn, lex_eq_of_munch hm, List.length_map] at hk
      exact absurd hk (Nat.lt_irrefl _)
  · intro h
    obtain ⟨e, c, hc, he⟩ := parseWithin_eq_error.mp h
    cases e with
    | tooDeep => cases he
    | malformed =>
      cases he
      obtain ⟨⟨ts, hts⟩, hl, hi⟩ := blames.refused hc
      obtain ⟨gap, pieces, hm⟩ := exists_munch (text ++ "\n").toList
      obtain ⟨-, ⟨-, hp, ha⟩ | ⟨hn, -⟩⟩ := hm.line_of_passes hts
      · rw [lex_eq_of_munch hm, List.length_map] at hp
        rw [lineAt, ← hl] at ha
        exact ⟨gap, pieces, c, hm, hl ▸ hc, hp, by omega⟩
      · cases hi hn

theorem line_le_of_refused {d : Nat} {line : Int} {c : Cursor}
    (h : program d (.start text) = .error (.malformed reason false line) c) :
    line ≤ (Text.newlineLines text.toList).length := by
  obtain ⟨⟨ts, hts⟩, rfl, hi⟩ := (script_blames d text).refused h
  have hn := newlines_lex text
  have hl : c.line = 1 + newlines ts := hts.line
  rw [show lex text = ts ++ c.rest from hts.rest, newlines_append] at hn
  rw [Text.length_newlineLines]
  split
  · next ha =>
    have h2 : 2 ≤ newlines c.rest := by
      cases hg : text.toList.getLast? with
      | none =>
        obtain rfl := String.toList_eq_nil_iff.mp (List.getLast?_eq_none_iff.mp hg)
        cases h
      | some ch =>
        obtain rfl : ch = '\n' := by simpa [hg] using ha
        obtain ⟨cs, hs⟩ := List.getLast?_eq_some_iff.mp hg
        obtain rfl : text = String.ofList cs ++ "\n" := String.toList_injective (by simp [hs])
        exact newlines_rest_of_refused h
    omega
  · have h1 : 0 < newlines c.rest := by
      rcases c.exists_passes with hr | ⟨t, c₁, hc⟩
      · cases hi hr
      · exact newlines_pos_of_ended ((Cursor.start_ended text).of_passes hts) hc
    omega

theorem le_line_of_incomplete {d : Nat} {line : Int} {c : Cursor}
    (h : program d (.start text) = .error (.malformed reason true line) c) :
    (Text.newlineLines text.toList).length ≤ line := by
  obtain ⟨⟨ts, hts⟩, rfl, -⟩ := (script_blames d text).refused h
  have hn := newlines_lex text
  have hl : c.line = 1 + newlines ts := hts.line
  have hr := length_rest_of_incomplete h
  have hz : newlines c.rest ≤ c.rest.length := List.countP_le_length
  rw [show lex text = ts ++ c.rest from hts.rest, newlines_append] at hn
  rw [Text.length_newlineLines]
  split <;> omega

/-- A text that does not parse has one diagnostic. The offending line is the one with the offending
token, or the last if the text is incomplete. The diagnostic spans just that line as long as no line
break other than a newline stands before its end. In any case it spans a whole line of the document,
one with the right number unless the text is incomplete. -/
theorem diagnostic_spans_line {file : Option String} {text : String} {f : Fault}
    (h : parse file text = .error (.fault f)) :
    ∃ l line, (Text.newlineLines text.toList)[l]? = some line ∧
      (if f.incomplete then l + 1 = (Text.newlineLines text.toList).length
        else RefusedAt text f.cause.reason l) ∧
      ((∀ other ∈ (Text.newlineLines text.toList).take (l + 1), Text.IsLine other) →
        Diagnostic.collect text = .ok [.whole l line f.cause.reason]) ∧
      ∃ i other, (Text.lines text)[i]? = some other ∧ (f.incomplete = false → i = l) ∧
        Diagnostic.collect text = .ok [.whole i other f.cause.reason] := by
  have ht : text ≠ "" := by
    rintro rfl
    cases h
  obtain ⟨e, c, hc, he⟩ := parseWithin_eq_error.mp h
  cases e with
  | tooDeep => cases he
  | malformed reason incomplete line =>
    cases he
    obtain ⟨⟨ts, hts⟩, rfl, -⟩ := (script_blames _ text).refused hc
    rw [Diagnostic.collect_of_malformed h]
    cases incomplete with
    | true =>
      have hk := le_line_of_incomplete hc
      have hp := Text.newlineLines_pos ht
      have hl := List.getElem?_eq_getElem (Nat.sub_lt hp Nat.one_pos)
      have hn := Nat.sub_add_cancel hp
      obtain ⟨i, other, hi, ha⟩ := Diagnostic.exists_atLine ht reason c.line
      refine ⟨_, _, hl, hn, fun hc => ?_, i, other, hi, nofun, by rw [ha]; rfl⟩
      rw [Diagnostic.atLine_of_last hl hn (by omega) hc]
      rfl
    | false =>
      have hk := line_le_of_refused hc
      obtain ⟨l, hl⟩ : ∃ l : Nat, c.line = 1 + l := ⟨newlines ts, hts.line⟩
      have hr := List.getElem?_eq_getElem
        (show l < (Text.newlineLines text.toList).length by omega)
      have hn := Text.length_newlineLines_le text
      have hi := List.getElem?_eq_getElem (show l < (Text.lines text).length by omega)
      refine ⟨l, _, hr, (refusedAt_iff file).mpr (by rw [h, hl]; rfl), fun hc => ?_,
        l, _, hi, fun _ => rfl, ?_⟩
      · rw [hl, Diagnostic.atLine_of_take hr hc]
        rfl
      · rw [hl, Diagnostic.atLine_of_lt hi]
        rfl

theorem parse_eq_error {halt : Halt} (h : (parse none text).map (fun _ => ()) = .error halt) :
    parse none text = .error halt := by
  cases hp : parse none text with
  | ok p =>
    rw [hp] at h
    cases h
  | error halt =>
    rw [hp] at h
    cases h
    rfl

theorem diagnostic_spans_line_broken :
    RefusedAt "x = 1\r\nEndif\r\ny =\u2028 2" "Unexpected Endif" 1 ∧
    Diagnostic.collect "x = 1\r\nEndif\r\ny =\u2028 2" =
      .ok [.whole 1 "Endif".toList "Unexpected Endif"] := by
  -- programs are not compared by evaluation, so the result is looked at without one
  have h : parse none "x = 1\r\nEndif\r\ny =\u2028 2" =
      .error (.fault ⟨.malformed "Unexpected Endif" false, some 2, none⟩) :=
    parse_eq_error (by decide +kernel)
  obtain ⟨l, line, hl, hr, hc, -⟩ := diagnostic_spans_line h
  rw [if_neg (by decide)] at hr
  -- the fault names the second line
  have hk := (refusedAt_iff none).mp hr
  rw [h] at hk
  obtain rfl : l = 1 := by
    simp only [Except.error.injEq, Halt.fault.injEq, Fault.mk.injEq, Option.some.injEq] at hk
    omega
  have he : some "Endif".toList = some line := Eq.trans (by decide) hl
  cases he
  exact ⟨hr, hc (by decide)⟩

/-- A form feed ends a line of the document but not for the parser, so the wrong line is marked. -/
theorem broken_line_not_spanned :
    ¬ ∀ (text reason : String) (l : Nat) (line : List Char), RefusedAt text reason l →
      (Text.newlineLines text.toList)[l]? = some line →
      Diagnostic.collect text = .ok [.whole l line reason] := by
  intro h
  have hp : parse none "\x0c\nEndif" =
      .error (.fault ⟨.malformed "Unexpected Endif" false, some 2, none⟩) :=
    parse_eq_error (by decide +kernel)
  have hc := h "\x0c\nEndif" "Unexpected Endif" 1 "Endif".toList ((refusedAt_iff none).mpr hp)
    (by decide)
  exact absurd hc (by decide +kernel)

end CommandScript
