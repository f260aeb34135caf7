import Mathlib.Data.List.Basic
import CommandScript.Text.CharClass

/-! # Disjoint classes

No character is at once letter and digit, letter and blank, or digit and blank. So it does not matter
in which order the classes are tried, and each class is what its own test says.
-/

namespace CommandScript.Text

/-! ## Ranges -/

/-- No range of the one list meets a range of the other, both in increasing order. -/
def apart : List (Nat × Nat) → List (Nat × Nat) → Bool
  | [], _ => true
  | (lo, hi) :: rs, ss =>
    match ss.dropWhile fun s => s.2 < lo with
    | [] => true
    | s :: ss => hi < s.1 && apart rs (s :: ss)

theorem inRanges_dropWhile {ss : List (Nat × Nat)} {lo n : Nat} (h : inRanges ss n = true)
    (hn : lo ≤ n) : inRanges (ss.dropWhile fun s => s.2 < lo) n = true := by
  induction ss with
  | nil => cases h
  | cons s ss ih =>
    rw [List.dropWhile_cons]
    split
    · next hs =>
      simp only [inRanges, Bool.and_eq_true, Bool.or_eq_true, decide_eq_true_eq] at h hs
      exact ih (h.2.resolve_left (by omega))
    · exact h

theorem not_inRanges_of_apart {rs ss : List (Nat × Nat)} (h : apart rs ss = true) {n : Nat}
    (hr : inRanges rs n = true) : inRanges ss n = false := by
  induction rs generalizing ss with
  | nil => cases hr
  | cons r rs ih =>
    obtain ⟨lo, hi⟩ := r
    simp only [inRanges, Bool.and_eq_true, Bool.or_eq_true, decide_eq_true_eq] at hr
    rw [← Bool.not_eq_true]
    intro hs
    have hd := inRanges_dropWhile hs hr.1
    unfold apart at h
    split at h
    · next he =>
      rw [he] at hd
      cases hd
    · next s ss' he =>
      rw [he] at hd
      simp only [Bool.and_eq_true, decide_eq_true_eq] at h
      rcases hr.2 with hu | hr
      · simp only [inRanges, Bool.and_eq_true, decide_eq_true_eq] at hd
        omega
      · rw [ih h.2 hr] at hd
        cases hd

/-- The ranges of the digits. -/
def digitRanges : List (Nat × Nat) := zeros.map fun z => (z, z + 9)

theorem isSome_digitAt (zs : List Nat) (n : Nat) :
    (digitAt zs n).isSome = inRanges (zs.map fun z => (z, z + 9)) n := by
  induction zs with
  | nil => rfl
  | cons z zs ih =>
    rw [digitAt, List.map_cons, inRanges, ← ih]
    by_cases hz : n < z
    · rw [if_pos hz, decide_eq_false (Nat.not_le.mpr hz)]
      rfl
    · rw [if_neg hz, decide_eq_true (Nat.not_lt.mp hz)]
      by_cases hd : n < z + 10
      · rw [if_pos hd, decide_eq_true (Nat.le_of_lt_succ hd)]
        rfl
      · rw [if_neg hd, decide_eq_false fun h => hd (Nat.lt_succ_of_le h)]
        rfl

/-! ## Characters -/

variable {c : Char}

theorem isLetter_disjoint (h : isLetter c = true) : isBlank c = false ∧ isDigit c = false := by
  have hb : apart letterRanges blankRanges = true := by decide +kernel
  have hd : apart letterRanges digitRanges = true := by decide +kernel
  exact ⟨not_inRanges_of_apart hb h, (isSome_digitAt zeros _).trans (not_inRanges_of_apart hd h)⟩

theorem isDigit_disjoint (h : isDigit c = true) : isBlank c = false := by
  have hb : apart digitRanges blankRanges = true := by decide +kernel
  exact not_inRanges_of_apart hb ((isSome_digitAt zeros _).symm.trans h)

namespace CharClass

theorem of_eq_newline : of c = .newline ↔ c = '\n' := by
  unfold of
  split_ifs <;> simp_all

theorem of_eq_blank : of c = .blank ↔ isBlank c = true ∧ c ≠ '\n' := by
  unfold of
  split_ifs <;> simp_all

theorem ne_newline_of_isBlank (h : isBlank c = false) : c ≠ '\n' := by
  rintro rfl
  revert h
  decide

theorem of_eq_letter : of c = .letter ↔ isLetter c = true := by
  constructor
  · unfold of
    split_ifs <;> simp_all
  · intro h
    have hb := (isLetter_disjoint h).1
    simp [of, ne_newline_of_isBlank hb, hb, h]

theorem of_eq_digit : of c = .digit ↔ isDigit c = true := by
  constructor
  · unfold of
    split_ifs <;> simp_all
  · intro h
    have hb := isDigit_disjoint h
    have hl : isLetter c = false := by
      rw [← Bool.not_eq_true]
      intro hl
      rw [(isLetter_disjoint hl).2] at h
      cases h
    simp [of, ne_newline_of_isBlank hb, hb, hl, h]

theorem of_eq_symbol :
    of c = .symbol ↔ isBlank c = false ∧ isLetter c = false ∧ isDigit c = false := by
  constructor
  · unfold of
    split_ifs <;> simp_all
  · rintro ⟨hb, hl, hd⟩
    simp [of, ne_newline_of_isBlank hb, hb, hl, hd]

end CharClass

end CommandScript.Text
