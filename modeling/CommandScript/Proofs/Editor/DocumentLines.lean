import CommandScript.Text.Line
import Mathlib.Data.List.Basic

/-! # Lines between newlines

The lines of a document end at ten characters. Cut only at line feeds, a text has fewer lines, and
the same ones until a line break of another kind.
-/

namespace CommandScript.Text

/-- Puts the beginning of a line in front of the lines that go on from it. -/
def openedBy : List Char → List (List Char) → List (List Char)
  | [], [] => []
  | start, [] => [start]
  | start, line :: lines => (start ++ line) :: lines

/-- The lines of a text, without line ends, if only a line feed ends a line, alone or with a
carriage return in front of it. -/
def newlineLines : List Char → List (List Char)
  | [] => []
  | '\n' :: rest => [] :: newlineLines rest
  | '\r' :: '\n' :: rest => [] :: newlineLines rest
  | c :: rest => openedBy [c] (newlineLines rest)

variable {c : Char} {cs start : List Char} {ls : List (List Char)}

@[simp] theorem openedBy_nil (ls : List (List Char)) : openedBy [] ls = ls := by
  cases ls <;> rfl

@[simp] theorem openedBy_lines (start line : List Char) (ls : List (List Char)) :
    openedBy start (line :: ls) = (start ++ line) :: ls := by
  cases start <;> rfl

theorem openedBy_openedBy (start cs : List Char) (ls : List (List Char)) :
    openedBy start (openedBy cs ls) = openedBy (start ++ cs) ls := by
  cases start <;> cases cs <;> cases ls <;> simp [openedBy]

theorem openedBy_of_ne_nil (hs : start ≠ []) (ls : List (List Char)) :
    openedBy start ls = (start ++ ls.headD []) :: ls.tail := by
  cases start with
  | nil => contradiction
  | cons c cs => cases ls <;> simp [openedBy]

@[simp] theorem newlineLines_newline (cs : List Char) :
    newlineLines ('\n' :: cs) = [] :: newlineLines cs := rfl

@[simp] theorem newlineLines_pair (cs : List Char) :
    newlineLines ('\r' :: '\n' :: cs) = [] :: newlineLines cs := rfl

theorem newlineLines_ne_nil (h : cs ≠ []) : newlineLines cs ≠ [] := by
  rw [newlineLines.eq_def]
  split
  · contradiction
  · exact List.cons_ne_nil _ _
  · exact List.cons_ne_nil _ _
  · rw [openedBy_of_ne_nil (List.cons_ne_nil _ _)]
    exact List.cons_ne_nil _ _

theorem length_newlineLines (cs : List Char) :
    (newlineLines cs).length =
      cs.count '\n' + if cs.getLast?.all (· = '\n') then 0 else 1 := by
  fun_induction newlineLines cs with
  | case1 => rfl
  | case2 rest ih =>
    cases rest with
    | nil => rfl
    | cons c cs =>
      rw [List.length_cons, ih, List.count_cons_self, List.getLast?_cons_cons]
      omega
  | case3 rest ih =>
    have hr : '\n' ≠ '\r' := by decide
    cases rest with
    | nil => rfl
    | cons c cs =>
      rw [List.length_cons, ih, List.count_cons_of_ne hr.symm, List.count_cons_self,
        List.getLast?_cons_cons, List.getLast?_cons_cons]
      omega
  | case4 c rest hn hr ih =>
    have hc : c ≠ '\n' := hn
    rw [openedBy_of_ne_nil (List.cons_ne_nil _ _), List.length_cons, List.length_tail,
      List.count_cons_of_ne hc]
    cases rest with
    | nil => simp [newlineLines, hc]
    | cons d cs =>
      have hp := List.length_pos_of_ne_nil (newlineLines_ne_nil (List.cons_ne_nil d cs))
      rw [List.getLast?_cons_cons, ← ih]
      omega

/-- The line holds no line break. -/
def IsLine (cs : List Char) : Prop := ∀ c ∈ cs, isLineBreak c = false

instance (cs : List Char) : Decidable (IsLine cs) :=
  List.decidableBAll (fun c => isLineBreak c = false) cs

theorem dropBreak_eq_self (h : IsLine cs) : dropBreak cs = cs := by
  unfold dropBreak
  split
  · next rest hr => exact absurd (h '\n' (by rw [← List.mem_reverse, hr]; simp)) (by decide)
  · next c rest _ hr => rw [if_neg (by rw [h c (by rw [← List.mem_reverse, hr]; simp)]; simp)]
  · next hr => exact (List.reverse_eq_nil_iff.mp hr).symm

theorem dropBreak_newline (h : IsLine start.reverse) :
    dropBreak ('\n' :: start).reverse = start.reverse := by
  unfold dropBreak
  rw [List.reverse_reverse]
  split
  · next rest hr =>
    obtain rfl := (List.cons.inj hr).2
    exact absurd (h '\r' (by simp)) (by decide)
  · next c rest _ hr =>
    obtain ⟨rfl, rfl⟩ := List.cons.inj hr
    rfl
  · contradiction

theorem dropBreak_pair (start : List Char) :
    dropBreak ('\n' :: '\r' :: start).reverse = start.reverse := by
  simp [dropBreak]

theorem newlineLines_cons (hn : c ≠ '\n') (hr : ∀ rest, c = '\r' → cs = '\n' :: rest → False) :
    newlineLines (c :: cs) = openedBy [c] (newlineLines cs) := by
  rw [newlineLines.eq_def]
  split
  · contradiction
  · next h => exact absurd (List.cons.inj h).1 hn
  · next h => exact (hr _ (List.cons.inj h).1 (List.cons.inj h).2).elim
  · next h =>
    obtain ⟨rfl, rfl⟩ := List.cons.inj h
    rfl

/-- Up to a line break of another kind, both ways to cut a text into lines agree. -/
theorem take_splitLines (start cs : List Char) (n : Nat)
    (h : ∀ line ∈ (openedBy start.reverse (newlineLines cs)).take n, IsLine line) :
    ((splitLines start cs).map dropBreak).take n =
      (openedBy start.reverse (newlineLines cs)).take n := by
  fun_induction splitLines start cs generalizing n with
  | case1 => rfl
  | case2 start hs =>
    cases n with
    | zero => rfl
    | succ n =>
      have hl : openedBy start.reverse (newlineLines []) = [start.reverse] := by
        rw [openedBy_of_ne_nil fun hr => hs (List.reverse_eq_nil_iff.mp hr)]
        simp [newlineLines]
      rw [hl] at h ⊢
      rw [List.map_singleton, dropBreak_eq_self (h _ (by simp))]
  | case3 start rest ih =>
    cases n with
    | zero => rfl
    | succ n =>
      rw [newlineLines_pair, openedBy_lines, List.append_nil, List.take_succ_cons,
        List.forall_mem_cons] at h
      have hi := ih n (by simpa using h.2)
      simp only [List.reverse_nil, openedBy_nil] at hi
      rw [newlineLines_pair, openedBy_lines, List.append_nil, List.map_cons, List.take_succ_cons,
        List.take_succ_cons, hi, dropBreak_pair]
  | case4 start c rest hr hb ih =>
    cases n with
    | zero => rfl
    | succ n =>
      have hn : c = '\n' := by
        -- any other break would stand in the first line
        by_contra hn
        rw [newlineLines_cons hn hr, openedBy_openedBy, ← List.reverse_cons,
          openedBy_of_ne_nil (by simp), List.take_succ_cons, List.forall_mem_cons] at h
        rw [h.1 c (by simp)] at hb
        contradiction
      subst hn
      rw [newlineLines_newline, openedBy_lines, List.append_nil, List.take_succ_cons,
        List.forall_mem_cons] at h
      have hi := ih n (by simpa using h.2)
      simp only [List.reverse_nil, openedBy_nil] at hi
      rw [newlineLines_newline, openedBy_lines, List.append_nil, List.map_cons,
        List.take_succ_cons, List.take_succ_cons, hi, dropBreak_newline h.1]
  | case5 start c rest hr hb ih =>
    have hn : c ≠ '\n' := by
      rintro rfl
      exact hb (by decide)
    rw [newlineLines_cons hn hr, openedBy_openedBy, ← List.reverse_cons] at h ⊢
    exact ih n h

theorem take_lines (text : String) (n : Nat)
    (h : ∀ line ∈ (newlineLines text.toList).take n, IsLine line) :
    (lines text).take n = (newlineLines text.toList).take n := by
  have ht := take_splitLines [] text.toList n (by simpa using h)
  rwa [List.reverse_nil, openedBy_nil] at ht

theorem lines_eq_newlineLines {text : String} (h : ∀ line ∈ newlineLines text.toList, IsLine line) :
    lines text = newlineLines text.toList := by
  have ht := take_lines text (max (lines text).length (newlineLines text.toList).length)
    fun line hl => h line (List.mem_of_mem_take hl)
  rwa [List.take_of_length_le (Nat.le_max_left _ _),
    List.take_of_length_le (Nat.le_max_right _ _)] at ht

theorem length_openedBy_le (start : List Char) (ls : List (List Char)) :
    (openedBy start ls).length ≤ max 1 ls.length := by
  cases start with
  | nil =>
    rw [openedBy_nil]
    exact Nat.le_max_right _ _
  | cons c cs =>
    rw [openedBy_of_ne_nil (List.cons_ne_nil c cs), List.length_cons, List.length_tail]
    omega

theorem length_openedBy_le_splitLines (start cs : List Char) :
    (openedBy start.reverse (newlineLines cs)).length ≤ (splitLines start cs).length := by
  fun_induction splitLines start cs with
  | case1 => exact Nat.le_refl 0
  | case2 start hs => exact length_openedBy_le _ _
  | case3 start rest ih =>
    rw [List.reverse_nil, openedBy_nil] at ih
    rw [newlineLines_pair, openedBy_lines]
    exact Nat.succ_le_succ ih
  | case4 start c rest hr hb ih =>
    rw [List.reverse_nil, openedBy_nil] at ih
    by_cases hn : c = '\n'
    · rw [hn, newlineLines_newline, openedBy_lines]
      exact Nat.succ_le_succ ih
    · rw [newlineLines_cons hn hr, openedBy_openedBy, List.length_cons]
      have hl := length_openedBy_le (start.reverse ++ [c]) (newlineLines rest)
      omega
  | case5 start c rest hr hb ih =>
    have hn : c ≠ '\n' := by
      rintro rfl
      exact hb (by decide)
    rwa [newlineLines_cons hn hr, openedBy_openedBy, ← List.reverse_cons]

theorem length_newlineLines_le (text : String) :
    (newlineLines text.toList).length ≤ (lines text).length := by
  have h := length_openedBy_le_splitLines [] text.toList
  rw [List.reverse_nil, openedBy_nil] at h
  rwa [lines, List.length_map]

theorem newlineLines_pos {text : String} (h : text ≠ "") :
    0 < (newlineLines text.toList).length :=
  List.length_pos_of_ne_nil (newlineLines_ne_nil fun hn => h (String.toList_eq_nil_iff.mp hn))

end CommandScript.Text
