import CommandScript.Proofs.Grammar
import CommandScript.Proofs.MaximalMunch
import CommandScript.Stmt.Parser

/-! # Blanks between tokens

A blank delivers whatever is pending and leaves nothing behind, so the texts before and after it are
lexed on their own. Which blanks stand between two tokens then makes no difference, nor how many.
-/

namespace CommandScript

open Text Token

instance (cs : List Char) : Decidable (IsGap cs) :=
  List.decidableBAll (fun c => isBlank c = true ∧ c ≠ '\n') cs

namespace Machine

variable {c : Char}

theorem read_separator (hc : isBlank c = true) (m : Machine) : m.read c = m.flush.start c := by
  have ha : m.mode.absorbs (CharClass.of c) = false := by
    by_cases hn : c = '\n'
    · rw [CharClass.of_eq_newline.mpr hn]
      cases m.mode <;> rfl
    · rw [CharClass.of_eq_blank.mpr ⟨hc, hn⟩]
      cases m.mode <;> rfl
  rw [read, ha]
  rfl

theorem flush_eq_after (m : Machine) : m.flush = after m.flush.tokens {} := by
  obtain ⟨mode, lexeme, tokens⟩ := m
  cases mode <;> simp [flush, emit, after]

theorem read_return_newline (m : Machine) : (m.read '\r').read '\n' = m.read '\n' := by
  have hr : m.read '\r' = m.flush := by
    rw [read_separator (by decide), start, show CharClass.of '\r' = .blank by decide]
  rw [hr, read_separator (by decide), read_separator (by decide), flush_flush]

end Machine

/-- The tokens of a blank: only the newline has one. -/
def separator (c : Char) : List Token := if c = '\n' then [newline] else []

theorem Machine.read_blank {c : Char} (hc : isBlank c = true) (m : Machine) :
    m.read c = after (m.flush.tokens ++ (separator c).toArray) {} := by
  rw [read_separator hc, flush_eq_after, start_after, start, separator]
  by_cases hn : c = '\n'
  · rw [CharClass.of_eq_newline.mpr hn, if_pos hn]
    simp [after, emit]
  · rw [CharClass.of_eq_blank.mpr ⟨hc, hn⟩, if_neg hn]
    simp [after]

/-! ## Texts with a blank in them -/

variable {a b u v : String}

theorem lex_eq_flush (script : String) :
    lex script = (Machine.readAll {} script.toList).flush.tokens.toList ++ [newline] := by
  rw [lex, Machine.read_blank (by decide)]
  simp [Machine.after, separator]

theorem lex_append_blank {c : Char} (hc : isBlank c = true) (a b : String) :
    lex (a ++ c.toString ++ b) = (lex a).dropLast ++ separator c ++ lex b := by
  have hs : (a ++ c.toString ++ b).toList = a.toList ++ c :: b.toList := by
    simp [Char.toString_eq_singleton]
  rw [lex, hs, Machine.readAll_append, lex_eq_flush a]
  change (((Machine.readAll {} a.toList).read c).readAll b.toList |>.read '\n').tokens.toList = _
  rw [Machine.read_blank hc, Machine.readAll_after, Machine.read_after, lex]
  simp [Machine.after]

theorem lex_gap_append (hu : IsGap u.toList) (b : String) : lex (u ++ b) = lex b := by
  induction hcs : u.toList generalizing u with
  | nil =>
    obtain rfl : u = "" := String.toList_eq_nil_iff.mp hcs
    rw [String.empty_append]
  | cons c cs ih =>
    rw [hcs] at hu
    obtain ⟨⟨hc, hn⟩, hg⟩ := List.forall_mem_cons.mp hu
    obtain rfl : u = "" ++ c.toString ++ String.ofList cs := by
      rw [← String.toList_inj, hcs]
      simp [Char.toString_eq_singleton]
    rw [String.append_assoc, lex_append_blank hc, separator, if_neg hn,
      ih (u := String.ofList cs) (by rwa [String.toList_ofList]) String.toList_ofList]
    rfl

theorem lex_append_gap (hu : IsGap u.toList) (hn : u ≠ "") (a b : String) :
    lex (a ++ u ++ b) = (lex a).dropLast ++ lex b := by
  obtain ⟨c, cs, hcs⟩ := List.exists_cons_of_ne_nil (mt String.toList_eq_nil_iff.mp hn)
  rw [hcs] at hu
  obtain ⟨⟨hc, hcn⟩, hg⟩ := List.forall_mem_cons.mp hu
  have he : a ++ u ++ b = a ++ c.toString ++ (String.ofList cs ++ b) := by
    rw [← String.toList_inj]
    simp [hcs, Char.toString_eq_singleton]
  rw [he, lex_append_blank hc, separator, if_neg hcn,
    lex_gap_append (by rwa [String.toList_ofList]), List.append_nil]

/-! ## Texts that differ in blanks -/

/-- The lines of a text, each with what stands before it. -/
def indented (rows : List (String × String)) : String :=
  "\n".intercalate (rows.map fun (indent, line) => indent ++ line)

/-- The text with a carriage return before every line feed. -/
def withReturns (script : String) : String :=
  String.ofList (script.toList.flatMap fun c => if c = '\n' then ['\r', '\n'] else [c])

theorem lex_indented {rows : List (String × String)} (h : ∀ r ∈ rows, IsGap r.1.toList) :
    lex (indented rows) = lex ("\n".intercalate (rows.map Prod.snd)) := by
  induction rows with
  | nil => rfl
  | cons r rows ih =>
    obtain ⟨hr, hrs⟩ := List.forall_mem_cons.mp h
    cases rows with
    | nil => simpa [indented] using lex_gap_append hr r.2
    | cons r' rows =>
      have he : indented (r :: r' :: rows) = r.1 ++ r.2 ++ "\n" ++ indented (r' :: rows) := by
        simp [indented, String.intercalate_cons_cons]
      rw [he, lex_append_newline, lex_gap_append hr, ih hrs]
      simp only [List.map_cons, String.intercalate_cons_cons]
      rw [lex_append_newline]

theorem Machine.readAll_withReturns (m : Machine) (cs : List Char) :
    m.readAll (cs.flatMap fun c => if c = '\n' then ['\r', '\n'] else [c]) = m.readAll cs := by
  induction cs generalizing m with
  | nil => rfl
  | cons c cs ih =>
    rw [List.flatMap_cons, readAll_append, ih]
    by_cases hn : c = '\n'
    · rw [if_pos hn, hn]
      exact congrArg (readAll · cs) (read_return_newline m)
    · rw [if_neg hn]
      rfl

theorem lex_withReturns (script : String) : lex (withReturns script) = lex script := by
  rw [withReturns, lex, String.toList_ofList, Machine.readAll_withReturns, lex]

/-- The same tokens, and so the same program with the same lines. -/
structure ReadAlike (script script' : String) : Prop where
  tokens : lex script = lex script'
  program : ∀ calls file, parseWithin calls file script = parseWithin calls file script'

theorem ReadAlike.of_lex {script script' : String} (h : lex script = lex script') :
    ReadAlike script script' :=
  ⟨h, fun calls file => by rw [parseWithin, h, parseWithin]⟩

/-- A blank splits a text into two that are lexed on their own, with the newline between them if it
is one. So a text may be indented anew, the blanks between two tokens be changed for others, and
every line feed be given a carriage return: neither its tokens nor its program change. -/
theorem blank_splits :
    (∀ a b c, isBlank c = true → ∃ ts, lex a = ts ++ [newline] ∧
      lex (a ++ c.toString ++ b) = ts ++ (if c = '\n' then [newline] else []) ++ lex b) ∧
    (∀ rows rows', (∀ r ∈ rows, IsGap r.1.toList) → (∀ r ∈ rows', IsGap r.1.toList) →
      rows.map Prod.snd = rows'.map Prod.snd → ReadAlike (indented rows) (indented rows')) ∧
    (∀ a b u v : String, IsGap u.toList → u ≠ "" → IsGap v.toList → v ≠ "" →
      ReadAlike (a ++ u ++ b) (a ++ v ++ b)) ∧
    ∀ script, ReadAlike (withReturns script) script := by
  refine ⟨?_, ?_, ?_, fun script => .of_lex (lex_withReturns script)⟩
  · intro a b c hc
    obtain ⟨ts, ha⟩ := exists_lex_eq a
    refine ⟨ts, ha, ?_⟩
    rw [lex_append_blank hc, ha, List.dropLast_concat, separator]
  · intro rows rows' h h' he
    exact .of_lex (by rw [lex_indented h, lex_indented h', he])
  · intro a b u v hu hun hv hvn
    exact .of_lex (by rw [lex_append_gap hu hun, lex_append_gap hv hvn])

/-- A number and a name that a no-break space keeps apart, a body that is indented, and a tab in
place of two spaces. -/
theorem blank_splits_script :
    (isBlank '\u00a0' = true ∧ ∃ ts, lex "x=12" = ts ++ [newline] ∧
      lex ("x=12" ++ '\u00a0'.toString ++ "y") = ts ++ [] ++ lex "y") ∧
    ReadAlike (indented [("", "If x > 1"), ("", "y = 2"), ("", "Endif")])
      (indented [("", "If x > 1"), ("    ", "y = 2"), ("\t", "Endif")]) ∧
    ReadAlike ("x" ++ "  " ++ "= 1\n") ("x" ++ "\t" ++ "= 1\n") := by
  obtain ⟨hb, hi, hg, -⟩ := blank_splits
  have hs : isBlank '\u00a0' = true := by decide
  refine ⟨⟨hs, by simpa using hb "x=12" "y" '\u00a0' hs⟩, ?_, ?_⟩
  · exact hi _ _ (by simp [IsGap]) (by decide) rfl
  · exact hg "x" "= 1\n" "  " "\t" (by decide) (by decide) (by decide) (by decide)

end CommandScript
