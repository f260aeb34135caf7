import CommandScript.Proofs.Blanks
import CommandScript.Proofs.Editor.Notices
import CommandScript.Proofs.Running.Script

/-! # The editor and the command line

A script file is read with every style of line end as a line feed, an open document as it is. A
carriage return is a blank to the lexer, so one that stands before a line feed makes no difference.
Then the command line reports a fault of the text if and only if the editor has a diagnostic for it.
A carriage return that stands alone ends a line of the file only, and the two may disagree.
-/

namespace CommandScript

/-! ## Line ends -/

namespace Text

/-- Every carriage return stands before a line feed. -/
def Paired (cs : List Char) : Prop :=
  ∀ i < cs.length, cs[i]? = some '\r' → cs[i + 1]? = some '\n'

theorem Paired.tail {c : Char} {cs : List Char} (h : Paired (c :: cs)) : Paired cs := by
  intro i hi hc
  exact h (i + 1) (Nat.succ_lt_succ hi) hc

theorem not_paired_return {cs : List Char} (hn : ∀ rest, cs ≠ '\n' :: rest) :
    ¬ Paired ('\r' :: cs) := by
  intro h
  have hc : cs[0]? = some '\n' := h 0 (Nat.succ_pos _) rfl
  obtain ⟨rest, rfl⟩ := List.head?_eq_some_iff.mp (List.head?_eq_getElem? ▸ hc)
  exact hn rest rfl

theorem unifyBreaks_eq_self {cs : List Char} (h : '\r' ∉ cs) : unifyBreaks cs = cs := by
  fun_induction unifyBreaks cs with
  | case1 => rfl
  | case2 rest => exact absurd List.mem_cons_self h
  | case3 c rest hn ih =>
    have hc : c ≠ '\r' := fun hc => h (hc ▸ List.mem_cons_self)
    rw [if_neg hc, ih fun hr => h (List.mem_cons_of_mem _ hr)]

/-- The text of a file: what was saved, with the line ends unified. -/
theorem decodeFile?_toUTF8 (text : String) :
    decodeFile? text.toUTF8 = some (String.ofList (unifyBreaks text.toList)) := by
  have h : String.fromUTF8? text.toUTF8 = some text := dif_pos text.isValidUTF8
  rw [decodeFile?, h, Option.map_some]

end Text

namespace Machine

theorem readAll_unifyBreaks {cs : List Char} (h : Text.Paired cs) (m : Machine) :
    m.readAll (Text.unifyBreaks cs) = m.readAll cs := by
  induction cs using Text.unifyBreaks.induct generalizing m with
  | case1 => rfl
  | case2 rest ih =>
    rw [Text.unifyBreaks, readAll, readAll, List.foldl_cons, List.foldl_cons, List.foldl_cons,
      read_return_newline]
    exact ih h.tail.tail _
  | case3 c rest hn ih =>
    have hc : c ≠ '\r' := by
      rintro rfl
      exact Text.not_paired_return (fun rest' hr => hn rest' rfl hr) h
    rw [Text.unifyBreaks, if_neg hc]
    · exact ih h.tail _
    · exact hn

end Machine

theorem lex_unifyBreaks {text : String} (h : Text.Paired text.toList) :
    lex (String.ofList (Text.unifyBreaks text.toList)) = lex text := by
  rw [lex, String.toList_ofList, Machine.readAll_unifyBreaks h, lex]

theorem parse_unifyBreaks {text : String} (h : Text.Paired text.toList) (file : Option String) :
    parse file (String.ofList (Text.unifyBreaks text.toList)) = parse file text := by
  rw [parse, parseWithin, lex_unifyBreaks h]
  rfl

/-! ## What the editor shows -/

theorem Diagnostic.collect_ne_nil_iff (file : Option String) (text : String) :
    (∃ ds, collect text = .ok ds ∧ ds ≠ []) ↔ ∃ f, parse file text = .error (.fault f) := by
  unfold collect
  rcases check_cases file text with ⟨p, hp, hc⟩ | ⟨f, d, hp, hc⟩ | ⟨hp, hc⟩
  · rw [hp, hc]
    constructor
    · rintro ⟨_, ⟨⟩, hd⟩
      exact absurd rfl hd
    · rintro ⟨_, ⟨⟩⟩
  · rw [hp, hc]
    exact iff_of_true ⟨[d], rfl, List.cons_ne_nil d []⟩ ⟨f, rfl⟩
  · rw [hp, hc]
    constructor
    · rintro ⟨_, ⟨⟩, _⟩
    · rintro ⟨_, ⟨⟩⟩

theorem Index.openDocument_eq_ok_iff {uri text : String} {index : Index} {l : Location}
    (hl : locate uri index = .ok l index) {ds : List Diagnostic} (hd : ds ≠ []) :
    (∃ index', openDocument uri text index = .ok ds index') ↔
      Diagnostic.collect text = .ok ds := by
  rw [Notice.openDocument_located hl]
  unfold Diagnostic.collect
  rcases Diagnostic.check_cases none text with ⟨p, -, hc⟩ | ⟨f, d, -, hc⟩ | ⟨-, hc⟩
  · rw [update_of_check hc, hc]
    constructor
    · rintro ⟨index', h⟩
      split at h
      · cases h
        exact absurd rfl hd
      · cases h
    · rintro ⟨⟩
      exact absurd rfl hd
  · rw [update, hc]
    constructor
    · rintro ⟨index', ⟨⟩⟩
      rfl
    · rintro ⟨⟩
      exact ⟨_, rfl⟩
  · rw [update, hc]
    constructor
    · rintro ⟨index', ⟨⟩⟩
    · rintro ⟨⟩

/-! ## What the command line reports -/

namespace CommandLine

/-- Running a file that holds these bytes ends with the report of the fault that stopped its
script. -/
def Reports (registry : Registry) (name : String) (bytes : ByteArray) (showTokens : Bool)
    (w : World) (f : Fault) : Prop :=
  ∃ code before after, Text.decodeFile? bytes = some code ∧
    (if showTokens then list (some name) code w else (w, none)) = (before, none) ∧
    execute registry.host (some name) code ⟨{}, before⟩ = .error (.fault f) after ∧
    runFile registry name (.ok bytes) showTokens w =
      .of (.ok 1) (after.world.write (f.report ++ "\n"))

variable {registry : Registry} {name code : String} {f : Fault}

theorem execute_malformed_iff (he : registry.Echoes) (s : State World) :
    (f.cause.kind = .malformed ∧
      ∃ after, execute registry.host (some name) code s = .error (.fault f) after) ↔
      parse (some name) code = .error (.fault f) := by
  rcases parseWithin_cases stackLimit (some name) code with ⟨p, hp⟩ | ⟨reason, i, line, hp⟩ | hp
  · constructor
    · rintro ⟨hk, after, hx⟩
      exact absurd hk (executeWithin_dynamic he hp hx f rfl)
    · intro h
      cases hp.symm.trans h
  · have hx : execute registry.host (some name) code s =
        settle registry.host (some name) (.error _ s) := executeWithin_unparsed hp s
    constructor
    · rintro ⟨-, after, h⟩
      cases hx.symm.trans h
      exact hp
    · intro h
      cases hp.symm.trans h
      exact ⟨rfl, _, hx⟩
  · constructor
    · rintro ⟨hk, after, hx⟩
      cases (executeWithin_unparsed hp s).symm.trans hx
      cases hk
    · intro h
      cases hp.symm.trans h

theorem list_unparsed (hp : parse (some name) code = .error (.fault f)) (showTokens : Bool)
    (w : World) :
    ∃ before, (if showTokens then list (some name) code w else (w, none)) = (before, none) := by
  cases showTokens with
  | false => exact ⟨w, rfl⟩
  | true =>
    rw [if_pos rfl, list, hp]
    exact ⟨_, rfl⟩

/-- The faults of the text that are reported are those of the text that is read from the file. -/
theorem reports_malformed_iff (he : registry.Echoes) {bytes : ByteArray}
    (hb : Text.decodeFile? bytes = some code) (showTokens : Bool) (w : World) :
    f.cause.kind = .malformed ∧ Reports registry name bytes showTokens w f ↔
      parse (some name) code = .error (.fault f) := by
  constructor
  · rintro ⟨hk, code', before, after, hb', -, hx, -⟩
    obtain rfl : code = code' := Option.some.inj (hb.symm.trans hb')
    exact (execute_malformed_iff he _).mp ⟨hk, after, hx⟩
  · intro hp
    obtain ⟨before, hl⟩ := list_unparsed hp showTokens w
    obtain ⟨hk, after, hx⟩ := (execute_malformed_iff he ⟨{}, before⟩).mpr hp
    refine ⟨hk, code, before, after, hb, hl, hx, ?_⟩
    simp only [runFile, hb, runCode, hl, hx]

/-- The command line and the editor agree on the text that is read from a file. -/
theorem reports_iff_read (he : registry.Echoes) (name text : String) (showTokens : Bool)
    (w : World) :
    (∃ f, f.cause.kind = .malformed ∧ Reports registry name text.toUTF8 showTokens w f) ↔
      ∃ ds, Diagnostic.collect (String.ofList (Text.unifyBreaks text.toList)) = .ok ds ∧
        ds ≠ [] := by
  rw [Diagnostic.collect_ne_nil_iff (some name)]
  exact exists_congr fun f => reports_malformed_iff he (Text.decodeFile?_toUTF8 text) showTokens w

/-- A script whose carriage returns are paired is reported as malformed from its file if and only if
the editor has a diagnostic for its text, which is what opening the text publishes. -/
theorem reports_iff_diagnosed {specs : List (Option String)} {w₀ w : World}
    (hr : register specs [] w₀ = .ok (registry, w)) {text : String}
    (ht : Text.Paired text.toList) (name : String) (showTokens : Bool) :
    ((∃ f, f.cause.kind = .malformed ∧ Reports registry name text.toUTF8 showTokens w f) ↔
      ∃ ds, Diagnostic.collect text = .ok ds ∧ ds ≠ []) ∧
    ∀ uri index l, Index.locate uri index = .ok l index → ∀ ds, ds ≠ [] →
      ((∃ index', Index.openDocument uri text index = .ok ds index') ↔
        Diagnostic.collect text = .ok ds) := by
  have he : registry.Echoes := register_echoes hr (fun _ hc => nomatch hc)
  constructor
  · rw [reports_iff_read he, Diagnostic.collect_ne_nil_iff none, parse_unifyBreaks ht,
      ← Diagnostic.collect_ne_nil_iff]
  · intro uri index l hl ds hd
    exact Index.openDocument_eq_ok_iff hl hd

theorem reports_iff_diagnosed_paired :
    Text.Paired "x =\r\nSay x".toList ∧
    (∃ w, register [some "Say"] [] {} = .ok ([{ name := "Say" }], w) ∧
      ∃ f, f.cause.kind = .malformed ∧
        Reports [{ name := "Say" }] "a.ase" "x =\r\nSay x".toUTF8 true w f) ∧
    ∃ index, Index.openDocument "ws:/a.ase" "x =\r\nSay x" { workspace := { uri := "ws:" } } =
      .ok [⟨⟨⟨0, 0⟩, ⟨0, 3⟩⟩, "Could not parse term: newline"⟩] index := by
  have ht : Text.Paired "x =\r\nSay x".toList := by
    unfold Text.Paired
    decide
  obtain ⟨w, hr⟩ : ∃ w, register [some "Say"] [] {} = .ok ([{ name := "Say" }], w) := ⟨_, rfl⟩
  have hc : Diagnostic.collect "x =\r\nSay x" =
      .ok [⟨⟨⟨0, 0⟩, ⟨0, 3⟩⟩, "Could not parse term: newline"⟩] := by decide +kernel
  obtain ⟨l, hl⟩ : ∃ l, Index.locate "ws:/a.ase" { workspace := { uri := "ws:" } } =
      .ok l { workspace := { uri := "ws:" } } := ⟨_, rfl⟩
  obtain ⟨hf, ho⟩ := reports_iff_diagnosed hr ht "a.ase" true
  exact ⟨ht, ⟨w, hr, hf.mpr ⟨_, hc, List.cons_ne_nil _ _⟩⟩,
    (ho "ws:/a.ase" _ _ hl _ (List.cons_ne_nil _ _)).mpr hc⟩

/-- A carriage return that stands alone ends an assignment in a file and not in the editor, so that
only the editor refuses a second one after it. It also cuts an assignment in a file and not in the
editor, so that only the command line refuses it. -/
theorem unpaired_not_agreed :
    ((∃ ds, Diagnostic.collect "x = 1\ry = 2" = .ok ds ∧ ds ≠ []) ∧
      ¬ ∃ f, f.cause.kind = .malformed ∧
        Reports [] "a.ase" "x = 1\ry = 2".toUTF8 false {} f) ∧
    (∃ f, f.cause.kind = .malformed ∧ Reports [] "a.ase" "x =\r1".toUTF8 false {} f) ∧
      ¬ ∃ ds, Diagnostic.collect "x =\r1" = .ok ds ∧ ds ≠ [] := by
  have he : Registry.Echoes [] := fun _ hc => nomatch hc
  refine ⟨⟨?_, ?_⟩, ?_, ?_⟩
  · have hc : Diagnostic.collect "x = 1\ry = 2" =
        .ok [⟨⟨⟨0, 0⟩, ⟨0, 5⟩⟩, "Expected newline instead received: y"⟩] := by decide +kernel
    exact ⟨_, hc, List.cons_ne_nil _ _⟩
  · have hc : Diagnostic.collect (String.ofList (Text.unifyBreaks "x = 1\ry = 2".toList)) =
        .ok [] := by decide +kernel
    rw [reports_iff_read he, hc]
    rintro ⟨_, ⟨⟩, hd⟩
    exact hd rfl
  · have hc : Diagnostic.collect (String.ofList (Text.unifyBreaks "x =\r1".toList)) =
        .ok [⟨⟨⟨0, 0⟩, ⟨0, 3⟩⟩, "Could not parse term: newline"⟩] := by decide +kernel
    rw [reports_iff_read he]
    exact ⟨_, hc, List.cons_ne_nil _ _⟩
  · have hc : Diagnostic.collect "x =\r1" = .ok [] := by decide +kernel
    rw [hc]
    rintro ⟨_, ⟨⟩, hd⟩
    exact hd rfl

end CommandLine

end CommandScript
