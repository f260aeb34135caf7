import Mathlib.Data.List.Forall2
import CommandScript.Proofs.Equality
import CommandScript.Proofs.Running.Printing

/-! # Interactive runs

Feeding lines one by one comes to the same as running them as one script: each time the gathered
lines parse they run, and what they leave behind is where the lines below go on. What the loop
prints tells whether a line was refused, and its log which programs it ran.
-/

namespace CommandScript

namespace Repl

/-- The loop when it runs its buffer: after the prompt, with one line more. -/
def taking (r : Repl) (line : String) : Repl :=
  { r.write r.prompt with buffer := line :: r.buffer }

/-- The loop where its run ended. -/
def last : Except (Halt × Repl) Repl → Repl
  | .ok r => r
  | .error (_, r) => r

/-- The program in the buffer, if the buffer parses. -/
def parsed (r : Repl) : List Program := (parse file r.input).toOption.toList

/-- Between the two nothing was run or dispatched, and the context stayed as it was. -/
structure Idle (r r' : Repl) : Prop where
  context : r'.state.context = r.state.context
  dispatched : r'.state.world.dispatched = r.state.world.dispatched
  programs : r'.state.world.programs = r.state.world.programs

/-- What comes of running the buffer. -/
inductive Attempt (r : Repl) : Except (Halt × Repl) Repl → Prop where
  | done {p : Program} {after : State World} : parse file r.input = .ok p →
      execute r.registry.host file r.input r.state = .ok () after →
      Attempt r (.ok { r with state := after, buffer := [] })
  | waiting {h h' : Halt} {after : State World} : parse file r.input = .error h →
      execute r.registry.host file r.input r.state = .error h' after →
      Idle r { r with state := after } → Attempt r (.ok { r with state := after })
  | reported {f : Fault} {after : State World} :
      execute r.registry.host file r.input r.state = .error (.fault f) after →
      f.incomplete = false →
      Attempt r (.ok (write { r with state := after, buffer := [] } (f.report ++ "\n")))
  | escaped {h : Halt} {after : State World} :
      execute r.registry.host file r.input r.state = .error h after → h.Final →
      Attempt r (.error (h, { r with state := after }))

variable {r r' r'' : Repl} {line : String} {lines rest : List String}
  {result : Except (Halt × Repl) Repl}

theorem runBuffer_reported {f : Fault} {after : State World}
    (hx : execute r.registry.host file r.input r.state = .error (.fault f) after)
    (hf : f.incomplete = false) : Attempt r (runBuffer r) := by
  unfold runBuffer
  rw [hx]
  simp only [hf]
  exact .reported hx hf

theorem runBuffer_parsed (he : r.registry.Echoes) {p : Program}
    (hp : parse file r.input = .ok p) : Attempt r (runBuffer r) := by
  cases hx : execute r.registry.host file r.input r.state with
  | ok _ after =>
    unfold runBuffer
    rw [hx]
    exact .done hp hx
  | error h after =>
    have hf : h.Final := (executeWithin_dynamic he hp hx).final
    cases h with
    | fault f => exact runBuffer_reported hx (hf f rfl)
    | _ =>
      unfold runBuffer
      rw [hx]
      exact .escaped hx hf

theorem runBuffer_unparsed {h : Halt} (hp : parse file r.input = .error h) :
    Attempt r (runBuffer r) := by
  have hx : execute r.registry.host file r.input r.state =
      settle r.registry.host file (.error h r.state) := executeWithin_unparsed hp _
  rcases parseWithin_cases stackLimit file r.input with ⟨p, h'⟩ | ⟨reason, i, line, h'⟩ | h'
  · cases hp.symm.trans h'
  · cases hp.symm.trans h'
    cases i with
    | false => exact runBuffer_reported hx rfl
    | true =>
      unfold runBuffer
      rw [hx]
      refine .waiting h' hx ⟨rfl, World.note_dispatched _ _, ?_⟩
      exact (World.note_programs _ _).trans (List.append_nil _)
  · cases hp.symm.trans h'
    exact runBuffer_reported hx rfl

theorem runBuffer_attempt (he : r.registry.Echoes) : Attempt r (runBuffer r) := by
  cases hp : parse file r.input with
  | ok p => exact runBuffer_parsed he hp
  | error h => exact runBuffer_unparsed hp

theorem Attempt.registry_eq (ha : Attempt r result) : (last result).registry = r.registry := by
  cases ha <;> rfl

theorem Attempt.output_eq (ha : Attempt r result) (he : r.registry.Echoes) :
    ∃ text, (last result).state.world.output = r.state.world.output ++ text := by
  obtain ⟨calls, h⟩ := execute_advances he file r.input r.state
  have ho := h.output
  cases ha with
  | done _ hx => rw [hx] at ho; exact ⟨_, ho⟩
  | waiting _ hx => rw [hx] at ho; exact ⟨_, ho⟩
  | escaped hx => rw [hx] at ho; exact ⟨_, ho⟩
  | @reported f after hx =>
    rw [hx] at ho
    exact ⟨_, (congrArg (· ++ (f.report ++ "\n")) ho).trans String.append_assoc⟩

theorem Idle.refl (r : Repl) : Idle r r := ⟨rfl, rfl, rfl⟩

theorem Idle.trans (h : Idle r r') (h' : Idle r' r'') : Idle r r'' :=
  ⟨h'.context.trans h.context, h'.dispatched.trans h.dispatched, h'.programs.trans h.programs⟩

theorem Idle.residue (h : Idle r r') : r'.state.residue = r.state.residue :=
  congrArg₂ (fun c d => (Context.withoutLines c, d)) h.context h.dispatched

theorem idle_taking : Idle r (r.taking line) := ⟨rfl, rfl, rfl⟩

theorem taking_registry : (r.taking line).registry = r.registry := rfl

theorem taking_input : (r.taking line).input = "\n".intercalate (r.buffer.reverse ++ [line]) := by
  simp [input, taking]

theorem taking_output :
    (r.taking line).state.world.output = r.state.world.output ++ r.prompt := rfl

theorem prompt_colonless (r : Repl) : Text.Colonless r.prompt := by
  unfold prompt
  split <;> decide

theorem step_leave (hl : (r.buffer.isEmpty && leaves line) = true) :
    (r.write r.prompt).step line = .leave (r.write r.prompt) :=
  if_pos hl

theorem step_stay (hl : (r.buffer.isEmpty && leaves line) = false) :
    (r.write r.prompt).step line = match runBuffer (r.taking line) with
      | .ok r' => .again r'
      | .error (h, r') => .escape h r' :=
  if_neg (Bool.not_eq_true _ ▸ hl)

theorem feed_leave (hl : (r.buffer.isEmpty && leaves line) = true) (ending : Ending) :
    feed ending (line :: rest) r = .ok (r.write r.prompt) := by
  rw [feed, step_leave hl]

theorem feed_stay (hl : (r.buffer.isEmpty && leaves line) = false) (ending : Ending) :
    feed ending (line :: rest) r = match runBuffer (r.taking line) with
      | .ok r' => feed ending rest r'
      | .error e => .error e := by
  rw [feed, step_stay hl]
  cases runBuffer (r.taking line) <;> rfl

theorem feed_output (he : r.registry.Echoes) {ending : Ending}
    (hf : feed ending lines r = .ok r') :
    ∃ text, r'.state.world.output = r.state.world.output ++ text := by
  induction lines generalizing r with
  | nil =>
    cases hf
    exact ⟨_, String.append_assoc⟩
  | cons line rest ih =>
    cases hl : r.buffer.isEmpty && leaves line with
    | true =>
      rw [feed_leave hl] at hf
      cases hf
      exact ⟨_, rfl⟩
    | false =>
      rw [feed_stay hl] at hf
      have ha : Attempt (r.taking line) (runBuffer (r.taking line)) := runBuffer_attempt he
      obtain ⟨printed, ho⟩ := ha.output_eq he
      cases hx : runBuffer (r.taking line) with
      | error e =>
        rw [hx] at hf
        cases hf
      | ok r₀ =>
        rw [hx] at hf ha ho
        obtain ⟨text, ht⟩ := ih (ha.registry_eq ▸ he : r₀.registry.Echoes) hf
        refine ⟨r.prompt ++ printed ++ text, ?_⟩
        rw [ht, ho, taking_output]
        simp only [String.append_assoc]

/-- Feeding lines ends with an empty buffer and without a report exactly if running them as one
script ends well, and then it leaves behind the same. -/
theorem feed_unreported_iff (hr : r.registry.FromSpecs) (hl : ∀ line ∈ lines, leaves line = false)
    (hw : r.buffer ≠ [] → ∃ h, parse file r.input = .error h)
    (hb : Text.Colonless r.state.world.output)
    {o : Context × Array (String × List String)} :
    (∃ r', feed .endOfInput lines r = .ok r' ∧ r'.buffer = [] ∧
        (∀ f : Fault, ¬ f.ReportedIn r'.state.world.output) ∧ r'.state.residue = o) ↔
      residue? (execute r.registry.host file ("\n".intercalate (r.buffer.reverse ++ lines))
        r.state) = some o := by
  have he := hr.echoes
  -- the printed text holds no colon as long as nothing was reported
  induction lines generalizing r with
  | nil =>
    rw [List.append_nil]
    cases hbuf : r.buffer with
    | nil =>
      have hx : residue? (execute r.registry.host file ("\n".intercalate [].reverse) r.state) =
        some r.state.residue := execute_empty he file r.state
      rw [hx]
      constructor
      · rintro ⟨r', ⟨⟩, -, -, rfl⟩
        rfl
      · rintro ⟨⟩
        have hc : Text.Colonless (r.state.world.output ++ r.prompt ++ farewell .endOfInput) :=
          (hb.append r.prompt_colonless).append (by decide)
        exact ⟨_, rfl, hbuf, fun f hf => hf.colon hc, rfl⟩
    | cons line before =>
      obtain ⟨h, hp⟩ := hw (by simp [hbuf])
      rw [← hbuf]
      have hx : residue? (execute r.registry.host file r.input r.state) = none :=
        execute_residue_none hp
      constructor
      · rintro ⟨r', ⟨⟩, hn, -⟩
        cases hbuf.symm.trans hn
      · intro ho
        cases hx.symm.trans ho
  | cons line rest ih =>
    have hl' : ∀ line ∈ rest, leaves line = false := fun l hm => hl l (by simp [hm])
    have hstay : (r.buffer.isEmpty && leaves line) = false := by
      rw [hl line (by simp), Bool.and_false]
    have hs : r.state.residue = (r.taking line).state.residue := rfl
    have ha : Attempt (r.taking line) (runBuffer (r.taking line)) := runBuffer_attempt he
    have hr' : (r.taking line).registry.FromSpecs := hr
    obtain ⟨text, ht, ho⟩ := execute_prints hr' file (r.taking line).input (r.taking line).state
    have hc : Text.Colonless ((r.taking line).state.world.output ++ text) :=
      (hb.append r.prompt_colonless).append ht
    rw [feed_stay hstay, execute_congr he hs file]
    generalize runBuffer (r.taking line) = result at ha
    cases ha with
    | done hp hx =>
      rw [hx] at ho
      rw [taking_input] at hp hx
      rw [taking_registry] at hx
      rw [execute_lines he hp, hx]
      exact ih hr hl' (fun hn => absurd rfl hn) (ho ▸ hc) he
    | @waiting h h' after hp hx hi =>
      rw [hx] at ho
      have hbuf : r.buffer.reverse ++ line :: rest = (line :: r.buffer).reverse ++ rest := by simp
      rw [execute_congr he hi.residue.symm file, hbuf]
      exact ih (r := { r.taking line with state := after }) hr hl' (fun _ => ⟨h, hp⟩) (ho ▸ hc) he
    | @reported f after hx hf =>
      -- what follows does not take the report back
      have hfin : Halt.Final (.fault f) := by
        rintro _ ⟨⟩
        exact hf
      rw [taking_input] at hx
      rw [execute_lines_none he hx hfin]
      constructor
      · rintro ⟨r', hr', -, hn, -⟩
        obtain ⟨more, hm⟩ := feed_output
          (r := write { r.taking line with state := after, buffer := [] } (f.report ++ "\n")) he hr'
        refine absurd ?_ (hn f)
        rw [hm]
        exact (f.reportedIn_append _).append more
      · rintro ⟨⟩
    | escaped hx hf =>
      rw [taking_input] at hx
      rw [execute_lines_none he hx hf]
      constructor
      · rintro ⟨r', ⟨⟩, -⟩
      · rintro ⟨⟩

/-! ## What a run does with its lines -/

/-- The programs were parsed from pieces of the lines that lie apart, in their order. -/
def ParsedApart (lines : List String) (programs : List Program) : Prop :=
  ∃ pieces ran : List (List String), pieces.flatten = lines ∧ ran.Sublist pieces ∧
    List.Forall₂ (fun piece p => parse file ("\n".intercalate piece) = .ok p) ran programs

theorem ParsedApart.nil (lines : List String) : ParsedApart lines [] :=
  ⟨[lines], [], by simp, List.nil_sublist _, .nil⟩

theorem ParsedApart.append {lines lines' : List String} {ps qs : List Program}
    (h : ParsedApart lines ps) (h' : ParsedApart lines' qs) :
    ParsedApart (lines ++ lines') (ps ++ qs) := by
  obtain ⟨pieces, ran, rfl, hs, hp⟩ := h
  obtain ⟨pieces', ran', rfl, hs', hp'⟩ := h'
  exact ⟨pieces ++ pieces', ran ++ ran', List.flatten_append, hs.append hs',
    List.rel_append hp hp'⟩

theorem parsedApart_buffer (r : Repl) : ParsedApart r.buffer.reverse r.parsed := by
  unfold parsed
  cases hp : parse file r.input with
  | error h => exact .nil _
  | ok p => exact ⟨[r.buffer.reverse], [r.buffer.reverse], by simp, .refl _, .cons hp .nil⟩

/-- Between the two the loop ran programs that were parsed from separate pieces of the lines, each
of them once, and did nothing else. -/
structure Ran (lines : List String) (r r' : Repl) : Prop where
  registry : r'.registry = r.registry
  programs : ∃ ps, ParsedApart lines ps ∧
    r'.state.world.programs = r.state.world.programs ++ ps ∧
    r'.state.residue = (runAll r.registry.host file ps r.state).residue

theorem Ran.of_residue (lines : List String) (hg : r'.registry = r.registry)
    (hp : r'.state.world.programs = r.state.world.programs)
    (hs : r'.state.residue = r.state.residue) : Ran lines r r' :=
  ⟨hg, [], .nil lines, hp.trans (List.append_nil _).symm, hs⟩

theorem Ran.trans {lines lines' : List String} (h : Ran lines r r') (h' : Ran lines' r' r'')
    (he : r.registry.Echoes) : Ran (lines ++ lines') r r'' := by
  obtain ⟨hg, ps, hps, hp, hs⟩ := h
  obtain ⟨hg', qs, hqs, hp', hs'⟩ := h'
  refine ⟨hg'.trans hg, ps ++ qs, hps.append hqs, ?_, ?_⟩
  · rw [hp', hp, List.append_assoc]
  · rw [hs', hg, runAll_append]
    exact runAll_residue he hs

/-- Running the buffer runs the program in it, if it parses, and does nothing else. -/
theorem Attempt.ran (ha : Attempt r result) (he : r.registry.Echoes) :
    Ran r.buffer.reverse r (last result) := by
  obtain ⟨calls, h⟩ := execute_advances he file r.input r.state
  have hp := h.programs
  have hs := execute_residue_run he file r.input r.state
  refine ⟨ha.registry_eq, r.parsed, parsedApart_buffer r, ?_⟩
  cases ha with
  | done _ hx => rw [hx] at hp hs; exact ⟨hp, hs⟩
  | waiting _ hx => rw [hx] at hp hs; exact ⟨hp, hs⟩
  | reported hx => rw [hx] at hp hs; exact ⟨hp, hs⟩
  | escaped hx => rw [hx] at hp hs; exact ⟨hp, hs⟩

theorem feed_ran (he : r.registry.Echoes) (ending : Ending) (lines : List String) :
    Ran (r.buffer.reverse ++ lines) r (last (feed ending lines r)) := by
  induction lines generalizing r with
  | nil => exact .of_residue _ rfl rfl rfl
  | cons line rest ih =>
    cases hl : r.buffer.isEmpty && leaves line with
    | true =>
      rw [feed_leave hl]
      exact .of_residue _ rfl rfl rfl
    | false =>
      have hb : r.buffer.reverse ++ line :: rest = (r.taking line).buffer.reverse ++ rest := by
        simp [taking]
      have ht : Ran [] r (r.taking line) := .of_residue [] rfl rfl rfl
      have ha : Attempt (r.taking line) (runBuffer (r.taking line)) := runBuffer_attempt he
      have hr := ha.ran he
      rw [feed_stay hl, hb]
      refine ht.trans ?_ he
      generalize runBuffer (r.taking line) = result at ha hr
      cases ha with
      | @done p after => exact hr.trans (ih (r := ⟨r.registry, after, []⟩) he) he
      | @reported f after => exact hr.trans (ih (r := write ⟨r.registry, after, []⟩ _) he) he
      | @waiting h h' after hp hx hi =>
        have hn : Ran [] (r.taking line) { r.taking line with state := after } :=
          .of_residue [] rfl hi.programs hi.residue
        exact hn.trans (ih (r := { r.taking line with state := after }) he) he
      | escaped => exact hr.trans (.of_residue rest rfl rfl rfl) he

/-- Lines in the buffer stand at the end of the input and have done nothing so far. -/
theorem feed_buffer (he : r.registry.Echoes) {ending : Ending}
    (hf : feed ending lines r = .ok r') :
    (∃ before r₁, lines = before ++ r'.buffer.reverse ∧ feed ending before r = .ok r₁ ∧
      r₁.buffer = [] ∧ Idle r₁ r') ∨
    r'.buffer = lines.reverse ++ r.buffer ∧ Idle r r' := by
  induction lines generalizing r with
  | nil =>
    cases hf
    exact Or.inr ⟨rfl, rfl, rfl, rfl⟩
  | cons line rest ih =>
    cases hl : r.buffer.isEmpty && leaves line with
    | true =>
      have hf' := hf
      rw [feed_leave hl] at hf'
      cases hf'
      have hb : r.buffer = [] := List.isEmpty_iff.mp (Bool.and_eq_true_iff.mp hl).1
      exact Or.inl ⟨line :: rest, _, by simp [write, hb], hf, hb, .refl _⟩
    | false =>
      have ha : Attempt (r.taking line) (runBuffer (r.taking line)) := runBuffer_attempt he
      rw [feed_stay hl] at hf
      cases hx : runBuffer (r.taking line) with
      | error e =>
        rw [hx] at hf
        cases hf
      | ok r₀ =>
        rw [hx] at hf ha
        have hg : r₀.registry.Echoes := ha.registry_eq ▸ he
        have next : ∀ before, feed ending (line :: before) r = feed ending before r₀ := by
          intro before
          rw [feed_stay hl, hx]
        rcases ih hg hf with ⟨before, r₁, rfl, hr₁, h⟩ | ⟨hb, hi⟩
        · exact Or.inl ⟨line :: before, r₁, rfl, by rw [next, hr₁], h⟩
        · have fresh : r₀.buffer = [] → ∃ before r₁, line :: rest = before ++ r'.buffer.reverse ∧
              feed ending before r = .ok r₁ ∧ r₁.buffer = [] ∧ Idle r₁ r' := by
            intro hb₀
            refine ⟨[line], (r₀.write r₀.prompt).write (farewell ending), ?_, ?_, hb₀,
              hi.context, hi.dispatched, hi.programs⟩
            · simp [hb, hb₀]
            · rw [next]
              rfl
          cases ha with
          | done => exact Or.inl (fresh rfl)
          | reported => exact Or.inl (fresh rfl)
          | waiting _ _ hi₀ =>
            refine Or.inr ⟨?_, idle_taking.trans (hi₀.trans hi)⟩
            rw [hb, List.reverse_cons, List.append_assoc]
            rfl

end Repl

theorem Context.forall₂_methods {c c' : Context} (h : c.withoutLines = c'.withoutLines) :
    List.Forall₂ (fun e e' => e.1 = e'.1 ∧ e.2.toTree.Same e'.2.toTree)
      c.methods.entries c'.methods.entries := by
  have hm := congrArg (fun c => c.methods.entries) h
  simp only [withoutLines] at hm
  rw [← List.forall₂_eq_eq_eq, List.forall₂_map_left_iff, List.forall₂_map_right_iff] at hm
  apply hm.imp
  rintro ⟨k, m⟩ ⟨k', m'⟩ he
  simp only [Method.withoutLines, Prod.mk.injEq, Method.mk.injEq, and_true] at he
  obtain ⟨rfl, hn, hp, hb⟩ := he
  refine ⟨rfl, ?_⟩
  rw [Method.toTree, Method.toTree, hn, hp]
  exact .define (Stmt.same_withoutLines hb) _ _ _ _

open Repl

variable {specs : List (Option String)} {registry : Registry} {verbose : Bool} {w : World}

theorem CommandLine.start_colonless (hr : CommandLine.register specs [] { verbose := verbose } =
    .ok (registry, w)) : Text.Colonless (start registry w).state.world.output := by
  have ho := (register_advances hr registry).output
  have hs : (start registry w).state.world.output = w.output ++ banner := rfl
  rw [hs, ho]
  change Text.Colonless ("" ++ "" ++ banner)
  decide

/-- Lines none of which asks to leave run as a script exactly if they can be fed with no error
printed and nothing left over, and then they dispatch the same and end in the same context. In any
run the programs that the loop executes are parsed from separate pieces of the lines, and the loop
does what executing them one after the other does. Lines that are still in the buffer have done
nothing. -/
theorem interactive_iff_script
    (hr : CommandLine.register specs [] { verbose := verbose } = .ok (registry, w))
    (name : Option String) (lines : List String) :
    ((∀ line ∈ lines, leaves line = false) →
      ((∃ s, execute registry.host name ("\n".intercalate lines) ⟨{}, w⟩ = .ok () s) ↔
        ∃ r, feed .endOfInput lines (CommandLine.start registry w) = .ok r ∧ r.buffer = [] ∧
          ∀ f : Fault, ¬ f.ReportedIn r.state.world.output) ∧
      ∀ s r, execute registry.host name ("\n".intercalate lines) ⟨{}, w⟩ = .ok () s →
        feed .endOfInput lines (CommandLine.start registry w) = .ok r →
        r.state.world.dispatched = s.world.dispatched ∧
        r.state.context.globals = s.context.globals ∧
        List.Forall₂ (fun e e' => e.1 = e'.1 ∧ e.2.toTree.Same e'.2.toTree)
          r.state.context.methods.entries s.context.methods.entries) ∧
    ∀ ending,
      (let r := last (feed ending lines (CommandLine.start registry w))
       ParsedApart lines r.state.world.programs ∧
       r.state.residue = (runAll registry.host file r.state.world.programs ⟨{}, w⟩).residue) ∧
      ∀ r, feed ending lines (CommandLine.start registry w) = .ok r →
        ∃ before r₁, lines = before ++ r.buffer.reverse ∧
          feed ending before (CommandLine.start registry w) = .ok r₁ ∧ r₁.buffer = [] ∧
          Idle r₁ r := by
  have hs : (CommandLine.start registry w).registry.FromSpecs := CommandLine.register_fromSpecs hr
  have he := hs.echoes
  have hw : (CommandLine.start registry w).state.residue = State.residue ⟨{}, w⟩ := rfl
  refine ⟨fun hl => ?_, fun ending => ⟨?_, ?_⟩⟩
  · have hn : residue? (execute registry.host file ("\n".intercalate lines)
          (CommandLine.start registry w).state) =
        residue? (execute registry.host name ("\n".intercalate lines) ⟨{}, w⟩) :=
      execute_congr he hw name _
    have ho := fun o => feed_unreported_iff (o := o) hs hl (fun h => absurd rfl h)
      (CommandLine.start_colonless hr)
    constructor
    · constructor
      · rintro ⟨s, hx⟩
        obtain ⟨r, hf, hb, hp, -⟩ := (ho s.residue).mpr (hn.trans (by rw [hx]; rfl))
        exact ⟨r, hf, hb, hp⟩
      · rintro ⟨r, hf, hb, hp⟩
        have hx := hn.symm.trans ((ho _).mp ⟨r, hf, hb, hp, rfl⟩)
        obtain ⟨s, hx, -⟩ := residue?_eq_some.mp hx
        exact ⟨s, hx⟩
    · intro s r hx hf
      obtain ⟨r', hf', -, -, hr'⟩ := (ho s.residue).mpr (hn.trans (by rw [hx]; rfl))
      cases hf.symm.trans hf'
      obtain ⟨hc, hd⟩ := Prod.mk.inj hr'
      have hg := congrArg Context.globals hc
      exact ⟨hd, hg, Context.forall₂_methods hc⟩
  · obtain ⟨-, ps, hps, hp, hx⟩ := feed_ran (r := CommandLine.start registry w) he ending lines
    have hp₀ : (CommandLine.start registry w).state.world.programs = [] :=
      (CommandLine.register_advances hr registry).programs
    rw [hp₀, List.nil_append] at hp
    dsimp only
    rw [hp, hx]
    exact ⟨hps, runAll_residue he hw⟩
  · intro r hf
    rcases feed_buffer (r := CommandLine.start registry w) he hf with h | ⟨hb, hi⟩
    · exact h
    · -- nothing was ever cleared: all lines are in the buffer
      refine ⟨[], _, ?_, rfl, rfl, hi.context, hi.dispatched, hi.programs⟩
      rw [hb]
      simp [CommandLine.start, write]

/-- A condition typed over three lines runs once it is closed, as it does in the script. -/
theorem interactive_iff_script_condition :
    ∃ w, CommandLine.register [some "say"] [] {} = .ok ([{ name := "say" }], w) ∧
    (∀ line ∈ ["x = 1", "If x < 3", "say x", "Endif"], leaves line = false) ∧
    ∃ r, feed .endOfInput ["x = 1", "If x < 3", "say x", "Endif"]
        (CommandLine.start [{ name := "say" }] w) = .ok r ∧ r.buffer = [] ∧
      ∀ f : Fault, ¬ f.ReportedIn r.state.world.output := by
  obtain ⟨w, hr⟩ : ∃ w, CommandLine.register [some "say"] [] {} = .ok ([{ name := "say" }], w) :=
    ⟨_, rfl⟩
  have hl : ∀ line ∈ ["x = 1", "If x < 3", "say x", "Endif"], leaves line = false := by decide
  have hs : (residue? (execute (Registry.host [{ name := "say" }]) none
      ("\n".intercalate ["x = 1", "If x < 3", "say x", "Endif"]) ⟨{}, w⟩)).isSome = true := by
    cases hr
    decide +kernel
  obtain ⟨o, ho⟩ := Option.isSome_iff_exists.mp hs
  obtain ⟨s, hs, -⟩ := residue?_eq_some.mp ho
  have hi := interactive_iff_script hr none ["x = 1", "If x < 3", "say x", "Endif"]
  exact ⟨w, hr, hl, (hi.1 hl).1.mp ⟨s, hs⟩⟩

end CommandScript
