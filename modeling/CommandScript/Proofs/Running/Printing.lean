import CommandScript.Proofs.Running.Script
import CommandScript.Proofs.Running.Specs

/-! # What a run prints and notes

A run with echo commands prints a line for each command that answers, and the log names its program.
A report of a fault holds a colon. The lines of commands given by specs do not, for a colon ends the
name in a spec and the arguments are decimal.
-/

namespace CommandScript

/-! ## The log -/

def Event.program? : Event → Option Program
  | .parsed p => some p
  | _ => none

/-- The programs in the log. A program is noted when its run is about to begin. -/
def World.programs (w : World) : List Program := w.log.toList.filterMap Event.program?

theorem World.note_programs (event : Event) (w : World) :
    (w.note event).programs = w.programs ++ event.program?.toList := by
  rw [programs, note, Array.toList_push, List.filterMap_append]
  cases event <;> rfl

theorem Event.OfRun.program? {event : Event} (h : event.OfRun) : event.program? = none := by
  cases h <;> rfl

/-! ## What echo commands print -/

/-- The line that a command prints; none if no command answers. -/
def Registry.echoed (registry : Registry) (call : String × List String) : String :=
  match registry.find? call.1 with
  | none => ""
  | some c => Command.echoLine c.name call.2

/-- What happened between two worlds: these programs were noted, and these commands were dispatched
with decimal arguments and printed their lines. -/
structure World.Advances (registry : Registry) (programs : List Program)
    (calls : List (String × List String)) (w w' : World) : Prop where
  programs : w'.programs = w.programs ++ programs
  dispatched : w'.dispatched.toList = w.dispatched.toList ++ calls
  output : w'.output = w.output ++ String.join (calls.map registry.echoed)
  decimal : ∀ call ∈ calls, ∀ text ∈ call.2, ∃ n, Text.decimal? n = some text

section

variable {registry : Registry} {ps qs : List Program}
  {calls more : List (String × List String)} {w w' w'' : World}

namespace World.Advances

theorem refl (w : World) : Advances registry [] [] w w := by
  constructor <;> simp

theorem trans (h : Advances registry ps calls w w') (h' : Advances registry qs more w' w'') :
    Advances registry (ps ++ qs) (calls ++ more) w w'' where
  programs := by rw [h'.programs, h.programs, List.append_assoc]
  dispatched := by rw [h'.dispatched, h.dispatched, List.append_assoc]
  output := by
    rw [h'.output, h.output, List.map_append, String.join_append, String.append_assoc]
  decimal := List.forall_mem_append.mpr ⟨h.decimal, h'.decimal⟩

theorem note (event : Event) (w : World) :
    Advances registry event.program?.toList [] w (w.note event) where
  programs := w.note_programs event
  dispatched := by simp
  output := by simp
  decimal := by simp

theorem answer {name : String} {args : List String}
    (ht : ∀ text ∈ args, ∃ n, Text.decimal? n = some text) (w : World) :
    Advances registry [] [(name, args)] w (registry.answer name args w) where
  programs := by
    unfold Registry.answer
    cases registry.find? name with
    | none => exact (List.append_nil _).symm
    | some c => exact (w.record name args).note_programs (.dispatching c.name args)
  dispatched := by simp
  output := by
    unfold Registry.answer Registry.echoed
    cases hf : registry.find? name with
    | none => simp [World.record, hf]
    | some c => simp [World.record, World.write, hf]
  decimal := by simpa using ht

end World.Advances

theorem advances_contract (he : registry.Echoes) (levels : Nat) :
    Contract (registry.hostWithin levels) (fun _ => True) (fun _ => True)
      fun f g => ∃ calls, World.Advances registry [] calls f.world g.world where
  refl f := ⟨[], .refl _⟩
  trans := by
    rintro f g k ⟨calls, h⟩ ⟨more, h'⟩
    exact ⟨calls ++ more, h.trans h'⟩
  block _ _ _ := trivial
  conditional _ := trivial
  loop _ := trivial
  method _ _ := trivial
  assign {f} name n _ := by
    refine ⟨trivial, [], ?_⟩
    unfold Frame.assign
    split <;> exact .refl _
  define _ _ := ⟨trivial, [], .refl _⟩
  note {f event} ho _ := by
    have hn : World.Advances registry event.program?.toList [] f.world (f.world.note event) :=
      .note event f.world
    rw [ho.program?] at hn
    rw [Registry.hostWithin_note]
    exact ⟨trivial, [], hn⟩
  dispatch {f calls name args s _ _ _} _ ht hx := by
    have hs : s.world = registry.answer name args f.world := by
      rw [Registry.hostWithin_dispatch_eq he] at hx
      split at hx
      · rcases hx with ⟨⟨⟩⟩ | ⟨h, ⟨⟩⟩
        rfl
      · rcases hx with ⟨⟨⟩⟩ | ⟨h, ⟨⟩⟩
        rfl
    exact ⟨trivial, [(name, args)], hs ▸ .answer (evalTexts_decimal ht) f.world⟩
  enter _ _ := trivial
  leave _ _ h := ⟨trivial, h⟩

theorem runStatement_advances (he : registry.Echoes) (levels : Nat) (file : Option String)
    (rounds depth : Nat) (t : Stmt) (s : State World) :
    ∃ calls, World.Advances registry [] calls s.world
      (lastState (runStatement (registry.hostWithin levels) file rounds depth t s)).world := by
  have hk := (advances_contract he levels).exec file rounds depth (s := t)
    (f := { toState := s }) trivial trivial
  rw [lastState_runStatement]
  exact (Run.keeps_iff.mp hk).2

theorem settle_advances (levels : Nat) (file : Option String)
    (r : EStateM.Result Halt (State World) Unit) :
    World.Advances registry [] [] (lastState r).world
      (lastState (settle (registry.hostWithin levels) file r)).world := by
  have hn : ∀ f w, World.Advances registry [] [] w
      ((registry.hostWithin levels).note (.failed f) w) := by
    intro f w
    rw [Registry.hostWithin_note]
    exact .note (.failed f) w
  unfold settle
  split
  · exact hn _ _
  · exact hn _ _
  · exact .refl _

/-- A script that parses is noted and run, and one that does not leaves no trace. -/
theorem execute_advances (he : registry.Echoes) (file : Option String) (script : String)
    (s : State World) :
    ∃ calls, World.Advances registry (parse file script).toOption.toList calls s.world
      (lastState (execute registry.host file script s)).world := by
  cases hp : parse file script with
  | error h =>
    refine ⟨[], ?_⟩
    rw [execute, executeWithin_unparsed hp]
    exact settle_advances _ file (.error h s)
  | ok p =>
    obtain ⟨calls, hr⟩ := runStatement_advances he Registry.scriptLevels file roundLimit stackLimit
      (.block p) { s with world := s.world.note (.parsed p) }
    refine ⟨calls, ?_⟩
    rw [execute, executeWithin_parsed hp, Registry.host, Registry.hostWithin_note]
    have hn : World.Advances registry [p] [] s.world (s.world.note (.parsed p)) :=
      .note (.parsed p) s.world
    have h := (hn.trans hr).trans (settle_advances Registry.scriptLevels file _)
    rwa [List.append_nil, List.append_nil, List.nil_append, List.append_nil] at h

end

/-! ## Colons -/

/-- No colon is in the text. -/
def Text.Colonless (text : String) : Prop := ':' ∉ text.toList

namespace Text.Colonless

instance (text : String) : Decidable (Colonless text) :=
  inferInstanceAs (Decidable (':' ∉ text.toList))

theorem append {a b : String} (ha : Colonless a) (hb : Colonless b) : Colonless (a ++ b) := by
  rw [Colonless, String.toList_append, List.mem_append]
  exact not_or.mpr ⟨ha, hb⟩

theorem join {texts : List String} (h : ∀ text ∈ texts, Colonless text) :
    Colonless (String.join texts) := by
  rw [Colonless, String.toList_join, List.mem_flatMap]
  rintro ⟨text, hm, hc⟩
  exact h text hm hc

theorem intercalate {separator : String} {texts : List String} (hs : Colonless separator)
    (h : ∀ text ∈ texts, Colonless text) : Colonless (separator.intercalate texts) := by
  induction texts with
  | nil => exact List.not_mem_nil
  | cons text texts ih =>
    obtain ⟨ht, hts⟩ := List.forall_mem_cons.mp h
    cases texts with
    | nil => exact ht
    | cons next texts =>
      rw [String.intercalate_cons_cons]
      exact (ht.append hs).append (ih hts)

theorem decimal {n : Int} {text : String} (h : Text.decimal? n = some text) : Colonless text := by
  obtain ⟨ds, hd, ht⟩ := isDecimal_repr n
  have hr : n.repr = text := by
    unfold decimal? at h
    split at h
    · exact Option.some.inj h
    · cases h
  rw [← hr, Colonless, ht, List.mem_append, not_or]
  constructor
  · split <;> decide
  · intro hc
    exact absurd (hd.isNumeral.2 _ hc) (by decide)

theorem echoLine {name : String} {args : List String} (hn : Colonless name)
    (ha : ∀ text ∈ args, ∃ n, Text.decimal? n = some text) :
    Colonless (Command.echoLine name args) := by
  refine (intercalate (by decide) ?_).append (by decide)
  refine List.forall_mem_cons.mpr ⟨hn, fun text ht => ?_⟩
  obtain ⟨n, hd⟩ := ha text ht
  exact decimal hd

end Text.Colonless

/-- The report of the fault stands in the text, as a line or at the end of one. -/
def Fault.ReportedIn (f : Fault) (text : String) : Prop :=
  (f.report ++ "\n").toList <:+: text.toList

theorem Fault.ReportedIn.colon {f : Fault} {text : String} (h : f.ReportedIn text) :
    ¬ Text.Colonless text := by
  intro hc
  apply hc
  apply h.subset
  simp [report]

theorem Fault.reportedIn_append (f : Fault) (text : String) :
    f.ReportedIn (text ++ (f.report ++ "\n")) :=
  ⟨text.toList, [], by simp⟩

theorem Fault.ReportedIn.append {f : Fault} {text : String} (h : f.ReportedIn text)
    (more : String) : f.ReportedIn (text ++ more) := by
  have hp : text.toList <+: (text ++ more).toList := by simp
  exact h.trans hp.isInfix

/-! ## Commands by spec -/

theorem Command.ofSpec?_colonless {spec : String} {c : Command} (h : ofSpec? spec = some c) :
    Text.Colonless c.name := by
  obtain ⟨title, aliases, hf⟩ := exists_fields spec
  rw [ofSpec?_eq hf] at h
  split at h
  · cases h
  · cases h
    exact hf.bare title (by simp)

/-- The commands of the registry echo, and no colon is in their names. -/
structure Registry.FromSpecs (registry : Registry) : Prop where
  echoes : registry.Echoes
  colonless : ∀ c ∈ registry, Text.Colonless c.name

theorem CommandLine.register_fromSpecs {specs : List (Option String)} {registry : Registry}
    {w w' : World} (h : register specs [] w = .ok (registry, w')) : registry.FromSpecs where
  echoes := register_echoes h (by simp [Registry.Echoes])
  colonless := register_forall Command.ofSpec?_colonless h (by simp)

theorem CommandLine.register_advances {specs : List (Option String)}
    {registry registry' : Registry} {w w' : World}
    (h : register specs registry w = .ok (registry', w')) (any : Registry) :
    World.Advances any [] [] w w' := by
  induction specs generalizing registry w with
  | nil =>
    cases h
    exact .refl _
  | cons spec specs ih =>
    unfold register at h
    split at h
    · cases h
    · next c _ => exact (World.Advances.note (.registered c.name) w).trans (ih h)

section

variable {registry : Registry}

theorem World.Advances.colonless (hr : registry.FromSpecs) {ps : List Program}
    {calls : List (String × List String)} {w w' : World} (h : Advances registry ps calls w w') :
    Text.Colonless (String.join (calls.map registry.echoed)) := by
  apply Text.Colonless.join
  intro line hl
  obtain ⟨⟨name, args⟩, hm, rfl⟩ := List.mem_map.mp hl
  unfold Registry.echoed
  split
  · exact List.not_mem_nil
  · next c hf => exact .echoLine (hr.colonless c (List.mem_of_find?_eq_some hf)) (h.decimal _ hm)

/-- A script prints no colon, whether it ends well or stops. -/
theorem execute_prints (hr : registry.FromSpecs) (file : Option String) (script : String)
    (s : State World) : ∃ text, Text.Colonless text ∧
      (lastState (execute registry.host file script s)).world.output = s.world.output ++ text := by
  obtain ⟨calls, h⟩ := execute_advances hr.echoes file script s
  exact ⟨_, h.colonless hr, h.output⟩

end

end CommandScript
