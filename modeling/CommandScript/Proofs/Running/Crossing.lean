import CommandScript.Proofs.Location
import CommandScript.Proofs.Running.Script
import CommandScript.Proofs.Running.Typing

/-! # Faults that cross nested commands

A command may run a script, and the commands of that script may run scripts of their own. The fault
that ends the outermost script arose somewhere further in. On its way out every command that it
leaves tries to locate it, the innermost first, and nothing else happens to it. So it keeps the
innermost line.
-/

namespace CommandScript

/-! ## The end of one script -/

section

variable {ω : Type} (host : Host ω) (calls : Nat) (file : Option String) (script : String)
  (s : State ω)

/-- The script parses, and its run reaches the statement. -/
def ScriptReaches (depth : Nat) (t : Stmt) (f : Frame ω) : Prop :=
  ∃ p, parseWithin calls file script = .ok p ∧
    Reaches host file roundLimit calls (.block p)
      { context := s.context, world := host.note (.parsed p) s.world } depth t f

/-- What ends the script is not the end of a command: its text is refused, or one of its statements
stops by itself. -/
inductive StopsItself : Halt → Prop where
  | refused {h : Halt} : parseWithin calls file script = .error h → StopsItself h
  | statement {depth : Nat} {t : Stmt} {f : Frame ω} {h : Halt} :
      ScriptReaches host calls file script s depth t f →
      Stops host file roundLimit depth t f h → StopsItself h

/-- The script dispatches the command from this line, with so many calls at most. -/
inductive Dispatches : Int → Nat → String → List String → State ω → Prop where
  | mk {depth : Nat} {x : String} {args : List Expr} {line : Int} {texts : List String}
      {f : Frame ω} : ScriptReaches host calls file script s (depth + 1) (.command x args line) f →
      args.mapM (evalText ⟨some line, file⟩ f.active depth) = .ok texts →
      Dispatches line depth x texts f.toState

/-- What ends the script came out of a command that it dispatched, and was located there. -/
inductive ComesOut : Halt → Prop where
  | mk {depth : Nat} {x : String} {line : Int} {texts : List String} {t : State ω} {h : Halt} :
      Dispatches host calls file script s line depth x texts t →
      failure? (host.dispatch depth x texts t) = some h → ComesOut (h.locate ⟨some line, file⟩)

variable {host calls file script s} {h : Halt} {p : Program}

theorem runStatement_stops_iff (hp : parseWithin calls file script = .ok p) :
    failure? (runStatement host file roundLimit calls (.block p)
        { s with world := host.note (.parsed p) s.world }) = some h ↔
      StopsItself host calls file script s h ∨ ComesOut host calls file script s h := by
  rw [failure?_eq_some, runStatement_eq_error, exec_eq_error_iff]
  constructor
  · rintro ⟨depth, t, f, hr, hs | ⟨ht, hd⟩⟩
    · exact Or.inl (.statement ⟨p, hp, hr⟩ hs)
    · exact Or.inr (.mk (.mk ⟨p, hp, hr⟩ ht) (failure?_eq_some.mpr ⟨_, hd⟩))
  · rintro ((hr | ⟨⟨q, hq, hr⟩, hs⟩) | ⟨⟨⟨q, hq, hr⟩, ht⟩, hd⟩)
    · cases hp.symm.trans hr
    · cases hp.symm.trans hq
      exact ⟨_, _, _, hr, Or.inl hs⟩
    · cases hp.symm.trans hq
      obtain ⟨t, hd⟩ := failure?_eq_some.mp hd
      exact ⟨_, _, _, hr, Or.inr (.mk ht hd)⟩

theorem executeWithin_ends_iff {h' : Halt} :
    failure? (executeWithin host calls file script s) = some h' ↔
      ∃ h, (StopsItself host calls file script s h ∨ ComesOut host calls file script s h) ∧
        h.settled file = h' := by
  cases hp : parseWithin calls file script with
  | ok p =>
    rw [executeWithin_parsed hp, failure?_settle, Option.map_eq_some_iff]
    simp only [runStatement_stops_iff hp]
  | error e =>
    rw [executeWithin_unparsed hp, failure?_settle]
    constructor
    · intro he
      exact ⟨e, Or.inl (.refused hp), Option.some.inj he⟩
    · rintro ⟨h, (hr | ⟨⟨p, hq, -⟩, -⟩) | ⟨⟨⟨p, hq, -⟩, -⟩, -⟩, rfl⟩
      · cases hp.symm.trans hr
        rfl
      all_goals cases hp.symm.trans hq

end

/-! ## The end of a command -/

/-- The halt of a command as the dispatcher passes it on. -/
def Halt.guarded (x : String) : Halt → Halt
  | .fault f => .fault f
  | .endless => .endless
  | h => .fault { cause := .commandFailed x h.text }

theorem Halt.guarded_eq_fault_iff {x : String} {h : Halt} {f : Fault} :
    h.guarded x = .fault f ↔
      h = .fault f ∨ (∀ f, h ≠ .fault f) ∧ h ≠ .endless ∧
        f = { cause := .commandFailed x h.text } := by
  cases h <;> simp [guarded, eq_comm]

namespace Job

/-- The state in which the script of a command starts: the shared context goes on, or the script
gets one of its own. -/
def scriptStart : Bool → State World → State World
  | true, s =>
    match s.world.aside with
    | none => s
    | some shared => { context := shared, world := { s.world with aside := none } }
  | false, s =>
    { context := {}, world := { s.world with aside := some (s.world.aside.getD s.context) } }

variable (job : Job Unit) (s : State World)

theorem failure?_inOwnContext :
    failure? (inOwnContext job s) = failure? (job (scriptStart false s)) := by
  unfold inOwnContext
  dsimp only
  split
  · next h => rw [scriptStart, h]; rfl
  · next h => rw [scriptStart, h]; rfl

theorem failure?_inSharedContext :
    failure? (inSharedContext job s) = failure? (job (scriptStart true s)) := by
  unfold inSharedContext
  cases ha : s.world.aside with
  | none => simp only [scriptStart, ha]
  | some shared =>
    simp only [scriptStart, ha]
    split
    · next h => rw [h]; rfl
    · next h => rw [h]; rfl

theorem failure?_guarded (x : String) :
    failure? (guarded x job s) = (failure? (job s)).map (Halt.guarded x) := by
  unfold guarded
  cases job s with
  | ok _ _ => rfl
  | error h _ => cases h <;> rfl

end Job

theorem Action.failure?_perform_script (runScript : Option String → String → Job Unit)
    (called name : String) (args : List String) (text : String) (file : Option String)
    (shared : Bool) (s : State World) :
    failure? ((Action.script text file shared).perform runScript called name args s) =
      failure? (runScript file text (Job.scriptStart shared s)) := by
  have hw : ∀ job : Job Unit, failure? ((do job; Job.write (Command.successLine name [])) s) =
      failure? (job s) := by
    intro job
    rw [bind_apply]
    cases job s <;> rfl
  cases shared with
  | true => exact (hw _).trans (Job.failure?_inSharedContext _ s)
  | false => exact (hw _).trans (Job.failure?_inOwnContext _ s)

namespace Registry

variable {registry : Registry} {runScript : Option String → String → Job Unit} {x : String}
  {texts : List String} {s : State World} {f : Fault}

/-- The state in which the command starts that answers to the name. -/
def entry (c : Command) (x : String) (texts : List String) (s : State World) : State World :=
  { s with world := (s.world.record x texts).note (.dispatching c.name texts) }

theorem dispatch_known {c : Command} (h : registry.find? x = some c) :
    registry.dispatch runScript x texts s =
      Job.guarded x (c.action.perform runScript x c.name texts) (entry c x texts s) := by
  unfold dispatch
  rw [bind_ok (modify_apply _ _), h]
  exact bind_ok (modify_apply _ _)

/-- The command raises the fault itself, which does not come out of a script that it runs: no
command answers to the name, or it ends with an error that is no fault, or it runs no script. -/
inductive RaisesItself (registry : Registry) (runScript : Option String → String → Job Unit)
    (x : String) (texts : List String) (s : State World) : Fault → Prop where
  | unknown : registry.find? x = none →
      RaisesItself registry runScript x texts s { cause := .unknownCommand x }
  | failed {c : Command} {h : Halt} : registry.find? x = some c →
      failure? (c.action.perform runScript x c.name texts (entry c x texts s)) = some h →
      (∀ f, h ≠ .fault f) → h ≠ .endless →
      RaisesItself registry runScript x texts s { cause := .commandFailed x h.text }
  | raised {c : Command} {f : Fault} : registry.find? x = some c →
      (∀ text file shared, c.action ≠ .script text file shared) →
      failure? (c.action.perform runScript x c.name texts (entry c x texts s)) =
        some (.fault f) →
      RaisesItself registry runScript x texts s f

/-- The script with which the command starts ends with the fault. -/
def ScriptRaises (registry : Registry) (runScript : Option String → String → Job Unit)
    (x : String) (texts : List String) (s : State World) (f : Fault) : Prop :=
  ∃ c text file shared, registry.find? x = some c ∧ c.action = .script text file shared ∧
    failure? (runScript file text (Job.scriptStart shared (entry c x texts s))) =
      some (.fault f)

theorem dispatch_fault_iff :
    failure? (registry.dispatch runScript x texts s) = some (.fault f) ↔
      registry.RaisesItself runScript x texts s f ∨
        registry.ScriptRaises runScript x texts s f := by
  cases hf : registry.find? x with
  | none =>
    rw [dispatch_unknown texts s hf]
    constructor
    · rintro ⟨⟩
      exact Or.inl (.unknown hf)
    · rintro ((- | ⟨hc, -⟩ | ⟨hc, -⟩) | ⟨_, _, _, _, hc, -⟩)
      · rfl
      all_goals cases hf.symm.trans hc
  | some c =>
    rw [dispatch_known hf, Job.failure?_guarded, Option.map_eq_some_iff]
    constructor
    · rintro ⟨h, hj, hg⟩
      rcases Halt.guarded_eq_fault_iff.mp hg with rfl | ⟨hn, he, rfl⟩
      · cases ha : c.action with
        | script text file shared =>
          rw [ha, Action.failure?_perform_script] at hj
          exact Or.inr ⟨c, text, file, shared, hf, ha, hj⟩
        | _ => exact Or.inl (.raised hf (by simp [ha]) hj)
      · exact Or.inl (.failed hf hj hn he)
    · rintro ((hc | @⟨c', h, hc, hj, hn, he⟩ | @⟨c', f, hc, -, hj⟩) |
        ⟨c', text, file, shared, hc, ha, hj⟩)
      · cases hf.symm.trans hc
      · cases hf.symm.trans hc
        exact ⟨h, hj, Halt.guarded_eq_fault_iff.mpr (Or.inr ⟨hn, he, rfl⟩)⟩
      · cases hf.symm.trans hc
        exact ⟨_, hj, rfl⟩
      · cases hf.symm.trans hc
        rw [ha, Action.failure?_perform_script]
        exact ⟨_, hj, rfl⟩

theorem hostWithin_dispatch_stops {levels calls : Nat} {h : Halt}
    (hx : failure? ((registry.hostWithin levels).dispatch calls x texts s) = some h) :
    h = .endless ∨ ∃ f, h = .fault f := by
  obtain ⟨runScript, hr⟩ := hostWithin_dispatch_run registry levels calls
  rw [hr] at hx
  cases hf : registry.find? x with
  | none =>
    rw [dispatch_unknown texts s hf] at hx
    cases hx
    exact Or.inr ⟨_, rfl⟩
  | some c =>
    rw [dispatch_known hf, Job.failure?_guarded, Option.map_eq_some_iff] at hx
    obtain ⟨h', -, rfl⟩ := hx
    cases h' with
    | endless => exact Or.inl rfl
    | _ => exact Or.inr ⟨_, rfl⟩

/-! ## From script to script -/

variable {levels calls : Nat} {file : Option String} {script : String} {g : Fault}

/-- How the commands of a host run their scripts, with so many levels of them. -/
def runner (registry : Registry) : Nat → Nat → Option String → String → Job Unit
  | 0, _ => fun file _ => throw (.fault ⟨.recursionLimit, none, file⟩)
  | levels + 1, calls => executeWithin (registry.hostWithin levels) (calls - callsPerScript)

theorem hostWithin_dispatch_eq_runner (registry : Registry) (levels calls : Nat) :
    (registry.hostWithin levels).dispatch calls =
      registry.dispatch (registry.runner levels calls) := by
  cases levels <;> rfl

/-- A script ends with a fault that it raised itself, or with one that came out of a command and was
located there. -/
theorem executeWithin_fault_iff :
    failure? (executeWithin (registry.hostWithin levels) calls file script s) =
        some (.fault g) ↔
      (∃ h, StopsItself (registry.hostWithin levels) calls file script s h ∧
        h.settled file = .fault g) ∨
      ∃ line depth x texts t f,
        Dispatches (registry.hostWithin levels) calls file script s line depth x texts t ∧
        (registry.RaisesItself (registry.runner levels depth) x texts t f ∨
          registry.ScriptRaises (registry.runner levels depth) x texts t f) ∧
        g = f.locate (some line) file := by
  rw [executeWithin_ends_iff]
  constructor
  · rintro ⟨h, hs | @⟨depth, x, line, texts, t, k, hd, hx⟩, hg⟩
    · exact Or.inl ⟨h, hs, hg⟩
    · rcases hostWithin_dispatch_stops hx with rfl | ⟨f, rfl⟩
      · cases hg
      · cases hg
        rw [hostWithin_dispatch_eq_runner] at hx
        exact Or.inr ⟨line, depth, x, texts, t, f, hd, dispatch_fault_iff.mp hx, rfl⟩
  · rintro (⟨h, hs, hg⟩ | ⟨line, depth, x, texts, t, f, hd, hx, rfl⟩)
    · exact ⟨h, Or.inl hs, hg⟩
    · have hx := dispatch_fault_iff.mpr hx
      rw [← hostWithin_dispatch_eq_runner] at hx
      exact ⟨_, Or.inr (.mk hd hx), rfl⟩

/-- While the script runs, the fault arises in it or further in. It then comes out of the commands
that stand at the sites, the innermost first. -/
inductive Arises (registry : Registry) :
    Nat → Nat → Option String → String → State World → Fault → List Site → Prop where
  /-- The script itself raises the fault. -/
  | script {levels calls : Nat} {file : Option String} {script : String} {s : State World}
      {h : Halt} {f : Fault} :
      StopsItself (registry.hostWithin levels) calls file script s h →
      h.settled file = .fault f → Arises registry levels calls file script s f []
  /-- A command of the script raises the fault. -/
  | command {levels calls depth : Nat} {file : Option String} {script x : String}
      {s t : State World} {line : Int} {texts : List String} {f : Fault} :
      Dispatches (registry.hostWithin levels) calls file script s line depth x texts t →
      registry.RaisesItself (registry.runner levels depth) x texts t f →
      Arises registry levels calls file script s f [⟨some line, file⟩]
  /-- A command of the script would run a script, for which no level is left. -/
  | exhausted {calls depth : Nat} {file inner : Option String} {script x text : String}
      {s t : State World} {line : Int} {texts : List String} {c : Command} {shared : Bool} :
      Dispatches (registry.hostWithin 0) calls file script s line depth x texts t →
      registry.find? x = some c → c.action = .script text inner shared →
      Arises registry 0 calls file script s ⟨.recursionLimit, none, inner⟩ [⟨some line, file⟩]
  /-- The fault arises in a script that a command of the script runs. -/
  | nested {levels calls depth : Nat} {file inner : Option String} {script x text : String}
      {s t : State World} {line : Int} {texts : List String} {c : Command} {shared : Bool}
      {f : Fault} {sites : List Site} :
      Dispatches (registry.hostWithin (levels + 1)) calls file script s line depth x texts t →
      registry.find? x = some c → c.action = .script text inner shared →
      Arises registry levels (depth - callsPerScript) inner text
        (Job.scriptStart shared (entry c x texts t)) f sites →
      Arises registry (levels + 1) calls file script s f (sites ++ [⟨some line, file⟩])

theorem Arises.line_isSome {sites : List Site}
    (h : registry.Arises levels calls file script s f sites) :
    ∀ site ∈ sites, site.line.isSome := by
  induction h with
  | script => simp
  | command => simp
  | exhausted => simp
  | nested _ _ _ _ ih => simpa [or_imp, forall_and] using ih

/-- A script ends with a fault exactly if one arises that becomes it when every command that it
leaves has located it. -/
theorem executeWithin_fault_iff_arises :
    failure? (executeWithin (registry.hostWithin levels) calls file script s) =
        some (.fault g) ↔
      ∃ f sites, registry.Arises levels calls file script s f sites ∧ g = f.locateAll sites := by
  constructor
  · intro hx
    induction levels using Nat.strongRecOn generalizing calls file script s g with
    | ind levels ih =>
      rcases executeWithin_fault_iff.mp hx with ⟨h, hs, hg⟩ |
        ⟨line, depth, x, texts, t, f, hd, hf | ⟨c, text, inner, shared, hc, ha, hf⟩, rfl⟩
      · exact ⟨g, [], .script hs hg, rfl⟩
      · exact ⟨f, _, .command hd hf, rfl⟩
      · cases levels with
        | zero =>
          cases hf
          exact ⟨_, _, .exhausted hd hc ha, rfl⟩
        | succ levels =>
          obtain ⟨f, sites, hi, rfl⟩ := ih levels (Nat.lt_succ_self levels) hf
          exact ⟨f, sites ++ [⟨some line, file⟩], .nested hd hc ha hi,
            (f.locateAll_concat sites ⟨some line, file⟩).symm⟩
  · rintro ⟨f, sites, hf, rfl⟩
    induction hf with
    | script hs hg => exact executeWithin_fault_iff.mpr (Or.inl ⟨_, hs, hg⟩)
    | command hd hf =>
      exact executeWithin_fault_iff.mpr (Or.inr ⟨_, _, _, _, _, _, hd, Or.inl hf, rfl⟩)
    | exhausted hd hc ha =>
      exact executeWithin_fault_iff.mpr
        (Or.inr ⟨_, _, _, _, _, _, hd, Or.inr ⟨_, _, _, _, hc, ha, rfl⟩, rfl⟩)
    | nested hd hc ha _ ih =>
      exact executeWithin_fault_iff.mpr
        (Or.inr ⟨_, _, _, _, _, _, hd, Or.inr ⟨_, _, _, _, hc, ha, ih⟩,
          Fault.locateAll_concat _ _ _⟩)

end Registry

/-! ## The law -/

/-- The first location wins, and the text of a raised fault never falls behind. Whatever a fault is
raised with and however often it is located: its line is the one it was raised with, or else the
first that a call brings; its file is the one it was raised with, or else the first that comes with
a heeded call, which is one that finds no line yet; and its text says all this. Scripts that run
inside one another do nothing else to a fault: what ends a script is a fault that arose in it or
further in, located at the commands it came out of. So it has its own line or that of the innermost
of these commands. -/
theorem first_location_wins :
    (∀ (cause : Cause) (line : Option Int) (file : Option String) (calls : List Site),
      let raised := (Fault.mk cause line file).raise.locateAll calls
      raised.cause = cause ∧
      raised.line = line.or (calls.findSome? (·.line)) ∧
      raised.file = file.or ((heeded line calls).findSome? (·.file)) ∧
      (∀ i, i < (heeded line calls).length ↔ i < calls.length ∧
        ((Fault.mk cause line file).raise.locateAll (calls.take i)).line = none) ∧
      raised.text = cause.reason ++ (raised.line.elim "" fun n => " on line " ++ n.repr) ++
        raised.file.elim "" fun name => " in " ++ name) ∧
    ∀ (registry : Registry) (levels calls : Nat) (file : Option String) (script : String)
        (s : State World) (g : Fault),
      failure? (executeWithin (registry.hostWithin levels) calls file script s) =
          some (.fault g) ↔
        ∃ f sites, registry.Arises levels calls file script s f sites ∧
          g.raise = f.raise.locateAll sites ∧
          g.line = f.line.or (sites.head?.bind (·.line)) := by
  constructor
  · intro cause line file calls
    simp only [Raised.raise_locateAll]
    refine ⟨Fault.cause_locateAll _ _, Fault.line_locateAll _ _, Fault.file_locateAll _ _,
      fun i => Fault.lt_length_heeded_iff ⟨cause, line, file⟩ calls, ?_⟩
    rw [Fault.raise, Fault.message, Fault.cause_locateAll]
  · intro registry levels calls file script s g
    rw [Registry.executeWithin_fault_iff_arises]
    constructor
    · rintro ⟨f, sites, hf, rfl⟩
      refine ⟨f, sites, hf, (Raised.raise_locateAll f sites).symm, ?_⟩
      rw [Fault.line_locateAll, findSome?_line_of_isSome hf.line_isSome]
    · rintro ⟨f, sites, hf, hg, -⟩
      rw [Raised.raise_locateAll] at hg
      exact ⟨f, sites, hf, congrArg Raised.toFault hg⟩

/-- A command that is unknown in the third line of a script of its own. -/
example : failure? (execute (Registry.host
      [{ name := "Nest", action := .script "\n\nSay" (some "b.ase") false }]) (some "a.ase") "Nest"
      ⟨{}, {}⟩) =
    some (.fault ⟨.unknownCommand "Say", some 3, some "b.ase"⟩) := by
  decide +kernel

end CommandScript
