import CommandScript.CommandLine
import CommandScript.Proofs.Running.Evaluation
import CommandScript.Proofs.Running.Reach
import CommandScript.Proofs.Running.Simulation

/-! # Echo commands

A command given by a spec writes a line and does nothing else. It leaves the context alone, and a
run with such commands stops neither in the middle of a text nor for want of one.
-/

namespace CommandScript

/-- Every command of the registry echoes. -/
def Registry.Echoes (registry : Registry) : Prop := ∀ c ∈ registry, c.action = .echo

/-- The worlds have seen the same commands. -/
def World.Agrees (w w' : World) : Prop := w.dispatched = w'.dispatched

@[simp] theorem World.note_dispatched (event : Event) (w : World) :
    (w.note event).dispatched = w.dispatched := rfl

@[simp] theorem World.note_output (event : Event) (w : World) :
    (w.note event).output = w.output := rfl

@[simp] theorem World.write_dispatched (w : World) (text : String) :
    (w.write text).dispatched = w.dispatched := rfl

theorem Command.ofSpec?_echo {spec : String} {c : Command} (h : ofSpec? spec = some c) :
    c.action = .echo := by
  unfold ofSpec? at h
  split at h
  · split at h
    · cases h
    · cases h
      rfl
  · cases h

theorem CommandLine.register_forall {P : Command → Prop}
    (hP : ∀ {spec c}, Command.ofSpec? spec = some c → P c) {specs : List (Option String)}
    {registry registry' : Registry} {w w' : World}
    (h : register specs registry w = .ok (registry', w')) (hr : ∀ c ∈ registry, P c) :
    ∀ c ∈ registry', P c := by
  induction specs generalizing registry w with
  | nil =>
    cases h
    exact hr
  | cons spec specs ih =>
    unfold register at h
    split at h
    · cases h
    next command hc =>
    obtain ⟨text, -, ht⟩ := Option.bind_eq_some_iff.mp hc
    apply ih h
    intro c hm
    rcases List.mem_append.mp hm with hm | hm
    · exact hr c hm
    · rw [List.mem_singleton.mp hm]
      exact hP ht

theorem CommandLine.register_echoes {specs : List (Option String)} {registry registry' : Registry}
    {w w' : World} (h : register specs registry w = .ok (registry', w'))
    (he : registry.Echoes) : registry'.Echoes :=
  register_forall Command.ofSpec?_echo h he

namespace Registry

variable {registry registry' : Registry}

theorem find?_echo (he : registry.Echoes) {name : String} {c : Command}
    (h : registry.find? name = some c) : c.action = .echo :=
  he c (List.mem_of_find?_eq_some h)

/-- The world after a dispatch: it is recorded, and the command that answers writes its line. -/
def answer (registry : Registry) (name : String) (args : List String) (w : World) : World :=
  match registry.find? name with
  | none => w.record name args
  | some c =>
    ((w.record name args).note (.dispatching c.name args)).write (Command.echoLine c.name args)

@[simp] theorem answer_dispatched (name : String) (args : List String) (w : World) :
    (registry.answer name args w).dispatched = w.dispatched.push (name, args) := by
  unfold answer
  cases registry.find? name <;> simp [World.record]

theorem answer_output {name : String} {c : Command} (h : registry.find? name = some c)
    (args : List String) (w : World) :
    (registry.answer name args w).output = w.output ++ Command.echoLine c.name args := by
  simp [answer, h, World.write, World.record]

section

variable {runScript : Option String → String → Job Unit} {name : String} (args : List String)
  (s : State World)

theorem dispatch_unknown (h : registry.find? name = none) :
    registry.dispatch runScript name args s =
      .error (.fault { cause := .unknownCommand name })
        ⟨s.context, s.world.record name args⟩ := by
  unfold dispatch
  rw [bind_ok (modify_apply _ _), h]
  rfl

theorem dispatch_echo {c : Command} (h : registry.find? name = some c) (ha : c.action = .echo) :
    registry.dispatch runScript name args s =
      .ok () ⟨s.context, registry.answer name args s.world⟩ := by
  unfold dispatch answer
  rw [bind_ok (modify_apply _ _), h]
  dsimp only
  rw [bind_ok (modify_apply _ _), ha]
  rfl

theorem hostWithin_dispatch_run (registry : Registry) (levels calls : Nat) :
    ∃ runScript, (registry.hostWithin levels).dispatch calls = registry.dispatch runScript := by
  cases levels with
  | zero => exact ⟨_, rfl⟩
  | succ levels => exact ⟨_, rfl⟩

theorem hostWithin_dispatch_unknown (h : registry.find? name = none) (levels calls : Nat) :
    (registry.hostWithin levels).dispatch calls name args s =
      .error (.fault { cause := .unknownCommand name })
        ⟨s.context, s.world.record name args⟩ := by
  obtain ⟨runScript, hr⟩ := hostWithin_dispatch_run registry levels calls
  rw [hr, dispatch_unknown args s h]

theorem hostWithin_dispatch_echo {c : Command} (h : registry.find? name = some c)
    (ha : c.action = .echo) (levels calls : Nat) :
    (registry.hostWithin levels).dispatch calls name args s =
      .ok () ⟨s.context, registry.answer name args s.world⟩ := by
  obtain ⟨runScript, hr⟩ := hostWithin_dispatch_run registry levels calls
  rw [hr, dispatch_echo args s h ha]

end

theorem hostWithin_dispatch_eq (he : registry.Echoes) (levels calls : Nat) (name : String)
    (args : List String) (c : Context) (w : World) :
    (registry.hostWithin levels).dispatch calls name args ⟨c, w⟩ =
      if (registry.find? name).isSome then .ok () ⟨c, registry.answer name args w⟩
      else .error (.fault { cause := .unknownCommand name }) ⟨c, registry.answer name args w⟩ := by
  cases hf : registry.find? name with
  | none =>
    rw [hostWithin_dispatch_unknown args _ hf, answer, hf]
    rfl
  | some command => exact hostWithin_dispatch_echo args _ hf (find?_echo he hf) levels calls

theorem hostWithin_unknown_iff (he : registry.Echoes) (levels calls : Nat) (name : String)
    (args : List String) (s : State World) :
    (∃ after, (registry.hostWithin levels).dispatch calls name args s =
        .error (.fault { cause := .unknownCommand name }) after ∧
      after.world.output = s.world.output) ↔ registry.find? name = none := by
  constructor
  · rintro ⟨after, hd, -⟩
    cases hf : registry.find? name with
    | none => rfl
    | some c =>
      rw [hostWithin_dispatch_echo args s hf (find?_echo he hf)] at hd
      cases hd
  · intro hf
    exact ⟨_, hostWithin_dispatch_unknown args s hf levels calls, rfl⟩

/-- A dispatch is recorded, and keeps the context whether a command answers or not. -/
theorem hostWithin_dispatch (he : registry.Echoes) (levels calls : Nat) (name : String)
    (args : List String) (c : Context) (w : World) :
    ∃ v, v.dispatched = w.dispatched.push (name, args) ∧
      (registry.hostWithin levels).dispatch calls name args ⟨c, w⟩ =
        if (registry.find? name).isSome then .ok () ⟨c, v⟩
        else .error (.fault { cause := .unknownCommand name }) ⟨c, v⟩ :=
  ⟨_, answer_dispatched name args w, hostWithin_dispatch_eq he levels calls name args c w⟩

theorem hostWithin_note (levels : Nat) : (registry.hostWithin levels).note = World.note := by
  cases levels <;> rfl

/-- Echo commands go the same way in all contexts. -/
theorem hostWithin_respects (he : registry.Echoes) (levels : Nat) :
    (registry.hostWithin levels).Respects World.Agrees := by
  constructor
  · intro event w w' hw
    rw [hostWithin_note, World.Agrees, World.note_dispatched, World.note_dispatched, hw]
  · intro calls name args c c' w w' hw
    obtain ⟨v, hv, hd⟩ := hostWithin_dispatch he levels calls name args c w
    obtain ⟨v', hv', hd'⟩ := hostWithin_dispatch he levels calls name args c' w'
    refine ⟨v, v', ?_, ?_⟩
    · rw [World.Agrees, hv, hv', hw]
    · split at hd
      · next ha => exact Or.inl ⟨hd, by rw [hd', if_pos ha]⟩
      · next ha => exact Or.inr ⟨_, hd, by rw [hd', if_neg ha]⟩

end Registry

/-! ## Faults of a run -/

/-- The halt does not ask for more text. -/
def Halt.Final (h : Halt) : Prop := ∀ f, h = .fault f → f.incomplete = false

/-- The halt is no fault of the text. -/
def Halt.Dynamic (h : Halt) : Prop := ∀ f, h = .fault f → f.cause.kind ≠ .malformed

theorem Halt.Dynamic.final {h : Halt} (hd : h.Dynamic) : h.Final := by
  rintro ⟨cause, line, file⟩ hf
  cases cause with
  | malformed => exact absurd rfl (hd _ hf)
  | _ => rfl

theorem EvalHalt.dynamic {site : Site} {h : Halt} (hh : EvalHalt site h) : h.Dynamic := by
  intro f hf
  cases hh with
  | overflow => cases hf
  | integerText => cases hf
  | unreachable => cases hf
  | _ => cases hf; exact FaultKind.noConfusion

variable {file : Option String} {rounds depth : Nat} {s : Stmt} {h : Halt}

theorem Stops.dynamic {ω : Type} {host : Host ω} {f : Frame ω}
    (hs : Stops host file rounds depth s f h) : h.Dynamic := by
  cases hs with
  | overflow => exact fun _ hf => nomatch hf
  | condition he => exact (evalBool_raises _ _ _ he).dynamic
  | test _ _ he => exact (evalBool_raises _ _ _ he).dynamic
  | endless => exact fun _ hf => nomatch hf
  | value he => exact (evalInt_raises _ _ _ he).dynamic
  | invocation => exact fun _ hf => nomatch hf
  | unresolved =>
    rintro _ ⟨⟩
    exact FaultKind.noConfusion
  | arguments _ he => exact (bindArguments_raises _ _ _ _ he).dynamic
  | texts he => exact (evalTexts_raises _ _ _ he).dynamic
  | misplaced d tree =>
    have ht : EvalHalt ⟨none, none⟩ (tree.outOfPlace d) := tree.outOfPlace_evalHalt d
    exact ht.dynamic

theorem exec_dynamic {registry : Registry} (he : registry.Echoes) {levels : Nat}
    {f g : Frame World}
    (hx : exec (registry.hostWithin levels) file rounds depth s f = .error h g) : h.Dynamic := by
  obtain ⟨d, t, k, -, hs | hs⟩ := exists_stop hx
  · exact hs.dynamic
  · obtain ⟨-, hd⟩ := hs
    obtain ⟨v, -, hv⟩ := Registry.hostWithin_dispatch he levels _ _ _ k.context k.world
    rw [hv] at hd
    split at hd
    · cases hd
    · cases hd
      rintro _ ⟨⟩
      exact FaultKind.noConfusion

end CommandScript
