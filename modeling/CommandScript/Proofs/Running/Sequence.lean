import CommandScript.Proofs.Parsing.Places
import CommandScript.Proofs.Running.Commands

/-! # Scripts one after another

A script that goes on below another one runs like the two of them, one after the other. Its lines
are further down and that is all: the same commands are dispatched, and the runs leave the same
variables and methods and end alike.
-/

namespace CommandScript

/-! ## Commands -/

variable {ω α β δ : Type}

namespace Run

theorem eachLog_append (p : α → Run ω Unit) (log : α → Frame ω → List β) (as bs : List α)
    (f : Frame ω) : eachLog p log (as ++ bs) f = eachLog p log as f ++
      match each p as f with
      | .ok _ g => eachLog p log bs g
      | .error _ _ => [] := by
  induction as generalizing f with
  | nil => rfl
  | cons a as ih =>
    rw [List.cons_append, eachLog, eachLog, each_cons, bind_apply, List.append_assoc]
    cases p a f with
    | error h g => rfl
    | ok _ g =>
      dsimp only
      rw [ih]

end Run

section

variable {R : ω → ω → Prop} {b : Prop} {host : Host ω} {file : Option String} {f g : Frame ω}

theorem Run.Alike.cases {r r' : EStateM.Result Halt (Frame ω) α} (h : Alike R b r r') :
    (∃ a f g, r = .ok a f ∧ r' = .ok a g ∧ f.Like R g) ∨
    ∃ h h' f g, r = .error h f ∧ r' = .error h' g ∧ h.Like b h' ∧ f.Like R g := by
  match r, r', h with
  | .ok a f, .ok _ g, ⟨rfl, hl⟩ => exact Or.inl ⟨a, f, g, rfl, rfl, hl⟩
  | .error h f, .error h' g, ⟨hh, hl⟩ => exact Or.inr ⟨h, h', f, g, rfl, rfl, hh, hl⟩

theorem issued_alike (hh : host.Respects R) (rounds depth : Nat) {s s' : Stmt}
    (hs : s.withoutLines = s'.withoutLines) (hl : f.Like R g) :
    issued host file rounds depth s f = issued host file rounds depth s' g :=
  Likeness.issued_like (L := .lineless R True) hh (fun _ => rfl) rounds depth hs
    (Likeness.lineless_frames.mpr hl)

end

/-! ## What a run leaves behind -/

/-- The halt, wherever in the script it came about. -/
def Halt.withoutLine : Halt → Halt
  | .fault f => .fault { f with line := none }
  | h => h

theorem Halt.Like.withoutLine_eq {h h' : Halt} (hh : h.Like True h') :
    h.withoutLine = h'.withoutLine := by
  unfold Like at hh
  split at hh
  · obtain ⟨hc, hf⟩ := hh
    simp only [withoutLine, hc, hf trivial]
  · rw [hh]

theorem Halt.withoutLine_settled (file : Option String) (h : Halt) :
    (h.settled file).withoutLine = h.withoutLine.settled file := by
  cases h <;> rfl

/-- How a run ended, and what it left: the variables, the methods without their lines, and what the
host shows. -/
structure Remains (δ : Type) where
  halt : Option Halt
  globals : Scope
  methods : Table Signature Method
  shown : δ

def State.remains (s : State ω) (view : ω → δ) (halt : Option Halt) : Remains δ where
  halt := halt.map Halt.withoutLine
  globals := s.context.globals
  methods := s.context.withoutLines.methods
  shown := view s.world

def remains (view : ω → δ) : EStateM.Result Halt (State ω) Unit → Remains δ
  | .ok _ s => s.remains view none
  | .error h s => s.remains view (some h)

/-- The commands neither see nor change the context, and what the host shows is all that they go by.
Notes that are taken do not show. -/
structure Host.Unaware (host : Host ω) (view : ω → δ) : Prop
    extends host.Respects fun w w' => view w = view w' where
  unseen : ∀ event w, view (host.note event w) = view w

section

variable {host : Host ω} {view : ω → δ} {file : Option String} {rounds depth calls : Nat}
  {s s' : State ω} {r r' : EStateM.Result Halt (State ω) Unit}

/-- The states differ at most in lines and in what does not show. -/
def State.Like (view : ω → δ) (s s' : State ω) : Prop :=
  s.context.withoutLines = s'.context.withoutLines ∧ view s.world = view s'.world

theorem State.Like.remains_eq (h : s.Like view s') {halt halt' : Option Halt}
    (hh : halt.map Halt.withoutLine = halt'.map Halt.withoutLine) :
    s.remains view halt = s'.remains view halt' := by
  have hg := congrArg Context.globals h.1
  simp only [Context.withoutLines_globals] at hg
  simp only [State.remains, hh, hg, h.1, h.2]

/-- A statement goes the same way from states that are alike, wherever it stands. -/
theorem runStatement_alike (hu : host.Unaware view) (file : Option String) (rounds depth : Nat)
    {t t' : Stmt} (ht : t.withoutLines = t'.withoutLines) (hs : s.Like view s') :
    (∃ s₁ s₂, runStatement host file rounds depth t s = .ok () s₁ ∧
      runStatement host file rounds depth t' s' = .ok () s₂ ∧ s₁.Like view s₂) ∨
    ∃ h h' s₁ s₂, runStatement host file rounds depth t s = .error h s₁ ∧
      runStatement host file rounds depth t' s' = .error h' s₂ ∧
      h.Like True h' ∧ s₁.Like view s₂ := by
  have hl : Frame.Like (fun w w' => view w = view w') { toState := s } { toState := s' } :=
    ⟨hs.1, rfl, hs.2⟩
  have ha : Run.Alike _ True (exec host file rounds depth t { toState := s })
      (exec host file rounds depth t' { toState := s' }) :=
    exec_alike hu.toRespects (fun _ => rfl) rounds depth ht hl
  unfold runStatement
  rcases ha.cases with ⟨_, f, g, hf, hg, hl⟩ | ⟨h, h', f, g, hf, hg, hh, hl⟩
  · rw [hf, hg]
    exact Or.inl ⟨_, _, rfl, rfl, hl.context, hl.world⟩
  · rw [hf, hg]
    exact Or.inr ⟨h, h', _, _, rfl, rfl, hh, hl.context, hl.world⟩

theorem settle_error (hu : host.Unaware view) (file : Option String) (h : Halt) (s : State ω) :
    ∃ w, view w = view s.world ∧
      settle host file (.error h s) = .error (h.settled file) { s with world := w } := by
  cases h with
  | fault f => exact ⟨_, hu.unseen _ _, rfl⟩
  | overflow => exact ⟨_, hu.unseen _ _, rfl⟩
  | _ => exact ⟨s.world, rfl, rfl⟩

theorem remains_settle (hu : host.Unaware view) {h h' : Halt} (hh : h.Like True h')
    (hs : s.Like view s') : remains view (settle host file (.error h s)) =
      remains view (settle host file (.error h' s')) := by
  obtain ⟨w, hw, hx⟩ := settle_error hu file h s
  obtain ⟨w', hw', hx'⟩ := settle_error hu file h' s'
  have hl : State.Like view { s with world := w } { s' with world := w' } :=
    ⟨hs.1, hw.trans (hs.2.trans hw'.symm)⟩
  rw [hx, hx']
  apply hl.remains_eq
  simp only [Option.map_some, Halt.withoutLine_settled, hh.withoutLine_eq]

/-- A script runs alike wherever its statements stand. -/
theorem remains_executeWithin (hu : host.Unaware view) {script : String} {p p' : Program}
    (hp : parseWithin calls file script = .ok p)
    (hl : p.map Stmt.withoutLines = p'.map Stmt.withoutLines) (hs : s.Like view s') :
    remains view (executeWithin host calls file script s) =
      remains view (settle host file (runStatement host file roundLimit calls (.block p') s')) := by
  have hn : State.Like view { s with world := host.note (.parsed p) s.world } s' :=
    ⟨hs.1, (hu.unseen ..).trans hs.2⟩
  have ht : (Stmt.block p).withoutLines = (Stmt.block p').withoutLines := by
    rw [Stmt.withoutLines_block, Stmt.withoutLines_block, hl]
  rw [executeWithin_parsed hp]
  rcases runStatement_alike hu file roundLimit calls ht hn with
    ⟨s₁, s₂, hx, hy, hl⟩ | ⟨h, h', s₁, s₂, hx, hy, hh, hl⟩
  · rw [hx, hy]
    exact hl.remains_eq rfl
  · rw [hx, hy]
    exact remains_settle hu hh hl

theorem issued_append (p q : Program) (s : State ω) :
    issued host file rounds depth (.block (p ++ q)) { toState := s } =
      issued host file rounds depth (.block p) { toState := s } ++
        match runStatement host file rounds depth (.block p) s with
        | .ok _ s' => issued host file rounds depth (.block q) { toState := s' }
        | .error _ _ => [] := by
  cases depth with
  | zero => rfl
  | succ depth =>
    rw [issued_block, issued_block, Run.eachLog_append, runStatement, exec_block]
    cases hp : Run.each (exec host file rounds depth) p { toState := s } with
    | error h g => rfl
    | ok _ g =>
      have hg : g = { toState := g.toState } := by
        obtain ⟨s', locals⟩ := g
        obtain rfl : locals = none := exec_top ((exec_block ..).symm ▸ hp)
        rfl
      dsimp only
      rw [issued_block, ← hg]

/-- The commands that a script dispatches when it is executed. -/
def commands (host : Host ω) (calls : Nat) (file : Option String) (script : String)
    (s : State ω) : List (String × List String) :=
  ((Turn.script host file calls script).visits s).filterMap Visit.command?

theorem commands_parsed {script : String} {p : Program}
    (hp : parseWithin calls file script = .ok p) (s : State ω) :
    commands host calls file script s = issued host file roundLimit calls (.block p)
      { context := s.context, world := host.note (.parsed p) s.world } := by
  rw [commands, Turn.visits_parsed hp]
  rfl

theorem commands_alike (hu : host.Unaware view) {script : String} {p p' : Program}
    (hp : parseWithin calls file script = .ok p)
    (hl : p.map Stmt.withoutLines = p'.map Stmt.withoutLines) (hs : s.Like view s') :
    commands host calls file script s =
      issued host file roundLimit calls (.block p') { toState := s' } := by
  rw [commands_parsed hp]
  apply issued_alike hu.toRespects
  · rw [Stmt.withoutLines_block, Stmt.withoutLines_block, hl]
  · exact ⟨hs.1, rfl, (hu.unseen ..).trans hs.2⟩

/-- Concatenating scripts is sequencing them. The statements of the second come after those of the
first, further down by the lines of the first. Together they run like the first and then, if it
ends well, the second: the same commands are dispatched, and the run ends alike and leaves the same
variables and methods. -/
theorem concatenation_sequences {a b : String} {p q : Program} (hu : host.Unaware view)
    (ha : parseWithin calls file a = .ok p) (hb : parseWithin calls file b = .ok q) :
    parseWithin calls file (a ++ "\n" ++ b) =
      .ok (p ++ q.map (Stmt.shift (1 + a.toList.count '\n'))) ∧
    ∀ s, remains view (executeWithin host calls file (a ++ "\n" ++ b) s) =
        remains view ((do executeWithin host calls file a
                          executeWithin host calls file b) s) ∧
      commands host calls file (a ++ "\n" ++ b) s = commands host calls file a s ++
        match executeWithin host calls file a s with
        | .ok _ s' => commands host calls file b s'
        | .error _ _ => [] := by
  have hab := parseWithin_append_ok ha hb
  rw [newlines_lex] at hab
  refine ⟨by exact_mod_cast hab, ?_⟩
  intro s
  generalize hq : q.map (Stmt.shift ↑(1 + a.toList.count '\n')) = q' at hab
  have hl : q.map Stmt.withoutLines = q'.map Stmt.withoutLines := by
    simp [← hq, Function.comp_def, Stmt.withoutLines_shift]
  have hs : s.Like view s := ⟨rfl, rfl⟩
  have hn : State.Like view { s with world := host.note (.parsed p) s.world } s :=
    ⟨rfl, hu.unseen ..⟩
  rw [remains_executeWithin hu hab rfl hs, commands_alike hu hab rfl hs,
    commands_alike hu ha rfl hs, runStatement_append, issued_append, bind_apply, bind_apply,
    executeWithin_parsed ha]
  rcases runStatement_alike hu file roundLimit calls rfl hn with
    ⟨s₁, s₂, hx, hy, ht⟩ | ⟨h, h', s₁, s₂, hx, hy, hh, ht⟩
  · rw [hx, hy]
    refine ⟨(remains_executeWithin hu hb hl ht).symm, ?_⟩
    dsimp only [settle]
    rw [commands_alike hu hb hl ht]
  · obtain ⟨w, -, he⟩ := settle_error hu file h s₁
    rw [hx, hy, he]
    refine ⟨?_, rfl⟩
    rw [← remains_settle hu hh ht, he]

end

theorem Registry.hostWithin_unaware {registry : Registry} (he : registry.Echoes) (levels : Nat) :
    (registry.hostWithin levels).Unaware World.dispatched where
  toRespects := hostWithin_respects he levels
  unseen event w := by
    rw [hostWithin_note]
    exact w.note_dispatched event

def definingScript : String := "Method M(n)\nsay n\nEndmethod"

def failingScript : String := "M(7)\nx = 1 / 0\nsay 2"

/-- A method of the first script runs in the second, which fails below it. -/
theorem concatenation_sequences_failing :
    (Registry.host [{ name := "say" }]).Unaware World.dispatched ∧
    (∃ p q, parseWithin 50 none definingScript = .ok p ∧
      parseWithin 50 none failingScript = .ok q ∧
      parseWithin 50 none (definingScript ++ "\n" ++ failingScript) =
        .ok (p ++ q.map (Stmt.shift 3))) ∧
    (remains World.dispatched (executeWithin (Registry.host [{ name := "say" }]) 50 none
      (definingScript ++ "\n" ++ failingScript) ⟨{}, {}⟩)).halt =
        some (Site.halt ⟨none, none⟩ .divisionByZero) ∧
    commands (Registry.host [{ name := "say" }]) 50 none
      (definingScript ++ "\n" ++ failingScript) ⟨{}, {}⟩ = [("say", ["7"])] := by
  have hu : (Registry.host [{ name := "say" }]).Unaware World.dispatched :=
    Registry.hostWithin_unaware (by simp [Registry.Echoes]) _
  have parses : ∀ script : String, (parseWithin 50 none script).isOk = true →
      ∃ p, parseWithin 50 none script = .ok p := by
    intro script h
    cases hp : parseWithin 50 none script with
    | ok p => exact ⟨p, rfl⟩
    | error e => rw [hp] at h; cases h
  obtain ⟨p, hp⟩ := parses definingScript (by decide +kernel)
  obtain ⟨q, hq⟩ := parses failingScript (by decide +kernel)
  obtain ⟨hpq, hr⟩ := concatenation_sequences hu hp hq
  obtain ⟨hr, hc⟩ := hr ⟨{}, {}⟩
  refine ⟨hu, ⟨p, q, hp, hq, hpq⟩, ?_, ?_⟩
  · rw [hr]
    decide +kernel
  · rw [hc]
    decide +kernel

end CommandScript
