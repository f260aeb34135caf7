import CommandScript.Proofs.Parsing.Extension
import CommandScript.Proofs.Running.Contract
import CommandScript.Proofs.Running.Echo

/-! # Scripts in parts

A script whose first lines parse by themselves runs like these lines and then like the lines below
them. What a run leaves behind depends on what earlier runs left behind, and not on the name of the
file or on the lines of the methods.
-/

namespace CommandScript

section

variable {ω : Type} {host : Host ω} {file : Option String} {rounds depth calls : Nat}
  {s s' : State ω} {script : String} {p : Program} {h : Halt}

/-- A run ends at the level it started at: inside a method or at the top. -/
theorem level_contract (host : Host ω) : Contract host (fun _ => True) (fun _ => True)
    fun f g => f.locals.isNone = g.locals.isNone where
  refl _ := rfl
  trans h h' := h.trans h'
  block _ _ _ := trivial
  conditional _ := trivial
  loop _ := trivial
  method _ _ := trivial
  assign {f} name n _ := by
    refine ⟨trivial, ?_⟩
    unfold Frame.assign
    split
    · next h => rw [h]; rfl
    · rfl
  define _ _ := ⟨trivial, rfl⟩
  note _ _ := ⟨trivial, rfl⟩
  dispatch _ _ _ := ⟨trivial, rfl⟩
  enter _ _ := trivial
  leave _ _ _ := ⟨trivial, rfl⟩

theorem exec_top {t : Stmt} {g : Frame ω}
    (hx : exec host file rounds depth t { toState := s } = .ok () g) : g.locals = none := by
  have hk := (level_contract host).exec file rounds depth (s := t) (f := { toState := s })
    trivial trivial
  rw [hx] at hk
  exact Option.isNone_iff_eq_none.mp hk.2.symm

theorem runStatement_eq_ok {t : Stmt}
    (hx : runStatement host file rounds depth t s = .ok () s') :
    exec host file rounds depth t { toState := s } = .ok () { toState := s' } := by
  unfold runStatement at hx
  split at hx
  · next g hg =>
    cases hx
    have hl : g.locals = none := exec_top hg
    rw [hg, ← hl]
  · cases hx

theorem lastState_runStatement (host : Host ω) (file : Option String) (rounds depth : Nat)
    (t : Stmt) (s : State ω) : lastState (runStatement host file rounds depth t s) =
      (lastState (exec host file rounds depth t { toState := s })).toState := by
  unfold runStatement
  cases exec host file rounds depth t { toState := s } <;> rfl

theorem runStatement_append (p q : Program) (s : State ω) :
    runStatement host file rounds depth (.block (p ++ q)) s =
      (do runStatement host file rounds depth (.block p)
          runStatement host file rounds depth (.block q)) s := by
  cases depth with
  | zero => rfl
  | succ depth =>
    rw [bind_apply]
    unfold runStatement
    rw [exec_block, Run.each_append, bind_apply]
    cases hp : Run.each (exec host file rounds depth) p { toState := s } with
    | error h g => rw [exec_block, hp]
    | ok _ g =>
      have hg : g = { toState := g.toState } := by
        obtain ⟨s', locals⟩ := g
        obtain rfl : locals = none := exec_top ((exec_block ..).symm ▸ hp)
        rfl
      rw [exec_block, hp]
      dsimp only
      rw [hg, exec_block]

/-! ## How a script ends -/

/-- The end of a script as its caller sees it: every fault is noted, and exhausted calls are a
fault. -/
def settle (host : Host ω) (file : Option String) :
    EStateM.Result Halt (State ω) Unit → EStateM.Result Halt (State ω) Unit
  | .error (.fault fault) after => Task.refuse host fault after
  | .error .overflow after => Task.refuse host ⟨.recursionLimit, none, file⟩ after
  | result => result

/-- The halt of a script, as it is reported at the end. -/
def Halt.settled (file : Option String) : Halt → Halt
  | .overflow => .fault ⟨.recursionLimit, none, file⟩
  | h => h

theorem failure?_settle (r : EStateM.Result Halt (State ω) Unit) :
    failure? (settle host file r) = (failure? r).map (Halt.settled file) := by
  cases r with
  | ok _ _ => rfl
  | error h _ => cases h <;> rfl

theorem executeWithin_parsed (hp : parseWithin calls file script = .ok p) (s : State ω) :
    executeWithin host calls file script s =
      settle host file (runStatement host file roundLimit calls (.block p)
        { s with world := host.note (.parsed p) s.world }) := by
  unfold executeWithin
  rw [hp]
  rfl

theorem executeWithin_unparsed (hp : parseWithin calls file script = .error h) (s : State ω) :
    executeWithin host calls file script s = settle host file (.error h s) := by
  unfold executeWithin
  rw [hp]
  rfl

theorem of_settle_ok {r : EStateM.Result Halt (State ω) Unit}
    (h : settle host file r = .ok () s) : r = .ok () s := by
  unfold settle at h
  split at h
  · cases h
  · cases h
  · exact h

theorem exists_of_executeWithin_ok (hx : executeWithin host calls file script s = .ok () s') :
    ∃ p, parseWithin calls file script = .ok p ∧
      runStatement host file roundLimit calls (.block p)
        { s with world := host.note (.parsed p) s.world } = .ok () s' := by
  cases hp : parseWithin calls file script with
  | error h =>
    rw [executeWithin_unparsed hp] at hx
    cases of_settle_ok hx
  | ok p =>
    rw [executeWithin_parsed hp] at hx
    exact ⟨p, rfl, of_settle_ok hx⟩

theorem settle_dynamic (hd : h.Dynamic) {h' : Halt}
    (hs : settle host file (.error h s) = .error h' s') : h'.Dynamic := by
  cases h with
  | overflow =>
    cases hs
    rintro _ ⟨⟩
    exact FaultKind.noConfusion
  | _ =>
    cases hs
    exact hd

end

/-! ## What a run leaves behind -/

/-- The context without its lines, and the commands that were dispatched. -/
def State.residue (s : State World) : Context × Array (String × List String) :=
  (s.context.withoutLines, s.world.dispatched)

/-- What a run leaves behind if it ends well. -/
def residue? : EStateM.Result Halt (State World) Unit →
    Option (Context × Array (String × List String))
  | .ok _ s => some s.residue
  | .error _ _ => none

theorem residue?_eq_some {r : EStateM.Result Halt (State World) Unit}
    {o : Context × Array (String × List String)} :
    residue? r = some o ↔ ∃ s, r = .ok () s ∧ s.residue = o := by
  cases r <;> simp [residue?]

@[simp] theorem residue?_settle (host : Host World) (file : Option String)
    (r : EStateM.Result Halt (State World) Unit) : residue? (settle host file r) = residue? r := by
  unfold settle
  split <;> rfl

section

variable {registry : Registry} {levels calls rounds depth : Nat} {file file' : Option String}
  {s s' : State World} {script a b : String} {p : Program} {h : Halt}

/-- What a run leaves behind depends on what was left behind before it, whether it ends well or
stops. -/
theorem runStatement_residue (he : registry.Echoes) {t t' : Stmt}
    (ht : t.withoutLines = t'.withoutLines) (hs : s.residue = s'.residue) :
    let r := runStatement (registry.hostWithin levels) file rounds depth t s
    let r' := runStatement (registry.hostWithin levels) file' rounds depth t' s'
    residue? r = residue? r' ∧ (lastState r).residue = (lastState r').residue := by
  obtain ⟨hc, hw⟩ := Prod.mk.inj hs
  have hl : Frame.Like World.Agrees { toState := s } { toState := s' } := ⟨hc, rfl, hw⟩
  have ha : Run.Alike World.Agrees False
      (exec (registry.hostWithin levels) file rounds depth t { toState := s })
      (exec (registry.hostWithin levels) file' rounds depth t' { toState := s' }) :=
    exec_alike (Registry.hostWithin_respects he levels) False.elim rounds depth ht hl
  unfold runStatement
  cases hx : exec (registry.hostWithin levels) file rounds depth t { toState := s } with
  | ok _ f =>
    cases hy : exec (registry.hostWithin levels) file' rounds depth t' { toState := s' } with
    | ok _ g =>
      rw [hx, hy] at ha
      have hr : f.residue = g.residue := Prod.ext ha.2.context ha.2.world
      exact ⟨congrArg some hr, hr⟩
    | error _ g => rw [hx, hy] at ha; exact ha.elim
  | error _ f =>
    cases hy : exec (registry.hostWithin levels) file' rounds depth t' { toState := s' } with
    | ok _ g => rw [hx, hy] at ha; exact ha.elim
    | error _ g =>
      rw [hx, hy] at ha
      exact ⟨rfl, Prod.ext ha.2.context ha.2.world⟩

theorem residue_note (event : Event) (s : State World) :
    State.residue { s with world := (registry.hostWithin levels).note event s.world } =
      s.residue := by
  rw [Registry.hostWithin_note]
  simp [State.residue]

theorem residue_settle (r : EStateM.Result Halt (State World) Unit) :
    (lastState (settle (registry.hostWithin levels) file r)).residue = (lastState r).residue := by
  unfold settle
  split
  · exact residue_note _ _
  · exact residue_note _ _
  · rfl

theorem executeWithin_residue (he : registry.Echoes)
    (hp : parseWithin calls file script = .ok p) (hs : s.residue = s'.residue) :
    residue? (executeWithin (registry.hostWithin levels) calls file script s) =
      residue? (runStatement (registry.hostWithin levels) file roundLimit calls (.block p) s') := by
  rw [executeWithin_parsed hp, residue?_settle]
  exact (runStatement_residue he rfl ((residue_note _ s).trans hs)).1

theorem executeWithin_residue_none (hp : parseWithin calls file script = .error h) :
    residue? (executeWithin (registry.hostWithin levels) calls file script s) = none := by
  rw [executeWithin_unparsed hp, residue?_settle]
  rfl

/-- Programs run one after the other, each from where the last one ended or stopped. -/
def runAll {ω : Type} (host : Host ω) (file : Option String) (ps : List Program) (s : State ω) :
    State ω :=
  ps.foldl (fun s p => lastState (run host file (.block p) s)) s

theorem runAll_append {ω : Type} (host : Host ω) (file : Option String) (ps qs : List Program)
    (s : State ω) : runAll host file (ps ++ qs) s = runAll host file qs (runAll host file ps s) :=
  List.foldl_append

theorem runAll_residue (he : registry.Echoes) {ps : List Program} (hs : s.residue = s'.residue) :
    (runAll registry.host file ps s).residue = (runAll registry.host file ps s').residue := by
  induction ps generalizing s s' with
  | nil => exact hs
  | cons p ps ih => exact ih (runStatement_residue he rfl hs).2

theorem execute_residue_run (he : registry.Echoes) (file : Option String) (script : String)
    (s : State World) :
    (lastState (execute registry.host file script s)).residue =
      (runAll registry.host file (parse file script).toOption.toList s).residue := by
  cases hp : parse file script with
  | error h =>
    rw [execute, executeWithin_unparsed hp, Registry.host, residue_settle]
    rfl
  | ok p =>
    rw [execute, executeWithin_parsed hp, Registry.host, residue_settle]
    exact (runStatement_residue he rfl (residue_note _ s)).2

theorem parseWithin_file (hp : parseWithin calls file script = .ok p) (file' : Option String) :
    parseWithin calls file' script = .ok p :=
  parseWithin_eq_ok.mpr (parseWithin_eq_ok.mp hp)

theorem executeWithin_congr (he : registry.Echoes) (hs : s.residue = s'.residue) :
    residue? (executeWithin (registry.hostWithin levels) calls file script s) =
      residue? (executeWithin (registry.hostWithin levels) calls file' script s') := by
  cases hp : parseWithin calls file script with
  | ok p =>
    rw [executeWithin_residue he hp hs, executeWithin_residue he (parseWithin_file hp file') rfl]
    exact (runStatement_residue he rfl rfl).1
  | error h =>
    cases hp' : parseWithin calls file' script with
    | ok p =>
      rw [parseWithin_file hp' file] at hp
      cases hp
    | error h' => rw [executeWithin_residue_none hp, executeWithin_residue_none hp']

/-- A script whose first part parses runs like the first part and then the second. -/
theorem executeWithin_append (he : registry.Echoes) (hp : parseWithin calls file a = .ok p)
    (b : String) (s : State World) :
    residue? (executeWithin (registry.hostWithin levels) calls file (a ++ "\n" ++ b) s) =
      match executeWithin (registry.hostWithin levels) calls file a s with
      | .ok _ s' => residue? (executeWithin (registry.hostWithin levels) calls file b s')
      | .error _ _ => none := by
  have first : ∀ {q : Program} {c : String}, parseWithin calls file c = .ok q →
      residue? (executeWithin (registry.hostWithin levels) calls file c s) =
        residue? (runStatement (registry.hostWithin levels) file roundLimit calls (.block q) s) :=
    fun hq => executeWithin_residue he hq rfl
  cases hb : parseWithin calls file b with
  | error h =>
    obtain ⟨h', hab⟩ := parseWithin_append_error hp hb
    rw [executeWithin_residue_none hab]
    cases executeWithin (registry.hostWithin levels) calls file a s with
    | ok _ s' => exact (executeWithin_residue_none hb).symm
    | error _ s' => rfl
  | ok q =>
    have ha := first hp
    rw [first (parseWithin_append_ok hp hb), runStatement_append, bind_apply]
    cases hx : executeWithin (registry.hostWithin levels) calls file a s with
    | error _ s' =>
      rw [hx] at ha
      cases hr : runStatement (registry.hostWithin levels) file roundLimit calls (.block p) s with
      | ok _ s₁ => rw [hr] at ha; cases ha
      | error _ s₁ => rfl
    | ok _ s' =>
      rw [hx] at ha
      cases hr : runStatement (registry.hostWithin levels) file roundLimit calls (.block p) s with
      | error _ s₁ => rw [hr] at ha; cases ha
      | ok _ s₁ =>
        rw [hr] at ha
        dsimp only
        rw [executeWithin_residue he hb (Option.some.inj ha)]
        refine (runStatement_residue he ?_ rfl).1
        simp [Function.comp_def, Stmt.withoutLines_shift]

/-- A script that stops for good in its first part does not end well, whatever comes below. -/
theorem executeWithin_append_none (he : registry.Echoes)
    (hx : executeWithin (registry.hostWithin levels) calls file a s = .error h s') (hf : h.Final)
    (b : String) :
    residue? (executeWithin (registry.hostWithin levels) calls file (a ++ "\n" ++ b) s) = none := by
  cases hp : parseWithin calls file a with
  | ok p => rw [executeWithin_append he hp, hx]
  | error h₀ =>
    rw [executeWithin_unparsed hp] at hx
    apply executeWithin_residue_none (parseWithin_append_refused hp _ b)
    rintro f rfl
    cases hx
    exact hf f rfl

theorem executeWithin_dynamic (he : registry.Echoes) (hp : parseWithin calls file script = .ok p)
    (hx : executeWithin (registry.hostWithin levels) calls file script s = .error h s') :
    h.Dynamic := by
  rw [executeWithin_parsed hp] at hx
  unfold runStatement at hx
  split at hx
  · cases hx
  · next h₀ g hg => exact settle_dynamic (exec_dynamic he hg) hx

/-! ## Lines of a script -/

theorem intercalate_split (before : List String) (line : String) {after : List String}
    (ha : after ≠ []) : "\n".intercalate (before ++ line :: after) =
      "\n".intercalate (before ++ [line]) ++ "\n" ++ "\n".intercalate after := by
  rw [← String.intercalate_append_of_ne_nil (by simp) ha, List.append_assoc, List.singleton_append]

theorem execute_congr (he : registry.Echoes) (hs : s.residue = s'.residue)
    (file' : Option String) (script : String) :
    residue? (execute registry.host file script s) =
      residue? (execute registry.host file' script s') :=
  executeWithin_congr he hs

theorem execute_residue_none (hp : parse file script = .error h) :
    residue? (execute registry.host file script s) = none :=
  executeWithin_residue_none hp

theorem execute_empty (he : registry.Echoes) (file : Option String) (s : State World) :
    residue? (execute registry.host file "" s) = some s.residue := by
  have hp : parse file "" = .ok [] := parseWithin_eq_ok.mpr ⟨_, rfl⟩
  exact executeWithin_residue he hp rfl

/-- Lines that parse by themselves run first; the lines below them go on from there. -/
theorem execute_lines (he : registry.Echoes) {before : List String} {line : String}
    (hp : parse file ("\n".intercalate (before ++ [line])) = .ok p) (after : List String)
    (s : State World) :
    residue? (execute registry.host file ("\n".intercalate (before ++ line :: after)) s) =
      match execute registry.host file ("\n".intercalate (before ++ [line])) s with
      | .ok _ s' => residue? (execute registry.host file ("\n".intercalate after) s')
      | .error _ _ => none := by
  by_cases ha : after = []
  · subst ha
    cases execute registry.host file ("\n".intercalate (before ++ [line])) s with
    | ok _ s' => exact (execute_empty he file s').symm
    | error _ s' => rfl
  · rw [intercalate_split before line ha]
    exact executeWithin_append he hp _ s

theorem execute_lines_none (he : registry.Echoes) {before : List String} {line : String}
    (hx : execute registry.host file ("\n".intercalate (before ++ [line])) s =
      .error h s') (hf : h.Final) (after : List String) :
    residue? (execute registry.host file ("\n".intercalate (before ++ line :: after)) s) =
      none := by
  by_cases ha : after = []
  · subst ha
    rw [hx]
    rfl
  · rw [intercalate_split before line ha]
    exact executeWithin_append_none he hx hf _

end

end CommandScript
