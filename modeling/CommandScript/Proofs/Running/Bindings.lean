import CommandScript.Proofs.Running.Resolution

/-! # What a session binds

Whatever is run, statements made by hand included, a method is filed under its own name and the
number of its parameters, names keep their places, and only integers are ever bound or passed on. A
boolean can come into a context from outside only, and the first assignment puts an end to it.
-/

namespace CommandScript

variable {ω : Type}

namespace Visit

variable {v : Visit ω} {x : String}

/-- The statement assigned to the global variable `x`. -/
def Assigns (v : Visit ω) (x : String) : Prop :=
  v.frame.locals = none ∧ (∃ e line, v.statement = .assign x e line) ∧ ∃ g, v.outcome = .ok () g

/-- The global variable that is bound, with its value. -/
def bound? (v : Visit ω) : Option (String × Value) :=
  match v.frame.locals, v.deed? with
  | none, some (.bind x n) => some (x, .int n)
  | _, _ => none

theorem bound?_integer {e : String × Value} (hb : v.bound? = some e) : ∃ n, e.2 = .int n := by
  unfold bound? at hb
  split at hb
  · cases hb
    exact ⟨_, rfl⟩
  · cases hb

theorem Assigns.bound? (ha : v.Assigns x) : ∃ n, v.bound? = some (x, .int n) := by
  obtain ⟨host, file, rounds, depth, t, f⟩ := v
  obtain ⟨hl, ⟨e, line, rfl⟩, g, hx⟩ := ha
  cases depth with
  | zero => cases hx
  | succ depth =>
    rw [outcome, exec_assign] at hx
    cases hn : evalInt ⟨some line, file⟩ f.context.globals depth e with
    | error h => rw [hn] at hx; cases hx
    | ok n =>
      refine ⟨n, ?_⟩
      rw [Visit.bound?, deed?_assign, hn, hl]
      rfl

theorem next_globals (hd : v.host.Detached) :
    v.next.context.globals = match v.bound? with
      | some (x, value) => v.frame.context.globals.put x value
      | none => v.frame.context.globals := by
  unfold next Visit.bound?
  cases v.deed? with
  | none => cases v.frame.locals <;> rfl
  | some deed =>
    cases deed with
    | bind x n =>
      dsimp only [Deed.apply]
      unfold Frame.assign
      cases v.frame.locals <;> rfl
    | dispatch calls x args =>
      have hc := hd.lastState_context calls x args v.frame.toState
      cases v.frame.locals <;> exact congrArg Context.globals hc
    | define m => cases v.frame.locals <;> rfl
    | call x m locals => cases v.frame.locals <;> rfl

theorem decimal_of_command? {texts : List String} (hc : v.command? = some (x, texts)) :
    ∀ text ∈ texts, ∃ n, Text.decimal? n = some text := by
  unfold command? at hc
  split at hc
  · next hd =>
    cases hc
    obtain ⟨args, line, -, -, ht⟩ := deed?_cases hd
    exact evalTexts_decimal ht
  · cases hc

end Visit

/-! ## Global variables -/

/-- The global variables at a moment are those of the start and what was bound since. -/
theorem globals_chronicle (scope : Scope) :
    Chronicle (ω := ω) Host.Detached fun vs f => f.context.globals =
      Table.putAll scope (vs.filterMap Visit.bound?) where
  step {vs v} hd hf := by
    rw [Visit.next_globals hd, List.filterMap_append, Table.putAll_append, ← hf]
    cases hb : v.bound? with
    | none => rw [List.filterMap_cons_none hb]; rfl
    | some e => rw [List.filterMap_cons_some hb]; rfl
  note _ _ hf := hf
  leave _ hf := hf

theorem bool_of_bound {scope : Scope} {vs : List (Visit ω)} {x : String} {b : Bool}
    (hb : (Table.putAll scope (vs.filterMap Visit.bound?)).get? x = some (.bool b)) :
    scope.get? x = some (.bool b) ∧ ∀ v ∈ vs, ¬ v.Assigns x := by
  rw [Table.get?_putAll] at hb
  cases hl : ((vs.filterMap Visit.bound?).filter fun e => e.1 == x).getLast? with
  | some e =>
    -- the value bound last would be an integer
    obtain ⟨he, -⟩ := List.mem_filter.mp (List.mem_of_getLast? hl)
    obtain ⟨v, -, hv⟩ := List.mem_filterMap.mp he
    obtain ⟨n, hn⟩ := v.bound?_integer hv
    rw [hl, Option.map_some, Option.some_or, hn] at hb
    cases hb
  | none =>
    rw [hl, Option.map_none, Option.none_or] at hb
    refine ⟨hb, ?_⟩
    intro v hv ha
    obtain ⟨n, hn⟩ := ha.bound?
    have he := List.filter_eq_nil_iff.mp (List.getLast?_eq_none_iff.mp hl) (x, .int n)
      (List.mem_filterMap.mpr ⟨v, hv, hn⟩)
    simp at he

/-! ## Local variables -/

/-- The variables of the running method are integers. -/
def Frame.LocalIntegers (f : Frame ω) : Prop := ∀ locals, f.locals = some locals → locals.Integers

theorem locals_chronicle : Chronicle (ω := ω) Host.Detached fun _ f => f.LocalIntegers where
  step {vs v} _ hf := by
    unfold Visit.next
    cases hv : v.deed? with
    | none => exact hf
    | some deed =>
      cases deed with
      | bind x n =>
        dsimp only [Deed.apply]
        unfold Frame.assign
        split
        · next locals hl =>
          rintro _ ⟨⟩
          exact (hf locals hl).put x n
        · exact hf
      | call x m locals =>
        obtain ⟨args, line, depth, -, -, -, hl⟩ := Visit.deed?_cases hv
        rintro _ ⟨⟩
        exact bindArguments_integers Scope.integers_empty hl
      | define m => exact hf
      | dispatch calls x args => exact hf
  note _ _ hf := hf
  leave hf _ := hf

/-! ## Commands -/

/-- The host keeps a record of the commands that it is given, and of nothing else. -/
structure Host.Records (record : ω → List (String × List String)) (host : Host ω) : Prop where
  note : ∀ event w, record (host.note event w) = record w
  dispatch : ∀ calls x args s, record (lastState (host.dispatch calls x args s)).world =
    record s.world ++ [(x, args)]

section

variable {record : ω → List (String × List String)}

theorem Visit.next_record {v : Visit ω} (hr : v.host.Records record) :
    record v.next.world = record v.frame.world ++ v.command?.toList := by
  unfold next command?
  cases v.deed? with
  | none => exact (List.append_nil _).symm
  | some deed =>
    cases deed with
    | bind x n =>
      dsimp only [Deed.apply]
      unfold Frame.assign
      split <;> exact (List.append_nil _).symm
    | dispatch calls x args => exact hr.dispatch calls x args v.frame.toState
    | define m => exact (hr.note _ _).trans (List.append_nil _).symm
    | call x m locals => exact (hr.note _ _).trans (List.append_nil _).symm

/-- What is on record at a moment are the commands up to it. -/
theorem records_chronicle (record : ω → List (String × List String))
    (before : List (String × List String)) :
    Chronicle (Host.Records record) fun vs f =>
      record f.world = before ++ vs.filterMap Visit.command? where
  step {vs v} hr hf := by
    rw [Visit.next_record hr, hf, List.filterMap_append, List.append_assoc]
    cases hc : v.command? with
    | none => rw [List.filterMap_cons_none hc]; rfl
    | some command => rw [List.filterMap_cons_some hc]; rfl
  note event hr hf := (hr.note event _).trans hf
  leave _ hf := hf

theorem Registry.hostWithin_records {registry : Registry} (he : registry.Echoes) (levels : Nat) :
    (registry.hostWithin levels).Records fun w => w.dispatched.toList where
  note event w := by
    rw [hostWithin_note]
    exact congrArg Array.toList (w.note_dispatched event)
  dispatch calls x args s := by
    obtain ⟨v, hv, hd⟩ := hostWithin_dispatch he levels calls x args s.context s.world
    rw [hd, ← Array.toList_push, ← hv]
    split <;> rfl

end

/-! ## Along a session -/

variable {turns : List (Turn ω)} {s : State ω} {vs ws : List (Visit ω)} {f g : Frame ω}

theorem zip_of_resolve? (hf : f.context.methods = filed (definitions vs)) {args : List Expr}
    {m : Method} (hm : f.context.resolve? args.length = some m) :
    (m.params.zip args).unzip = (m.params, args) := by
  rw [resolve?_filed hf] at hm
  obtain ⟨-, -, -, hk, -⟩ := resolution_cases hm
  exact List.unzip_zip hk

theorem globals_of_moment (hd : ∀ t ∈ turns, t.host.Detached) (hm : Moment turns s vs f) :
    f.context.globals = Table.putAll s.context.globals (vs.filterMap Visit.bound?) :=
  (globals_chronicle s.context.globals).moment hd rfl hm

/-- Names that were bound or defined stay, in their places. -/
theorem keys_prefix_of_moments (hs : s.context.methods = {}) (hd : ∀ t ∈ turns, t.host.Detached)
    (hm : Moment turns s vs f) (hm' : Moment turns s (vs ++ ws) g) :
    f.context.globals.keys <+: g.context.globals.keys ∧
      f.context.methods.keys <+: g.context.methods.keys := by
  constructor
  · rw [globals_of_moment hd hm, globals_of_moment hd hm', List.filterMap_append,
      Table.putAll_append]
    exact Table.keys_prefix_putAll _ _
  · rw [methods_chronicle.moment hd hs hm, methods_chronicle.moment hd hs hm', definitions,
      definitions, List.filterMap_append, filed_append]
    exact Table.keys_prefix_putAll _ _

/-- Along a session that begins without methods: every method is filed under its name and arity, so
no argument is dropped; only integers are bound to variables and parameters and passed to commands,
by every record of them; and a run removes no name and moves none. -/
theorem bindings_of_session (hs : s.context.methods = {}) (hd : ∀ t ∈ turns, t.host.Detached) :
    (∀ vs f, Moment turns s vs f →
      (∀ e ∈ f.context.methods.entries, e.1.name = e.2.name ∧ e.1.arity = e.2.params.length) ∧
      (∀ (args : List Expr) m, f.context.resolve? args.length = some m →
        (m.params.zip args).unzip = (m.params, args)) ∧
      (∀ locals, f.locals = some locals → locals.Integers) ∧
      (∀ x b, f.context.globals.get? x = some (.bool b) →
        s.context.globals.get? x = some (.bool b) ∧ ∀ v ∈ vs, ¬ v.Assigns x) ∧
      (∀ v ∈ vs, ∀ x texts, v.command? = some (x, texts) →
        ∀ text ∈ texts, ∃ n, Text.decimal? n = some text) ∧
      ∀ record, (∀ t ∈ turns, t.host.Records record) →
        record f.world = record s.world ++ vs.filterMap Visit.command?) ∧
    ∀ done t rest, turns = done ++ t :: rest →
      (afterTurns done s).context.globals.keys <+:
        (t.after (afterTurns done s)).context.globals.keys ∧
      (afterTurns done s).context.methods.keys <+:
        (t.after (afterTurns done s)).context.methods.keys := by
  constructor
  · intro vs f hm
    have hf := methods_chronicle.moment hd hs hm
    refine ⟨?_, fun args m => zip_of_resolve? hf, ?_, ?_,
      fun v _ x texts => v.decimal_of_command?, ?_⟩
    · rw [hf]
      intro e he
      rw [signature_of_filed e he]
      exact ⟨rfl, rfl⟩
    · apply locals_chronicle.moment hd _ hm
      rintro _ ⟨⟩
    · intro x b hb
      rw [globals_of_moment hd hm] at hb
      exact bool_of_bound hb
    · intro record hr
      exact (records_chronicle record (record s.world)).moment hr (List.append_nil _).symm hm
  · rintro done t rest rfl
    have hr : done ++ t :: rest = done ++ [t] ++ rest := by simp
    have hm : Moment (done ++ t :: rest) s (history done s ++ history [t] (afterTurns done s))
        { toState := afterTurns (done ++ [t]) s } := history_append done [t] s ▸ .rests hr
    rw [← afterTurns_concat]
    exact keys_prefix_of_moments hs hd (.rests rfl) hm

/-- Two variables that hold booleans. -/
def State.seeded : State World where
  context := { globals := ⟨[("flag", .bool true), ("old", .bool false)]⟩ }
  world := {}

/-- The first run assigns to `old` and stops where it would copy `flag`; the second defines a method
anew and stops where it would pass `flag` on. -/
def copies : List (Turn World) :=
  [.script (Registry.host [{ name := "say" }]) none 50
    "Method Show(a, b)\nc = a\nEndmethod\nold = 3\nsay old\nnew = flag",
   .statement (Registry.host [{ name := "say" }]) none 50 50
    (.block [.define "Show" ["a", "a"] (.block []) 1, .invoke "Any" [.int 1, .int 2] 2,
      .command "say" [.var "flag"] 3])]

theorem bindings_of_session_seeded :
    State.seeded.context.methods = {} ∧ (∀ t ∈ copies, t.host.Detached) ∧
    (afterTurns copies .seeded).context.globals.entries =
      [("flag", .bool true), ("old", .int 3)] ∧
    (∀ v ∈ history copies .seeded, ¬ v.Assigns "flag") ∧
    (afterTurns copies .seeded).world.dispatched.toList = [("say", ["3"])] := by
  have he : Registry.Echoes [{ name := "say" }] := by simp [Registry.Echoes]
  have hh : ∀ t ∈ copies, t.host = Registry.host [{ name := "say" }] := by
    intro t ht
    rcases List.mem_pair.mp ht with rfl | rfl <;> rfl
  have hd : ∀ t ∈ copies, t.host.Detached := fun t ht =>
    hh t ht ▸ Registry.hostWithin_detached he _
  have hr : ∀ t ∈ copies, t.host.Records fun w => w.dispatched.toList := fun t ht =>
    hh t ht ▸ Registry.hostWithin_records he _
  have hg : (afterTurns copies .seeded).context.globals.entries =
      [("flag", .bool true), ("old", .int 3)] := by decide +kernel
  have hm : State.seeded.context.methods = {} := rfl
  obtain ⟨-, -, -, hb, -, hw⟩ := (bindings_of_session hm hd).1 _ _ (.last _ _)
  have hw := hw _ hr
  have hf := hb "flag" true
  rw [Table.get?] at hf
  dsimp only at hf
  rw [hg] at hf
  have hc : (history copies .seeded).filterMap Visit.command? = [("say", ["3"])] := by
    decide +kernel
  rw [hc] at hw
  dsimp only at hw
  exact ⟨hm, hd, hg, (hf rfl).2, hw⟩

end CommandScript
