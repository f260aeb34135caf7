import CommandScript.Proofs.Running.Echo
import CommandScript.Proofs.Running.History
import CommandScript.Proofs.Running.Isolation
import CommandScript.Proofs.Tables

/-! # Resolution of invocations

An invocation is resolved by the number of its arguments alone. The first definition with this many
parameters settles under which name its methods are found, for good; the latest definition with this
name and as many parameters is the one that runs.
-/

namespace CommandScript

variable {ω : Type}

/-- The methods that were defined, in order. -/
def definitions (vs : List (Visit ω)) : List Method := vs.filterMap Visit.method?

/-- The latest of these methods that takes `k` arguments and has the name of the first that does. -/
def resolution (k : Nat) (ms : List Method) : Option Method :=
  (ms.find? fun m => m.params.length == k).bind fun first =>
    (ms.filter fun m => m.params.length == k && m.name == first.name).getLast?

section

variable {k : Nat} {m first : Method} {ms : List Method}

theorem resolution_cases (hr : resolution k ms = some m) :
    ∃ first, ms.find? (fun m => m.params.length == k) = some first ∧ m ∈ ms ∧
      m.params.length = k ∧ m.name = first.name := by
  obtain ⟨first, hf, hl⟩ := Option.bind_eq_some_iff.mp hr
  obtain ⟨hm, hp⟩ := List.mem_filter.mp (List.mem_of_getLast? hl)
  rw [Bool.and_eq_true, beq_iff_eq, beq_iff_eq] at hp
  exact ⟨first, hf, hm, hp⟩

theorem isSome_resolution_iff :
    (resolution k ms).isSome ↔ ∃ m ∈ ms, m.params.length = k := by
  constructor
  · intro hr
    obtain ⟨m, hm⟩ := Option.isSome_iff_exists.mp hr
    obtain ⟨-, -, hm, hk, -⟩ := resolution_cases hm
    exact ⟨m, hm, hk⟩
  · rintro ⟨m, hm, hk⟩
    obtain ⟨first, hf⟩ : ∃ first, ms.find? (fun m => m.params.length == k) = some first :=
      Option.isSome_iff_exists.mp (List.find?_isSome.mpr ⟨m, hm, by simp [hk]⟩)
    have hfm : first ∈ ms.filter fun m => m.params.length == k && m.name == first.name :=
      List.mem_filter.mpr ⟨List.mem_of_find?_eq_some hf, by simpa using List.find?_some hf⟩
    rw [resolution, hf, Option.bind_some, List.getLast?_isSome]
    exact List.ne_nil_of_mem hfm

/-- Later definitions do not change the name that an arity resolves to. -/
theorem resolution_append (hr : resolution k ms = some m) (more : List Method) :
    ∃ m', resolution k (ms ++ more) = some m' ∧ m'.name = m.name := by
  obtain ⟨first, hf, hm, hk, hn⟩ := resolution_cases hr
  obtain ⟨m', hr'⟩ := Option.isSome_iff_exists.mp
    (isSome_resolution_iff.mpr ⟨m, List.mem_append_left more hm, hk⟩)
  obtain ⟨first', hf', -, -, hn'⟩ := resolution_cases hr'
  rw [List.find?_append, hf] at hf'
  obtain rfl := Option.some.inj hf'
  exact ⟨m', hr', hn'.trans hn.symm⟩

end

/-! ## The method table -/

/-- The method table after these definitions. -/
def filed (ms : List Method) : Table Signature Method :=
  .putAll {} (ms.map fun m => (m.signature, m))

theorem filed_append (ms more : List Method) :
    filed (ms ++ more) = (filed ms).putAll (more.map fun m => (m.signature, m)) := by
  rw [filed, List.map_append, Table.putAll_append]
  rfl

theorem filed_concat (ms : List Method) (m : Method) :
    filed (ms ++ [m]) = (filed ms).put m.signature m := by
  rw [filed_append]
  rfl

theorem signature_of_filed {ms : List Method} : ∀ e ∈ (filed ms).entries, e.1 = e.2.signature := by
  apply Table.forall_putAll_empty
  simp

theorem get?_filed (ms : List Method) (sig : Signature) :
    (filed ms).get? sig = (ms.filter fun m => m.signature == sig).getLast? := by
  rw [filed, Table.get?_putAll, List.filter_map, List.getLast?_map, Option.map_map]
  exact (Option.or_none ..).trans Option.map_id'

theorem find?_keys_filed (ms : List Method) (k : Nat) :
    (filed ms).keys.find? (fun sig => sig.arity == k) =
      (ms.find? fun m => m.params.length == k).map Method.signature := by
  rw [filed, Table.keys_putAll_empty, Table.find?_eraseDups, List.map_map, List.find?_map]
  rfl

/-- Searching the table gives the resolution of its definitions. -/
theorem resolve?_filed {c : Context} {ms : List Method} (hc : c.methods = filed ms) (k : Nat) :
    c.resolve? k = resolution k ms := by
  rw [Context.resolve?, Table.find?_entries c.methods fun sig => sig.arity == k, hc,
    find?_keys_filed, resolution]
  cases hf : ms.find? fun m => m.params.length == k with
  | none => rfl
  | some first =>
    have hk : first.params.length = k := by simpa using List.find?_some hf
    have hp : (fun m : Method => m.signature == first.signature) =
        fun m => m.params.length == k && m.name == first.name := by
      funext m
      rw [Bool.eq_iff_iff]
      simp [Method.signature, hk, and_comm]
    simp only [Option.map_some, Option.bind_some]
    rw [get?_filed, hp, Option.map_map]
    exact Option.map_id'

/-- The method table at a moment is that of the definitions before it. -/
theorem methods_chronicle :
    Chronicle (ω := ω) Host.Detached fun vs f => f.context.methods = filed (definitions vs) where
  step {vs v} hd hf := by
    rw [Visit.next_methods hd, definitions, List.filterMap_append]
    cases hm : v.method? with
    | none =>
      rw [List.filterMap_cons_none hm, List.filterMap_nil, List.append_nil]
      exact hf
    | some m =>
      rw [List.filterMap_cons_some hm, List.filterMap_nil, filed_concat, hf]
      rfl
  note _ _ hf := hf
  leave _ hf := hf

/-! ## Along a session -/

variable {turns : List (Turn ω)} {s : State ω} {vs : List (Visit ω)} {f : Frame ω}

theorem mem_definitions {m : Method} : m ∈ definitions vs ↔
    ∃ v ∈ vs, 0 < v.depth ∧ v.statement = .define m.name m.params m.body m.line := by
  simp only [definitions, List.mem_filterMap, Visit.method?_eq_some]

theorem resolve?_of_moment (hs : s.context.methods = {}) (hd : ∀ t ∈ turns, t.host.Detached)
    (hm : Moment turns s vs f) (k : Nat) :
    f.context.resolve? k = resolution k (definitions vs) :=
  resolve?_filed (methods_chronicle.moment hd hs hm) k

/-- Along a session that begins without methods, an arity resolves from the first definition with so
many parameters on, and always to the latest definition that has the name of that first one. This is
what every invocation runs, whatever name it is written with. -/
theorem resolution_by_first_definition (hs : s.context.methods = {})
    (hd : ∀ t ∈ turns, t.host.Detached) :
    (∀ before f, Moment turns s before f → ∀ k,
      ((f.context.resolve? k).isSome ↔ ∃ v ∈ before, ∃ x params body line,
        0 < v.depth ∧ v.statement = .define x params body line ∧ params.length = k) ∧
      f.context.resolve? k = resolution k (definitions before) ∧
      ∀ m, f.context.resolve? k = some m → ∀ after g, before <+: after → Moment turns s after g →
        ∃ m', g.context.resolve? k = some m' ∧ m'.name = m.name) ∧
    ∀ before v after x args line depth, history turns s = before ++ v :: after →
      v.statement = .invoke x args line → v.depth = depth + 2 →
      v.outcome = match resolution args.length (definitions before) with
        | none =>
          .error (Site.halt ⟨some line, v.file⟩ (.unresolvedMethod x args.length)) v.frame
        | some m =>
          match bindArguments ⟨some line, v.file⟩ v.frame.active depth (m.params.zip args) {} with
          | .ok locals => Run.inScope locals (exec v.host v.file v.rounds depth m.body)
              { v.frame with world := v.host.note (.invoking x m.name locals) v.frame.world }
          | .error h => .error h v.frame := by
  constructor
  · intro before f hm k
    have hr := resolve?_of_moment hs hd hm k
    refine ⟨?_, hr, ?_⟩
    · rw [hr, isSome_resolution_iff]
      constructor
      · rintro ⟨m, hm, hk⟩
        obtain ⟨v, hv, hp, ht⟩ := mem_definitions.mp hm
        exact ⟨v, hv, m.name, m.params, m.body, m.line, hp, ht, hk⟩
      · rintro ⟨v, hv, x, params, body, line, hp, ht, hk⟩
        exact ⟨⟨x, params, body, line⟩, mem_definitions.mpr ⟨v, hv, hp, ht⟩, hk⟩
    · rintro m hf _ g ⟨more, rfl⟩ hm'
      rw [resolve?_of_moment hs hd hm' k, definitions, List.filterMap_append]
      exact resolution_append (hr.symm.trans hf) _
  · intro before v after x args line depth he ht hdepth
    rw [← resolve?_of_moment hs hd (.begins he), Visit.outcome, ht, hdepth]
    exact exec_invoke ..

/-- The first script defines `First`, and with `Redo` defines it anew before it fails. The second
run defines `Second` with as many parameters, and invokes it. -/
def redefinitions : List (Turn World) :=
  [.script (Registry.host [{ name := "say" }]) none 50
    "Method First(a)\nsay a\nEndmethod\nMethod Redo(c, d)\nMethod First(b)\nsay 2\nEndmethod
Endmethod\nRedo(3, 4)\nx = 1 / 0",
   .statement (Registry.host [{ name := "say" }]) none 50 50
    (.block [.define "Second" ["c"] (.block []) 1, .invoke "Second" [.int 5] 2])]

theorem resolution_by_first_definition_renamed :
    (∀ t ∈ redefinitions, t.host.Detached) ∧
    (∃ m, (afterTurns redefinitions ⟨{}, {}⟩).context.resolve? 1 = some m ∧
      m.name = "First" ∧ m.params = ["b"]) ∧
    (afterTurns redefinitions ⟨{}, {}⟩).world.dispatched = #[("say", ["2"])] := by
  have he : Registry.Echoes [{ name := "say" }] := by simp [Registry.Echoes]
  have hd : ∀ t ∈ redefinitions, t.host.Detached := by
    have hh := Registry.hostWithin_detached he Registry.scriptLevels
    intro t ht
    rcases List.mem_pair.mp ht with rfl | rfl
    · exact hh
    · exact hh
  refine ⟨hd, ?_, by decide +kernel⟩
  obtain ⟨-, hr, -⟩ := (resolution_by_first_definition (s := ⟨{}, {}⟩) rfl hd).1 _ _
    (.last _ _) 1
  have hx : (resolution 1 (definitions (history redefinitions ⟨{}, {}⟩))).map
      (fun m => (m.name, m.params)) = some ("First", ["b"]) := by
    decide +kernel
  obtain ⟨m, hm, hp⟩ := Option.map_eq_some_iff.mp hx
  obtain ⟨hn, hp⟩ := Prod.mk.inj hp
  exact ⟨m, hr.trans hm, hn, hp⟩

end CommandScript
