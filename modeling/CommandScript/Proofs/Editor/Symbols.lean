import CommandScript.Proofs.Editor.Lookup
import CommandScript.Proofs.Running.Bindings
import CommandScript.Session

/-! # What symbols tell of a run

The symbols of a program are read off its outermost statements. A run that ends well has run each of
them, so that what they name is there afterwards. And whatever is there was put there by a statement
of the program: a variable by an assignment outside of methods, a method by its definition.
-/

namespace CommandScript

/-- The statement is the other one or stands somewhere inside it, but not in a method. -/
inductive Stmt.Outer (s : Stmt) : Stmt → Prop where
  | refl : Outer s s
  | block {t : Stmt} {ss : List Stmt} : t ∈ ss → Outer s t → Outer s (.block ss)
  | conditional {body : Stmt} (e : Expr) (line : Int) : Outer s body →
      Outer s (.conditional e body line)
  | loop {body : Stmt} (e : Expr) (line : Int) : Outer s body → Outer s (.loop e body line)

variable {ω : Type} {host : Host ω} {file : Option String} {rounds depth : Nat}

/-! ## The statements that are visited -/

section

variable {s : Stmt} {f : Frame ω} {v : Visit ω}

theorem inner_chronicle : Chronicle (ω := ω) (fun _ => True) fun _ f => f.Inner where
  step {vs v} _ hf := by
    unfold Visit.next
    cases v.deed? with
    | none => exact hf
    | some deed =>
      cases deed with
      | bind x n => exact (hf.assign x (.int n)).1
      | call x m locals => exact ⟨locals, rfl⟩
      | define m => exact hf
      | dispatch calls x args => exact hf
  note _ _ hf := hf
  leave hf _ := hf

theorem visits_inner (hf : f.Inner) (hv : v ∈ visits host file rounds depth s f) :
    v.frame.Inner := by
  obtain ⟨before, after, he⟩ := List.append_of_mem hv
  have ht : Told (fun _ f => f.Inner) [] (visits host file rounds depth s f)
      (lastState (exec host file rounds depth s f)) :=
    inner_chronicle.exec trivial file rounds depth s hf
  exact ht.visit before v after he

theorem visits_outer (hv : v ∈ visits host file rounds depth s f) (hl : v.frame.locals = none) :
    v.statement.Outer s := by
  induction depth generalizing s f with
  | zero =>
    obtain rfl := List.mem_singleton.mp hv
    exact .refl
  | succ depth ih =>
    unfold visits at hv
    rcases List.mem_cons.mp hv with rfl | hv
    · exact .refl
    cases s with
    | block ss =>
      obtain ⟨t, ht, g, hv⟩ := Run.exists_of_mem_eachLog hv
      exact .block ht (ih hv)
    | conditional e body line =>
      dsimp only at hv
      split at hv
      · exact .conditional e line (ih hv)
      · cases hv
    | loop e body line =>
      obtain ⟨g, hv⟩ := Run.exists_of_mem_whileLog hv
      exact .loop e line (ih hv)
    | invoke x args line =>
      -- the body runs in a scope of its own
      dsimp only at hv
      split at hv
      · cases hv
      split at hv
      · cases hv
      split at hv
      · next locals _ =>
        obtain ⟨_, hi⟩ := visits_inner ⟨locals, rfl⟩ hv
        rw [hl] at hi
        cases hi
      · cases hv
    | assign x e line => cases hv
    | define x params body line => cases hv
    | command x args line => cases hv
    | misplaced tree => cases hv

end

/-! ## The methods that are defined -/

theorem exec_definedIn (hd : host.Detached) (t : Stmt) {f g : Frame ω} (hf : f.DefinedIn t)
    (hx : exec host file rounds depth t f = .ok () g) : g.DefinedIn t := by
  have hk := (defined_contract hd t).exec file rounds depth .refl hf
  rw [hx] at hk
  exact hk.1

/-! ## Symbols -/

theorem height_le_of_eval {site : Site} {scope : Scope} {e : Expr} {v : Value}
    (h : eval site scope depth e = .ok v) : e.height ≤ depth := by
  induction e generalizing depth v with
  | arith l o r ihl ihr =>
    cases depth with
    | zero => cases h
    | succ depth =>
      rw [eval] at h
      obtain ⟨a, hl, h⟩ := exists_of_bind_ok h
      obtain ⟨b, hr, -⟩ := exists_of_bind_ok h
      exact Nat.succ_le_succ (Nat.max_le.mpr ⟨ihl hl, ihr hr⟩)
  | compare l o r ihl ihr =>
    cases depth with
    | zero => cases h
    | succ depth =>
      rw [eval] at h
      obtain ⟨a, hl, h⟩ := exists_of_bind_ok h
      obtain ⟨b, hr, -⟩ := exists_of_bind_ok h
      exact Nat.succ_le_succ (Nat.max_le.mpr ⟨ihl hl, ihr hr⟩)
  | _ =>
    cases depth with
    | zero => cases h
    | succ depth => exact Nat.succ_le_succ (Nat.zero_le depth)

theorem Symbol.of_mem_collectFrom {uri : String} {p : Program} {seen : List String}
    {symbols : List Symbol} (h : collectFrom uri seen p = .ok symbols) :
    ∀ symbol ∈ symbols,
      (symbol.kind = .binding ∧ ∃ e line, Stmt.assign symbol.name e line ∈ p) ∨
      ∃ params body line, Stmt.define symbol.name params body line ∈ p ∧
        symbol = ofMethod uri symbol.name params line := by
  induction p generalizing seen symbols with
  | nil =>
    cases h
    simp
  | cons s p ih =>
    have later : ∀ {seen symbols}, collectFrom uri seen p = .ok symbols → ∀ symbol ∈ symbols,
        (symbol.kind = .binding ∧ ∃ e line, Stmt.assign symbol.name e line ∈ s :: p) ∨
        ∃ params body line, Stmt.define symbol.name params body line ∈ s :: p ∧
          symbol = ofMethod uri symbol.name params line := by
      intro seen symbols h symbol hs
      rcases ih h symbol hs with ⟨hk, e, line, hm⟩ | ⟨params, body, line, hm, he⟩
      · exact Or.inl ⟨hk, e, line, List.mem_cons_of_mem s hm⟩
      · exact Or.inr ⟨params, body, line, List.mem_cons_of_mem s hm, he⟩
    cases s with
    | define x params body line =>
      obtain ⟨rest, hr, h⟩ := exists_of_bind_ok h
      cases h
      intro symbol hs
      rcases List.mem_cons.mp hs with rfl | hs
      · exact Or.inr ⟨params, body, line, List.mem_cons_self, rfl⟩
      · exact later hr symbol hs
    | assign x e line =>
      rw [collectFrom] at h
      split at h
      · exact later h
      · obtain ⟨text, -, h⟩ := exists_of_bind_ok h
        obtain ⟨rest, hr, h⟩ := exists_of_bind_ok h
        cases h
        intro symbol hs
        rcases List.mem_cons.mp hs with rfl | hs
        · exact Or.inl ⟨rfl, e, line, List.mem_cons_self⟩
        · exact later hr symbol hs
    | _ => exact later h

/-! ## Scripts -/

section

variable {calls : Nat} {script : String} {p : Program} {s s' : State ω}

/-- If a program ends well, each of its statements was visited and ended well. -/
theorem exists_visit_of_mem
    (hx : exec host file rounds depth (.block p) { toState := s } = .ok () { toState := s' })
    {t : Stmt} (ht : t ∈ p) :
    ∃ v ∈ visits host file rounds depth (.block p) { toState := s }, v.statement = t ∧
      v.depth < depth ∧ v.frame.locals = none ∧ ∃ g, v.outcome = .ok () g := by
  cases depth with
  | zero => cases hx
  | succ depth =>
    have top : ∀ {t : Stmt} {f g : Frame ω}, f.locals = none →
        exec host file rounds depth t f = .ok () g → g.locals = none := by
      rintro t ⟨s, locals⟩ g rfl hx
      exact exec_top hx
    obtain ⟨f, g, hf, hg, hl⟩ := Run.exists_of_each_ok top rfl hx ht
    refine ⟨⟨host, file, rounds, depth, t, f⟩, ?_, rfl, Nat.lt_succ_self depth, hf, g, hg⟩
    exact List.mem_cons_of_mem _ (hl _ self_mem_visits)

/-- The variables and methods that there are after a script were bound and defined by it. -/
theorem keys_of_script (hd : host.Detached) {w : ω}
    (hp : parseWithin calls file script = .ok p)
    (hx : executeWithin host calls file script ⟨{}, w⟩ = .ok () s) :
    let vs := visits host file roundLimit calls (.block p)
      { context := {}, world := host.note (.parsed p) w }
    (∀ x, x ∈ s.context.globals.keys ↔ ∃ v ∈ vs, ∃ value, v.bound? = some (x, value)) ∧
    ∀ sig, sig ∈ s.context.methods.keys ↔ ∃ m ∈ definitions vs, m.signature = sig := by
  intro vs
  have hs : s = afterTurns [.script host file calls script] ⟨{}, w⟩ := by
    change s = lastState (executeWithin host calls file script ⟨{}, w⟩)
    rw [hx]
    rfl
  have hv : history [.script host file calls script] ⟨{}, w⟩ = vs := by
    rw [history, history, List.append_nil, Turn.visits_parsed hp]
  have hk : ∀ t ∈ [Turn.script host file calls script], t.host.Detached := by
    simpa [Turn.host] using hd
  have hm := Moment.last [.script host file calls script] ⟨{}, w⟩
  rw [hv, ← hs] at hm
  constructor
  · intro x
    have hg := globals_of_moment hk hm
    dsimp only at hg
    rw [hg, Table.keys_putAll_empty, List.mem_eraseDups, List.mem_map]
    constructor
    · rintro ⟨⟨_, value⟩, he, rfl⟩
      obtain ⟨v, hv, hb⟩ := List.mem_filterMap.mp he
      exact ⟨v, hv, value, hb⟩
    · rintro ⟨v, hv, value, hb⟩
      exact ⟨(x, value), List.mem_filterMap.mpr ⟨v, hv, hb⟩, rfl⟩
  · intro sig
    have hf := methods_chronicle.moment hk rfl hm
    dsimp only at hf
    rw [hf, filed, Table.keys_putAll_empty]
    simp

theorem Visit.statement_of_bound? {v : Visit ω} {x : String} {value : Value}
    (h : v.bound? = some (x, value)) :
    v.frame.locals = none ∧ ∃ e line, v.statement = .assign x e line := by
  unfold Visit.bound? at h
  split at h
  · next hl hd =>
    cases h
    obtain ⟨e, line, -, -, ht, -⟩ := deed?_cases hd
    exact ⟨hl, e, line, ht⟩
  · cases h

theorem Visit.depth_pos {v : Visit ω} {g : Frame ω} (hx : v.outcome = .ok () g) : 0 < v.depth := by
  obtain ⟨host, file, rounds, depth, t, f⟩ := v
  cases depth with
  | zero => cases hx
  | succ depth => exact Nat.succ_pos depth

theorem Visit.height_le_of_assign {v : Visit ω} {x : String} {e : Expr} {line : Int} {g : Frame ω}
    (ht : v.statement = .assign x e line) (hx : v.outcome = .ok () g) : e.height ≤ v.depth := by
  obtain ⟨host, file, rounds, depth, t, f⟩ := v
  dsimp only at ht ⊢
  subst ht
  cases depth with
  | zero => cases hx
  | succ depth =>
    rw [Visit.outcome, exec_assign] at hx
    split at hx
    · next n hn =>
      obtain ⟨value, hv, -⟩ := exists_of_bind_ok hn
      exact (height_le_of_eval hv).trans (Nat.le_succ depth)
    · cases hx

/-- Symbols agree with the run. After a script that ends well in a fresh context, its symbols can be
listed, and what they name is there: each variable is bound, and each method is filed under its name
and arity. Conversely a variable that is bound is assigned to outside of methods, and a method that
is filed is defined somewhere in the script. -/
theorem symbols_of_run (hd : host.Detached) (hc : calls ≤ stackLimit) {w : ω}
    (hx : executeWithin host calls file script ⟨{}, w⟩ = .ok () s) (uri : String) :
    ∃ p symbols, parseWithin calls file script = .ok p ∧
      Symbol.collect uri p = .ok symbols ∧
      (∀ symbol ∈ symbols, symbol.kind = .binding → symbol.name ∈ s.context.globals.keys) ∧
      (∀ symbol ∈ symbols, symbol.kind = .method →
        ∃ params body line, Stmt.define symbol.name params body line ∈ p ∧
          symbol = .ofMethod uri symbol.name params line ∧
          ⟨symbol.name, params.length⟩ ∈ s.context.methods.keys) ∧
      (∀ x ∈ s.context.globals.keys, ∃ e line, (Stmt.assign x e line).Outer (.block p)) ∧
      ∀ sig ∈ s.context.methods.keys, ∃ params body line, params.length = sig.arity ∧
        (Stmt.define sig.name params body line).Part (.block p) := by
  obtain ⟨p, hp, hr⟩ := exists_of_executeWithin_ok hx
  have he := runStatement_eq_ok hr
  obtain ⟨hg, hm⟩ := keys_of_script hd hp hx
  have hparsed : Stmt.Derived (.block p) := derived_of_parseWithin hp
  have visit := fun (t : Stmt) (ht : t ∈ p) => exists_visit_of_mem he ht
  obtain ⟨symbols, hs⟩ : ∃ symbols, Symbol.collect uri p = .ok symbols := by
    apply Symbol.exists_collectFrom
    intro x e line ht
    obtain ⟨v, -, hv, hlt, -, g, ho⟩ := visit _ ht
    have hh := v.height_le_of_assign hv ho
    exact ⟨by omega, (hparsed.mem _ ht).assign.writable⟩
  refine ⟨p, symbols, hp, hs, ?_, ?_, ?_, ?_⟩
  · intro symbol hmem hk
    rcases Symbol.of_mem_collectFrom hs symbol hmem with ⟨-, e, line, ht⟩ | ⟨_, _, _, -, he⟩
    · obtain ⟨v, hv, hst, -, hl, ho⟩ := visit _ ht
      obtain ⟨n, hb⟩ := Visit.Assigns.bound? ⟨hl, ⟨e, line, hst⟩, ho⟩
      exact (hg _).mpr ⟨v, hv, _, hb⟩
    · rw [he] at hk
      cases hk
  · intro symbol hmem hk
    rcases Symbol.of_mem_collectFrom hs symbol hmem with ⟨hb, -⟩ | ⟨params, body, line, ht, he⟩
    · rw [hb] at hk
      cases hk
    · refine ⟨params, body, line, ht, he, (hm _).mpr ?_⟩
      obtain ⟨v, hv, hst, -, -, g, ho⟩ := visit _ ht
      exact ⟨⟨symbol.name, params, body, line⟩,
        mem_definitions.mpr ⟨v, hv, v.depth_pos ho, hst⟩, rfl⟩
  · intro x hx
    obtain ⟨v, hv, value, hb⟩ := (hg x).mp hx
    obtain ⟨hl, e, line, ht⟩ := v.statement_of_bound? hb
    exact ⟨e, line, ht ▸ visits_outer hv hl⟩
  · intro sig hsig
    have hf := exec_definedIn hd (.block p) (by simp [Frame.DefinedIn]) he
    obtain ⟨e, hmem, rfl⟩ := List.mem_map.mp hsig
    obtain ⟨hk, hpart⟩ := hf e hmem
    rw [hk]
    exact ⟨e.2.params, e.2.body, e.2.line, rfl, hpart⟩

end

/-- Binds a variable under a condition, and defines a method inside another one. -/
def nestedScript : String :=
  "x = 1\nMethod M(a)\nz = x\nMethod N(b, c)\nsay b\nEndmethod\nEndmethod
If x == 1\ny = 2\nEndif\nM(3)"

/-- The variable of the method is not there afterwards, but the method inside it is. -/
theorem symbols_of_run_nested :
    ∃ s p, executeWithin (Registry.host [{ name := "say" }]) 50 none nestedScript ⟨{}, {}⟩ =
        .ok () s ∧
      s.context.globals.keys = ["x", "y"] ∧
      s.context.methods.keys = [⟨"M", 1⟩, ⟨"N", 2⟩] ∧
      parseWithin 50 none nestedScript = .ok p ∧
      (∃ symbols, Symbol.collect "file:///a.ase" p = .ok symbols ∧
        ∀ symbol ∈ symbols, symbol.kind = .binding → symbol.name ∈ ["x", "y"]) ∧
      (∃ e line, (Stmt.assign "y" e line).Outer (.block p)) ∧
      ∃ params body line, params.length = 2 ∧ (Stmt.define "N" params body line).Part (.block p) := by
  have hd : (Registry.host [{ name := "say" }]).Detached :=
    Registry.hostWithin_detached (by simp [Registry.Echoes]) _
  have hr : let o := (Session.ofResult
        (executeWithin (Registry.host [{ name := "say" }]) 50 none nestedScript ⟨{}, {}⟩)).1
      o.halt = none ∧ o.context.globals.keys = ["x", "y"] ∧
        o.context.methods.keys = [⟨"M", 1⟩, ⟨"N", 2⟩] := by
    decide +kernel
  cases hx : executeWithin (Registry.host [{ name := "say" }]) 50 none nestedScript ⟨{}, {}⟩ with
  | error h s =>
    rw [hx] at hr
    cases hr.1
  | ok _ s =>
    rw [hx] at hr
    obtain ⟨-, hg, hm⟩ : _ ∧ s.context.globals.keys = _ ∧ s.context.methods.keys = _ := hr
    obtain ⟨p, symbols, hp, hs, hb, -, ho, hf⟩ := symbols_of_run hd (by decide) hx "file:///a.ase"
    rw [hg] at hb ho
    rw [hm] at hf
    exact ⟨s, p, rfl, hg, hm, hp, ⟨symbols, hs, hb⟩, ho "y" (by simp), hf ⟨"N", 2⟩ (by simp)⟩

end CommandScript
