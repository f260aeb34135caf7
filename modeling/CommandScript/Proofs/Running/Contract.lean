import CommandScript.Proofs.Running.Logic

/-! # What a run keeps to

To know that every run keeps to a contract it is enough to look at the single steps: an assignment,
a definition, a note, a command, and entering and leaving the scope of a method.
-/

namespace CommandScript

variable {ω α β : Type}

/-- The events that a statement takes note of while it runs. -/
inductive Event.OfRun : Event → Prop where
  | defined (signature : Signature) : OfRun (.defined signature)
  | invoking (written target : String) (locals : Scope) : OfRun (.invoking written target locals)

/-- Statements of `S`, run in frames of `P`, end in frames of `P` that `T` relates to the first. -/
structure Contract (host : Host ω) (S : Stmt → Prop) (P : Frame ω → Prop)
    (T : Frame ω → Frame ω → Prop) : Prop where
  refl : ∀ f, T f f
  trans : ∀ {f g k}, T f g → T g k → T f k
  block : ∀ {ss}, S (.block ss) → ∀ s ∈ ss, S s
  conditional : ∀ {e body line}, S (.conditional e body line) → S body
  loop : ∀ {e body line}, S (.loop e body line) → S body
  method : ∀ {f arity m}, P f → f.context.resolve? arity = some m → S m.body
  assign : ∀ {f} name n, P f → P (f.assign name (.int n)) ∧ T f (f.assign name (.int n))
  define : ∀ {f name params body line}, S (.define name params body line) → P f →
    P { f with context := f.context.define ⟨name, params, body, line⟩ } ∧
    T f { f with context := f.context.define ⟨name, params, body, line⟩ }
  note : ∀ {f event}, event.OfRun → P f → P { f with world := host.note event f.world } ∧
    T f { f with world := host.note event f.world }
  dispatch : ∀ {f calls name args s site depth es}, P f →
    List.mapM (evalText site f.active depth) es = .ok args →
    (host.dispatch calls name args f.toState = .ok () s ∨
      ∃ h, host.dispatch calls name args f.toState = .error h s) →
    P { f with toState := s } ∧ T f { f with toState := s }
  enter : ∀ {f site depth args locals}, P f →
    bindArguments site f.active depth args {} = .ok locals → P { f with locals := some locals }
  leave : ∀ {f g locals}, P f → P g → T { f with locals := some locals } g →
    P { g with locals := f.locals } ∧ T f { g with locals := f.locals }

/-- The run from `f` ended as the contract says. -/
def Run.Keeps (P : Frame ω → Prop) (T : Frame ω → Frame ω → Prop) (f : Frame ω) :
    EStateM.Result Halt (Frame ω) α → Prop
  | .ok _ g => P g ∧ T f g
  | .error _ g => P g ∧ T f g

theorem Run.keeps_iff {P : Frame ω → Prop} {T : Frame ω → Frame ω → Prop} {f : Frame ω}
    {r : EStateM.Result Halt (Frame ω) α} :
    Keeps P T f r ↔ P (lastState r) ∧ T f (lastState r) := by
  cases r <;> rfl

namespace Contract

open Run

variable {host : Host ω} {S : Stmt → Prop} {P : Frame ω → Prop} {T : Frame ω → Frame ω → Prop}
  {f : Frame ω}

theorem after (hc : Contract host S P T) {g : Frame ω} (ht : T f g)
    {r : EStateM.Result Halt (Frame ω) α} (hr : Keeps P T g r) : Keeps P T f r := by
  cases r with
  | ok _ k => exact ⟨hr.1, hc.trans ht hr.2⟩
  | error _ k => exact ⟨hr.1, hc.trans ht hr.2⟩

theorem bind (hc : Contract host S P T) {p : Run ω α} {k : α → Run ω β} (hp : Keeps P T f (p f))
    (hk : ∀ a g, p f = .ok a g → P g → Keeps P T g (k a g)) : Keeps P T f ((p >>= k) f) := by
  cases h : p f with
  | error e g =>
    rw [h] at hp
    rw [bind_error h]
    exact hp
  | ok a g =>
    rw [h] at hp
    rw [bind_ok h]
    exact hc.after hp.2 (hk a g h hp.1)

theorem pure (hc : Contract host S P T) (a : α) (hp : P f) :
    Keeps P T f ((Pure.pure a : Run ω α) f) :=
  ⟨hp, hc.refl f⟩

theorem ofExcept (hc : Contract host S P T) (x : Except Halt α) (hp : P f) :
    Keeps P T f ((Run.ofExcept x : Run ω α) f) := by
  cases x with
  | ok a => exact ⟨hp, hc.refl f⟩
  | error h => exact ⟨hp, hc.refl f⟩

theorem each (hc : Contract host S P T) {k : Stmt → Run ω Unit} {ss : List Stmt}
    (hk : ∀ s ∈ ss, ∀ f, P f → Keeps P T f (k s f)) (hp : P f) :
    Keeps P T f (Run.each k ss f) := by
  induction ss generalizing f with
  | nil => exact ⟨hp, hc.refl f⟩
  | cons s ss ih =>
    apply hc.bind (hk s (by simp) f hp)
    intro _ g _ hg
    exact ih (fun s hs => hk s (by simp [hs])) hg

theorem repeatWhile (hc : Contract host S P T) {p : Run ω Bool} {k : Run ω Unit}
    (hp : ∀ f, P f → Keeps P T f (p f)) (hk : ∀ f, P f → Keeps P T f (k f)) (n : Nat) (hf : P f) :
    Keeps P T f (Run.repeatWhile p k n f) := by
  induction n generalizing f with
  | zero => exact ⟨hf, hc.refl f⟩
  | succ n ih =>
    unfold Run.repeatWhile
    apply hc.bind (hp f hf)
    intro t g _ hg
    cases t with
    | false => exact hc.pure () hg
    | true =>
      apply hc.bind (hk g hg)
      intro _ g' _ hg'
      exact ih hg'

theorem inScope (hc : Contract host S P T) {locals : Scope} {p : Run ω Unit} (hp : P f)
    (hk : Keeps P T { f with locals := some locals } (p { f with locals := some locals })) :
    Keeps P T f (Run.inScope locals p f) := by
  cases h : p { f with locals := some locals } with
  | ok _ g =>
    rw [h] at hk
    rw [inScope_ok h]
    exact hc.leave hp hk.1 hk.2
  | error _ g =>
    rw [h] at hk
    rw [inScope_error h]
    exact hc.leave hp hk.1 hk.2

/-- Every run keeps to the contract. -/
theorem exec (hc : Contract host S P T) (file : Option String) (rounds depth : Nat) {s : Stmt}
    (hs : S s) (hf : P f) : Keeps P T f (CommandScript.exec host file rounds depth s f) := by
  induction depth using Nat.strongRecOn generalizing s f with
  | ind depth ih =>
    cases depth with
    | zero => exact ⟨hf, hc.refl f⟩
    | succ depth =>
      have ih' : ∀ {s f}, S s → P f → Keeps P T f (CommandScript.exec host file rounds depth s f) :=
        fun hs hf => ih depth (Nat.lt_succ_self _) hs hf
      cases s with
      | block ss => exact hc.each (fun s hs' f hf => ih' (hc.block hs s hs') hf) hf
      | conditional e body line =>
        rw [exec_conditional]
        split
        · exact ih' (hc.conditional hs) hf
        · exact ⟨hf, hc.refl f⟩
        · exact ⟨hf, hc.refl f⟩
      | loop e body line =>
        rw [exec_loop]
        apply hc.repeatWhile _ (fun f hf => ih' (hc.loop hs) hf) rounds hf
        intro f hf
        exact hc.ofExcept _ hf
      | assign x e line =>
        rw [exec_assign]
        split
        · next n _ => exact hc.assign x n hf
        · exact ⟨hf, hc.refl f⟩
      | define x params body line =>
        obtain ⟨hp, ht⟩ := hc.define hs hf
        obtain ⟨hp', ht'⟩ := hc.note (.defined ⟨x, params.length⟩) hp
        exact ⟨hp', hc.trans ht ht'⟩
      | invoke x args line =>
        cases depth with
        | zero => exact ⟨hf, hc.refl f⟩
        | succ inner =>
          rw [exec_invoke]
          split
          · exact ⟨hf, hc.refl f⟩
          next m hm =>
          split
          · next locals hb =>
            -- the note comes before the scope is entered
            obtain ⟨hp, ht⟩ := hc.note (.invoking x m.name locals) hf
            have he := hc.enter hp hb
            exact hc.after ht (hc.inScope hp (ih inner (by omega) (hc.method hf hm) he))
          · exact ⟨hf, hc.refl f⟩
      | command x args line =>
        rw [exec_command]
        split
        · next texts ht =>
          cases h : host.dispatch depth x texts f.toState with
          | ok _ s =>
            rw [dispatch_ok h]
            exact hc.dispatch hf ht (Or.inl h)
          | error e s =>
            rw [dispatch_error h]
            exact hc.dispatch hf ht (Or.inr ⟨e, h⟩)
        · exact ⟨hf, hc.refl f⟩
      | misplaced tree => exact ⟨hf, hc.refl f⟩

end Contract

end CommandScript
