import CommandScript.Proofs.Lines
import CommandScript.Proofs.Running.Likeness

/-! # Runs that differ in lines

Lines locate faults and do nothing else. Statements that differ in lines only, run in frames that
differ in lines only, go the same way: both end in such frames, or both stop for the same cause.
The worlds of the two hosts may differ in what the commands do not look at.
-/

namespace CommandScript

variable {ω α : Type} {R : ω → ω → Prop} {b : Prop}

def Method.withoutLines (m : Method) : Method :=
  { m with body := m.body.withoutLines, line := 0 }

/-- The context with the lines of its methods forgotten. -/
def Context.withoutLines (c : Context) : Context :=
  { c with methods := ⟨c.methods.entries.map fun (k, m) => (k, m.withoutLines)⟩ }

/-- The frames differ at most in lines and in unrelated parts of their worlds. -/
structure Frame.Like (R : ω → ω → Prop) (f g : Frame ω) : Prop where
  context : f.context.withoutLines = g.context.withoutLines
  locals : f.locals = g.locals
  world : R f.world g.world

/-- The halts have one cause; and one file if `b` holds. -/
def Halt.Like (b : Prop) : Halt → Halt → Prop
  | .fault f, .fault g => f.cause = g.cause ∧ (b → f.file = g.file)
  | h, h' => h = h'

/-- The runs ended alike. -/
def Run.Alike (R : ω → ω → Prop) (b : Prop) :
    EStateM.Result Halt (Frame ω) α → EStateM.Result Halt (Frame ω) α → Prop
  | .ok a f, .ok a' g => a = a' ∧ f.Like R g
  | .error h f, .error h' g => h.Like b h' ∧ f.Like R g
  | _, _ => False

theorem Context.withoutLines_globals (c : Context) : c.withoutLines.globals = c.globals := rfl

theorem Halt.like_refl (h : Halt) : h.Like b h := by
  cases h with
  | fault f => exact ⟨rfl, fun _ => rfl⟩
  | _ => rfl

theorem Expr.like_refl (e : Expr) : e.Like (fun _ => True) Eq e := by
  induction e with
  | int n => exact .int n
  | var x => exact .var trivial
  | arith l o r ihl ihr => exact .arith o ihl ihr
  | compare l o r ihl ihr => exact .compare o ihl ihr
  | misplaced tree => exact .misplaced rfl

theorem forall₂_of_map_eq {β : Type} {k : α → β} {as bs : List α} (h : as.map k = bs.map k) :
    List.Forall₂ (fun a b => k a = k b) as bs := by
  rw [← List.forall₂_eq_eq_eq, List.forall₂_map_left_iff, List.forall₂_map_right_iff] at h
  exact h

namespace Likeness

/-- Lines do not count, and `b` tells whether files do. -/
def lineless (R : ω → ω → Prop) (b : Prop) : Likeness ω where
  lines _ _ := True
  occurs _ := True
  trees := Eq
  stmts s s' := s.withoutLines = s'.withoutLines
  files := b
  scopes := Eq
  worlds := R
  kind_eq := congrArg Tree.kind
  parts {s s'} h := by
    have args : ∀ es : List Expr, List.Forall₂ (Expr.Like (fun _ => True) Eq) es es :=
      fun es => List.forall₂_same.mpr fun e _ => e.like_refl
    have hs := Stmt.cases_of_withoutLines h
    cases s with
    | block ss =>
      obtain ⟨ss', rfl, hss⟩ := hs
      exact .block (forall₂_of_map_eq hss)
    | conditional e body line =>
      obtain ⟨body', line', rfl, hbody⟩ := hs
      exact .conditional e.like_refl hbody trivial
    | loop e body line =>
      obtain ⟨body', line', rfl, hbody⟩ := hs
      exact .loop e.like_refl hbody trivial
    | assign x e line =>
      obtain ⟨line', rfl⟩ := hs
      exact .assign trivial e.like_refl trivial
    | define x params body line =>
      obtain ⟨body', line', rfl, hbody⟩ := hs
      exact .define x params hbody trivial
    | invoke x es line =>
      obtain ⟨line', rfl⟩ := hs
      exact .invoke x (args es) trivial
    | command x es line =>
      obtain ⟨line', rfl⟩ := hs
      exact .command x (args es) trivial
    | misplaced tree =>
      subst hs
      exact .misplaced rfl
  get?_eq h _ := congrArg (Table.get? · _) h
  put v h _ := congrArg (Table.put · _ v) h

variable {m m' : Method} {f g : Frame ω}

theorem lineless_methods : (lineless R b).Methods m m' ↔ m.withoutLines = m'.withoutLines := by
  constructor
  · rintro ⟨hn, hp, hb, -⟩
    simp only [Method.withoutLines, hn, hp, Method.mk.injEq, true_and, and_true]
    exact hb
  · intro h
    simp only [Method.withoutLines, Method.mk.injEq, and_true] at h
    exact ⟨h.1, h.2.1, h.2.2, trivial⟩

theorem lineless_entries : (lineless R b).Entries =
    fun e e' => (e.1, e.2.withoutLines) = (e'.1, e'.2.withoutLines) := by
  funext e e'
  rw [Entries, lineless_methods, Prod.mk.injEq]

theorem lineless_frames : (lineless R b).Frames f g ↔ f.Like R g := by
  have hm : List.Forall₂ (lineless R b).Entries f.context.methods.entries
      g.context.methods.entries ↔
        f.context.withoutLines.methods = g.context.withoutLines.methods := by
    simp only [lineless_entries, Context.withoutLines, Table.mk.injEq, ← List.forall₂_eq_eq_eq,
      List.forall₂_map_left_iff, List.forall₂_map_right_iff]
  constructor
  · intro h
    refine ⟨?_, h.locals, h.world⟩
    have hg : f.context.withoutLines.globals = g.context.withoutLines.globals := h.globals
    generalize f.context.withoutLines = c at hm hg ⊢
    generalize g.context.withoutLines = c' at hm hg ⊢
    cases c
    cases c'
    simp only [Context.mk.injEq]
    exact ⟨hg, hm.mp h.methods⟩
  · intro h
    have hg : f.context.withoutLines.globals = g.context.withoutLines.globals :=
      congrArg Context.globals h.context
    exact ⟨hg, hm.mpr (congrArg Context.methods h.context), h.locals, h.world⟩

theorem lineless_halts {h h' : Halt} (hh : (lineless R b).Halts h h') : h.Like b h' := by
  cases hh with
  | same => exact h.like_refl
  | fault hc _ hf => exact ⟨hc, hf⟩
  | outOfPlace depth ht =>
    obtain rfl : _ = _ := ht
    exact Halt.like_refl _

end Likeness

open Likeness in
/-- Lines are inert: statements that differ in lines only run alike. -/
theorem exec_alike {host : Host ω} {file file' : Option String} {f g : Frame ω}
    (hh : host.Respects R) (hb : b → file = file') (rounds depth : Nat) {s s' : Stmt}
    (hs : s.withoutLines = s'.withoutLines) (hl : f.Like R g) :
    Run.Alike R b (exec host file rounds depth s f) (exec host file' rounds depth s' g) := by
  have hr : (lineless R b).Runs (exec host file rounds depth s f)
      (exec host file' rounds depth s' g) :=
    exec_like hh hb rounds depth hs (lineless_frames.mpr hl)
  rcases hr.cases with ⟨_, f₁, g₁, hx, hy, hf⟩ | ⟨h, h', f₁, g₁, hx, hy, hh, hf⟩
  · rw [hx, hy]
    exact ⟨rfl, lineless_frames.mp hf⟩
  · rw [hx, hy]
    exact ⟨lineless_halts hh, lineless_frames.mp hf⟩

end CommandScript
