import CommandScript.Proofs.Equality
import CommandScript.Proofs.Running.Commands
import CommandScript.Proofs.Tables

/-! # Variables that are not mentioned

A program reads and writes the variables it mentions, and those that its methods mention. Whatever
else the global scope holds has no bearing on a run and comes out of it as it was.
-/

namespace CommandScript

mutual

/-- The variables that occur in a tree: its identifiers, the targets of its assignments and the
parameters of its methods. -/
def Tree.names : Tree → List String
  | .integer _ => []
  | .identifier x => [x]
  | .arith l _ r => l.names ++ r.names
  | .compare l _ r => l.names ++ r.names
  | .block ts => Tree.namesAll ts
  | .conditional c body _ => c.names ++ body.names
  | .loop c body _ => c.names ++ body.names
  | .assign x e _ => x :: e.names
  | .define _ params body _ => params ++ body.names
  | .invoke _ args _ => Tree.namesAll args
  | .command _ args _ => Tree.namesAll args

def Tree.namesAll : List Tree → List String
  | [] => []
  | t :: ts => t.names ++ Tree.namesAll ts

end

/-- The variables that occur in a statement or in a method of the context. -/
def mentioned (t : Stmt) (c : Context) : List String :=
  t.toTree.names ++ c.methods.values.flatMap fun m => m.toTree.names

variable {ω : Type} {R : ω → ω → Prop} {V : String → Prop} {a b : Scope}

theorem Expr.like_of_names {e : Expr} (h : ∀ x ∈ e.toTree.names, V x) : e.Like V Eq e := by
  induction e with
  | int n => exact .int n
  | var x => exact .var (h x (List.mem_singleton_self x))
  | arith l o r ihl ihr =>
    obtain ⟨hl, hr⟩ := List.forall_mem_append.mp h
    exact .arith o (ihl hl) (ihr hr)
  | compare l o r ihl ihr =>
    obtain ⟨hl, hr⟩ := List.forall_mem_append.mp h
    exact .compare o (ihl hl) (ihr hr)
  | misplaced tree => exact .misplaced rfl

theorem Expr.forall₂_like_of_names {es : List Expr}
    (h : ∀ x ∈ Tree.namesAll (es.map Expr.toTree), V x) :
    List.Forall₂ (Expr.Like V Eq) es es := by
  induction es with
  | nil => exact .nil
  | cons e es ih =>
    obtain ⟨he, hes⟩ := List.forall_mem_append.mp h
    exact .cons (like_of_names he) (ih hes)

namespace Likeness

/-- The variables that `V` mentions agree, and the others are as they are in `a` and in `b`. -/
def mentioning (R : ω → ω → Prop) (V : String → Prop) (a b : Scope) : Likeness ω where
  lines := Eq
  occurs := V
  trees := Eq
  stmts s s' := s = s' ∧ ∀ x ∈ s.toTree.names, V x
  files := True
  scopes c d := (∀ x, V x → c.get? x = d.get? x) ∧
    ∀ x, ¬ V x → c.get? x = a.get? x ∧ d.get? x = b.get? x
  worlds := R
  kind_eq := congrArg Tree.kind
  parts {s s'} := by
    rintro ⟨rfl, hs⟩
    cases s with
    | block ss =>
      apply Matching.Parts.block
      induction ss with
      | nil => exact .nil
      | cons s ss ih =>
        obtain ⟨hs, hss⟩ := List.forall_mem_append.mp hs
        exact .cons ⟨rfl, hs⟩ (ih hss)
    | conditional e body line =>
      obtain ⟨he, hb⟩ := List.forall_mem_append.mp hs
      exact .conditional (Expr.like_of_names he) ⟨rfl, hb⟩ rfl
    | loop e body line =>
      obtain ⟨he, hb⟩ := List.forall_mem_append.mp hs
      exact .loop (Expr.like_of_names he) ⟨rfl, hb⟩ rfl
    | assign x e line =>
      obtain ⟨hx, he⟩ := List.forall_mem_cons.mp hs
      exact .assign hx (Expr.like_of_names he) rfl
    | define x params body line =>
      obtain ⟨-, hb⟩ := List.forall_mem_append.mp hs
      exact .define x params ⟨rfl, hb⟩ rfl
    | invoke x es line => exact .invoke x (Expr.forall₂_like_of_names hs) rfl
    | command x es line => exact .command x (Expr.forall₂_like_of_names hs) rfl
    | misplaced tree => exact .misplaced rfl
  get?_eq h hx := h.1 _ hx
  put {c d x} v h hx := by
    constructor
    · intro y hy
      by_cases hxy : y = x
      · rw [hxy, Table.get?_put_self, Table.get?_put_self]
      · rw [Table.get?_put_of_ne _ hxy, Table.get?_put_of_ne _ hxy, h.1 y hy]
    · intro y hy
      have hxy : y ≠ x := by
        rintro rfl
        exact hy hx
      rw [Table.get?_put_of_ne _ hxy, Table.get?_put_of_ne _ hxy]
      exact h.2 y hy

theorem eq_of_mentioning_halts {h h' : Halt} (hh : (mentioning R V a b).Halts h h') : h = h' := by
  cases hh with
  | same => rfl
  | @fault f g hc hl hf =>
    obtain ⟨cause, line, file⟩ := f
    obtain ⟨cause', line', file'⟩ := g
    obtain rfl : cause = cause' := hc
    obtain rfl : file = file' := hf trivial
    cases (hl : Option.Rel Eq line line') with
    | none => rfl
    | some hl => rw [hl]
  | outOfPlace depth ht =>
    obtain rfl : _ = _ := ht
    rfl

theorem eq_of_mentioning_entries {e e' : Signature × Method}
    (h : (mentioning R V a b).Entries e e') : e = e' := by
  obtain ⟨k, m⟩ := e
  obtain ⟨k', m'⟩ := e'
  obtain ⟨name, params, body, line⟩ := m
  obtain ⟨name', params', body', line'⟩ := m'
  obtain ⟨hk, hn, hp, ⟨hb, -⟩, hl⟩ := h
  simp only at hk hn hp hb
  obtain rfl : line = line' := hl
  rw [hk, hn, hp, hb]

theorem mentioning_frames {c c' : Context} {w w' : ω} (hm : c.methods = c'.methods)
    (hg : ∀ x, V x → c.globals.get? x = c'.globals.get? x)
    (hv : ∀ m ∈ c.methods.values, ∀ x ∈ m.toTree.names, V x) (hw : R w w') :
    (mentioning R V c.globals c'.globals).Frames { context := c, world := w }
      { context := c', world := w' } := by
  refine ⟨⟨hg, fun _ _ => ⟨rfl, rfl⟩⟩, ?_, rfl, hw⟩
  rw [← hm, List.forall₂_same]
  intro e he
  have hn := hv e.2 (List.mem_map_of_mem he)
  exact ⟨rfl, rfl, rfl, ⟨rfl, (List.forall_mem_append.mp hn).2⟩, rfl⟩

end Likeness

open Likeness in
/-- Variables that are not mentioned are neither read nor written. Run in two contexts that have the
same methods and agree on the variables that are mentioned, a program ends in both or in neither, it
dispatches the same commands, stops for the same reason, and leaves the same methods and the same
values of the variables that are mentioned. The other ones keep their values. -/
theorem unmentioned_inert {host : Host ω} (hh : host.Respects R) {t : Stmt} {c c' : Context}
    {w w' : ω} (hm : c.methods = c'.methods)
    (hg : ∀ x ∈ mentioned t c, c.globals.get? x = c'.globals.get? x) (hw : R w w')
    (file : Option String) (depth : Nat) :
    (Ends host file depth t ⟨c, w⟩ ↔ Ends host file depth t ⟨c', w'⟩) ∧
    ∀ rounds,
      let r := runStatement host file rounds depth t ⟨c, w⟩
      let r' := runStatement host file rounds depth t ⟨c', w'⟩
      let s := lastState r
      let s' := lastState r'
      issued host file rounds depth t { context := c, world := w } =
        issued host file rounds depth t { context := c', world := w' } ∧
      failure? r = failure? r' ∧
      s.context.methods = s'.context.methods ∧
      R s.world s'.world ∧
      (∀ x ∈ mentioned t c, s.context.globals.get? x = s'.context.globals.get? x) ∧
      ∀ x ∉ mentioned t c, s.context.globals.get? x = c.globals.get? x ∧
        s'.context.globals.get? x = c'.globals.get? x := by
  have hv : ∀ m ∈ c.methods.values, ∀ x ∈ m.toTree.names, x ∈ mentioned t c := by
    intro m hm x hx
    exact List.mem_append_right _ (List.mem_flatMap.mpr ⟨m, hm, hx⟩)
  have ht : (mentioning R (· ∈ mentioned t c) c.globals c'.globals).stmts t t :=
    ⟨rfl, fun x hx => List.mem_append_left _ hx⟩
  have hf := mentioning_frames hm hg hv hw
  refine ⟨ends_like hh (fun _ => rfl) depth ht hf, ?_⟩
  intro rounds
  obtain ⟨hr, hs⟩ := runStatement_like hh (fun _ => rfl) rounds depth ht hf
  dsimp only
  generalize runStatement host file rounds depth t ⟨c, w⟩ = r at hr hs ⊢
  generalize runStatement host file rounds depth t ⟨c', w'⟩ = r' at hr hs ⊢
  refine ⟨issued_like hh (fun _ => rfl) rounds depth ht hf, ?_, ?_, hs.world, hs.globals.1,
    hs.globals.2⟩
  · generalize failure? r = o at hr ⊢
    generalize failure? r' = o' at hr ⊢
    cases hr with
    | none => rfl
    | some hr => exact congrArg some (eq_of_mentioning_halts hr)
  · have he := hs.methods.imp fun _ _ h => eq_of_mentioning_entries h
    rw [List.forall₂_eq_eq_eq] at he
    exact congrArg Table.mk he

/-- Counts `i` up and shows it in a method. -/
def counting : Stmt := .block [
  .define "Show" ["n"] (.block [.command "say" [.var "n"] 2]) 1,
  .loop (.compare (.var "i") (.known .lt) (.int 2)) (.block [
    .invoke "Show" [.var "i"] 5,
    .assign "i" (.arith (.var "i") (.known .add) (.int 1)) 6]) 4]

theorem unmentioned_inert_counting :
    let host := Registry.host [{ name := "say" }]
    let c : Context := { globals := ⟨[("i", .int 0), ("z", .int 5)]⟩ }
    let c' : Context := { globals := ⟨[("z", .int 7), ("i", .int 0)]⟩ }
    mentioned counting c = ["n", "n", "i", "i", "i", "i"] ∧
    (Ends host none 50 counting ⟨c, {}⟩ ↔ Ends host none 50 counting ⟨c', {}⟩) ∧
    issued host none 3 50 counting { context := c', world := {} } = [("say", ["0"]), ("say", ["1"])] ∧
    (lastState (runStatement host none 3 50 counting ⟨c', {}⟩)).context.globals.get? "i" =
      some (.int 2) ∧
    (lastState (runStatement host none 3 50 counting ⟨c', {}⟩)).context.globals.get? "z" =
      some (.int 7) := by
  intro host c c'
  have hh : host.Respects World.Agrees :=
    Registry.hostWithin_respects (by simp [Registry.Echoes]) _
  have hn : mentioned counting c = ["n", "n", "i", "i", "i", "i"] := by decide +kernel
  have hg : ∀ x ∈ mentioned counting c, c.globals.get? x = c'.globals.get? x := by
    rw [hn]
    decide +kernel
  have hm : c.methods = c'.methods := rfl
  have hw : World.Agrees {} {} := rfl
  obtain ⟨he, hr⟩ := unmentioned_inert hh hm hg hw none 50
  obtain ⟨hi, -, -, -, hs, hu⟩ := hr 3
  refine ⟨hn, he, ?_, ?_, ?_⟩
  · rw [← hi]
    decide +kernel
  · rw [← hs "i" (by rw [hn]; decide)]
    decide +kernel
  · exact (hu "z" (by rw [hn]; decide)).2

end CommandScript
