import CommandScript.Index
import CommandScript.Proofs.Results
import CommandScript.Proofs.Tables

/-! # Requests to the index

A text is indexed if it parses and its symbols can be listed. Any other text leaves the index as it
was, with a diagnostic for an answer or none at all. Finding and reading a file leaves it as it was
in any case.
-/

namespace CommandScript

theorem Diagnostic.check_cases (file : Option String) (text : String) :
    (∃ p, parse file text = .ok p ∧ check text = .ok (.ok p)) ∨
    (∃ fault d, parse file text = .error (.fault fault) ∧ check text = .ok (.error d)) ∨
    parse file text = .error .overflow ∧ check text = .error .overflow := by
  unfold parse parseWithin check
  cases parseTokens stackLimit (lex text) with
  | ok p => exact Or.inl ⟨p, rfl, rfl⟩
  | error e =>
    cases e with
    | malformed reason incomplete line => exact Or.inr (Or.inl ⟨_, _, rfl, rfl⟩)
    | tooDeep => exact Or.inr (Or.inr ⟨rfl, rfl⟩)

namespace Index

/-! ## Updates -/

/-- The text of a document parses, and these are its symbols. -/
def Lists (uri text : String) (symbols : List Symbol) : Prop :=
  ∃ p, parse (some uri) text = .ok p ∧ Symbol.collect uri p = .ok symbols

theorem update_of_check {text : String} {p : Program} (h : Diagnostic.check text = .ok (.ok p))
    (uri : String) (index : Index) :
    update uri text index = match Symbol.collect uri p with
      | .ok symbols => .ok [] (index.insert uri symbols)
      | .error halt => .error (.halt halt) index := by
  rw [update, h]
  change (ofExcept (Symbol.collect uri p) >>= _ : Request _) index = _
  cases Symbol.collect uri p <;> rfl

/-- What an update can do. -/
theorem update_cases (uri text : String) (index : Index) :
    (∃ symbols, Lists uri text symbols ∧
      update uri text index = .ok [] (index.insert uri symbols)) ∨
    (∃ d, (∀ p, parse (some uri) text ≠ .ok p) ∧ update uri text index = .ok [d] index) ∨
    ∃ halt, (∀ symbols, ¬ Lists uri text symbols) ∧
      update uri text index = .error (.halt halt) index := by
  rcases Diagnostic.check_cases (some uri) text with ⟨p, hp, hc⟩ | ⟨f, d, hp, hc⟩ | ⟨hp, hc⟩
  · have hu := update_of_check hc uri index
    cases hs : Symbol.collect uri p with
    | ok symbols =>
      rw [hs] at hu
      exact Or.inl ⟨symbols, ⟨p, hp, hs⟩, hu⟩
    | error halt =>
      rw [hs] at hu
      refine Or.inr (Or.inr ⟨halt, ?_, hu⟩)
      rintro symbols ⟨q, hq, hl⟩
      obtain rfl : p = q := Except.ok.inj (hp.symm.trans hq)
      rw [hs] at hl
      cases hl
  · refine Or.inr (Or.inl ⟨d, ?_, by rw [update, hc]; rfl⟩)
    intro p h
    rw [hp] at h
    cases h
  · refine Or.inr (Or.inr ⟨.overflow, ?_, by rw [update, hc]; rfl⟩)
    rintro symbols ⟨p, h, -⟩
    rw [hp] at h
    cases h

theorem update_documents {uri text : String} {index index' : Index} {ds : List Diagnostic}
    (h : update uri text index = .ok ds index') : index'.documents = index.documents := by
  rcases update_cases uri text index with ⟨_, _, hu⟩ | ⟨_, _, hu⟩ | ⟨_, _, hu⟩ <;> rw [hu] at h <;>
    cases h <;> rfl

/-! ## Requests that only read -/

/-- The request reads the index only. -/
def Reading {α : Type} (r : Request α) : Prop :=
  ∀ index, (∃ a, r index = .ok a index) ∨ ∃ e, r index = .error e index

theorem reading_pure {α : Type} (a : α) : Reading (pure a) := fun _ => Or.inl ⟨a, rfl⟩

theorem reading_throw {α : Type} (e : RequestError) : Reading (throw e : Request α) :=
  fun _ => Or.inr ⟨e, rfl⟩

theorem reading_get : Reading get := fun index => Or.inl ⟨index, rfl⟩

theorem Reading.bind {α β : Type} {r : Request α} {f : α → Request β} (hr : Reading r)
    (hf : ∀ a, Reading (f a)) : Reading (r >>= f) := by
  intro index
  rcases hr index with ⟨a, h⟩ | ⟨e, h⟩
  · rw [bind_ok h]
    exact hf a index
  · exact Or.inr ⟨e, bind_error h⟩

theorem locate_reading (uri : String) : Reading (locate uri) := by
  refine reading_get.bind fun index => ?_
  cases index.workspace.pathOf? uri with
  | some path => exact reading_pure _
  | none =>
    cases Uri.parse uri with
    | ok named => exact reading_pure _
    | error e => exact reading_throw _

theorem readDocument_reading (uri : String) : Reading (readDocument uri) := by
  refine reading_get.bind fun index => (locate_reading uri).bind fun l => ?_
  -- what becomes of the content of a file does not depend on where the file is
  cases l
  all_goals
    refine (reading_pure _).bind ?_
    rintro ⟨path, e | bytes⟩
    · exact reading_throw _
    · dsimp only
      cases Text.decodeFile? bytes with
      | none => exact reading_throw _
      | some text => exact reading_pure _

theorem sourceOf_reading (uri : String) : Reading (sourceOf uri) := by
  refine reading_get.bind fun index => ?_
  cases index.documents.get? uri with
  | some text => exact reading_pure _
  | none => exact readDocument_reading uri

end Index

end CommandScript
