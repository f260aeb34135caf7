import Mathlib.Data.List.Basic
import CommandScript.Proofs.Editor.Update

/-! # Open documents and their symbols

An editor tells when a document is opened or changed. Changes are applied to the stored text, but it
is the text of the last change that is indexed. So the symbols follow a document that is always
told as a whole, and lose it at the first change of a range.
-/

namespace CommandScript

/-- What an editor tells of a document. -/
inductive Notice where
  | opened (uri text : String)
  | changed (uri : String) (changes : List Change)
  deriving DecidableEq, Repr

namespace Notice

/-- The document that the notice is about. -/
def uri : Notice → String
  | opened uri _ => uri
  | changed uri _ => uri

/-- Takes the notice; the answer is the list of diagnostics that is published, if there is one. -/
def take : Notice → Request (Option (List Diagnostic))
  | opened uri text => do return some (← Index.openDocument uri text)
  | changed uri changes => do return (← Index.changeDocument uri changes).2

/-- The text of the document after the notice, given the text before it. -/
def result : Notice → Option String → Option String
  | opened _ text, _ => some text
  | changed _ changes, source => source.map (changes.foldl Change.apply)

/-- The text that is sent last. -/
def sent? : Notice → Option String
  | opened _ text => some text
  | changed _ changes => changes.getLast?.map Change.text

/-- The changes, if there are any, end with a whole text. -/
def Whole : Notice → Prop
  | opened _ _ => True
  | changed _ changes => ∀ c ∈ changes.getLast?, c.range = none

end Notice

namespace Index

/-- The index after a notice, whether it was taken or refused. -/
def after (index : Index) (n : Notice) : Index :=
  match n.take index with
  | .ok _ index' => index'
  | .error _ index' => index'

def afterAll (index : Index) (ns : List Notice) : Index := ns.foldl after index

/-- The symbols of a document are those of its stored text. -/
def Follows (index : Index) (uri : String) : Prop :=
  ∀ text symbols, index.documents.get? uri = some text → Lists uri text symbols →
    index.symbols.get? uri = some symbols

/-- The index with the stored text of a document. -/
def store (index : Index) (uri text : String) : Index :=
  { index with documents := index.documents.put uri text }

end Index

/-- The index keeps up with a notice: the document is stored as it results, the symbols follow it,
and what is published is empty exactly if it parses. -/
structure Notice.Followed (n : Notice) (index : Index) : Prop where
  stored : (∃ e, n.take index = .error e index) ∨
    (index.after n).documents.get? n.uri = n.result (index.documents.get? n.uri)
  symbols : (index.after n).Follows n.uri
  published : ∀ ds index' text, n.take index = .ok (some ds) index' →
    index'.documents.get? n.uri = some text → (ds = [] ↔ ∃ p, parse (some n.uri) text = .ok p)

/-! ## Taking a notice -/

namespace Notice

open Index

variable {index : Index} {n : Notice}

theorem result_eq_sent {source : Option String} {stored sent : String} (hw : n.Whole)
    (hr : n.result source = some stored) (hs : n.sent? = some sent) : stored = sent := by
  cases n with
  | opened uri text => exact Option.some.inj (hr.symm.trans hs)
  | changed uri changes =>
    obtain ⟨c, hl, rfl⟩ := Option.map_eq_some_iff.mp hs
    obtain ⟨text, -, rfl⟩ := Option.map_eq_some_iff.mp hr
    have hc : c.range = none := hw c hl
    obtain ⟨cs, rfl⟩ := List.getLast?_eq_some_iff.mp hl
    rw [List.foldl_append, List.foldl_cons, List.foldl_nil, Change.apply, hc]

theorem openDocument_located {uri : String} {l : Location}
    (hl : locate uri index = .ok l index) (text : String) :
    openDocument uri text index = update uri text (index.store uri text) := by
  rw [openDocument, bind_ok hl, bind_ok (modify_apply _ _)]
  rfl

theorem openDocument_cases (uri text : String) (index : Index) :
    (∃ e, openDocument uri text index = .error e index) ∨
      openDocument uri text index = update uri text (index.store uri text) := by
  rcases locate_reading uri index with ⟨l, hl⟩ | ⟨e, hl⟩
  · exact Or.inr (openDocument_located hl text)
  · exact Or.inl ⟨e, by rw [openDocument, bind_error hl]⟩

theorem changeDocument_of_last {uri source : String} {changes : List Change} {c : Change}
    (hl : changes.getLast? = some c) (hd : index.documents.get? uri = some source) :
    changeDocument uri changes index =
      (do return (changes.foldl Change.apply source, some (← update uri c.text)))
        (index.store uri (changes.foldl Change.apply source)) := by
  have ha : applyChanges uri changes index =
      .ok ⟨⟩ (index.store uri (changes.foldl Change.apply source)) := by
    rw [applyChanges, bind_ok (get_apply index), hd]
    rfl
  rw [changeDocument, hl]
  refine (bind_ok ha).trans ?_
  rw [bind_apply, bind_apply]
  cases hu : update uri c.text (index.store uri (changes.foldl Change.apply source)) with
  | error e index' => rfl
  | ok ds index' =>
    have hs : sourceOf uri index' = .ok (changes.foldl Change.apply source) index' := by
      rw [sourceOf, bind_ok (get_apply index'), update_documents hu, store, Table.get?_put_self]
      rfl
    exact bind_ok hs

theorem changeDocument_cases (uri : String) (changes : List Change) (index : Index) :
    (changes = [] ∧ ∃ source, changeDocument uri changes index = .ok (source, none) index) ∨
    (∃ e, changeDocument uri changes index = .error e index) ∨
    ∃ c source, changes.getLast? = some c ∧ index.documents.get? uri = some source := by
  cases hl : changes.getLast? with
  | none =>
    rw [changeDocument, hl]
    rcases sourceOf_reading uri index with ⟨source, hs⟩ | ⟨e, hs⟩
    · exact Or.inl ⟨List.getLast?_eq_none_iff.mp hl, source, bind_ok hs⟩
    · exact Or.inr (Or.inl ⟨e, bind_error hs⟩)
  | some c =>
    cases hd : index.documents.get? uri with
    | some source => exact Or.inr (Or.inr ⟨c, source, rfl, rfl⟩)
    | none =>
      refine Or.inr (Or.inl ⟨.notOpen uri, ?_⟩)
      have ha : applyChanges uri changes index = .error (.notOpen uri) index := by
        rw [applyChanges, bind_ok (get_apply index), hd]
        rfl
      rw [changeDocument, hl]
      exact bind_error ha

/-- What a notice can do: the resulting text is stored, and the index is updated with the text sent
last. -/
inductive Outcome (n : Notice) (index : Index) :
    EStateM.Result RequestError Index (Option (List Diagnostic)) → Prop where
  | empty : n.result (index.documents.get? n.uri) = index.documents.get? n.uri →
      Outcome n index (.ok none index)
  | refused (e : RequestError) : Outcome n index (.error e index)
  | indexed {stored sent : String} {symbols : List Symbol} :
      n.result (index.documents.get? n.uri) = some stored → n.sent? = some sent →
      Lists n.uri sent symbols →
      Outcome n index (.ok (some []) ((index.store n.uri stored).insert n.uri symbols))
  | diagnosed {stored sent : String} (d : Diagnostic) :
      n.result (index.documents.get? n.uri) = some stored → n.sent? = some sent →
      (∀ p, parse (some n.uri) sent ≠ .ok p) →
      Outcome n index (.ok (some [d]) (index.store n.uri stored))
  | halted {stored sent : String} (h : Halt) :
      n.result (index.documents.get? n.uri) = some stored → n.sent? = some sent →
      (∀ symbols, ¬ Lists n.uri sent symbols) →
      Outcome n index (.error (.halt h) (index.store n.uri stored))

theorem outcome_of_update {stored sent : String}
    (hr : n.result (index.documents.get? n.uri) = some stored) (hs : n.sent? = some sent)
    (ht : n.take index = (do return some (← update n.uri sent)) (index.store n.uri stored)) :
    n.Outcome index (n.take index) := by
  rw [ht]
  rcases update_cases n.uri sent (index.store n.uri stored) with
    ⟨symbols, hl, hu⟩ | ⟨d, hp, hu⟩ | ⟨h, hl, hu⟩
  · rw [bind_ok hu]
    exact .indexed hr hs hl
  · rw [bind_ok hu]
    exact .diagnosed d hr hs hp
  · rw [bind_error hu]
    exact .halted h hr hs hl

theorem take_outcome (n : Notice) (index : Index) : n.Outcome index (n.take index) := by
  cases n with
  | opened uri text =>
    rcases openDocument_cases uri text index with ⟨e, ho⟩ | ho
    · rw [take, bind_error ho]
      exact .refused e
    · have ht : (opened uri text).take index =
          (do return some (← update uri text)) (index.store uri text) := by
        rw [take, bind_apply, bind_apply, ho]
      exact outcome_of_update rfl rfl ht
  | changed uri changes =>
    rcases changeDocument_cases uri changes index with
      ⟨rfl, source, hc⟩ | ⟨e, hc⟩ | ⟨c, source, hl, hd⟩
    · rw [take, bind_ok hc]
      exact .empty Option.map_id'
    · rw [take, bind_error hc]
      exact .refused e
    · have ht : (changed uri changes).take index = (do return some (← update uri c.text))
          (index.store uri (changes.foldl Change.apply source)) := by
        rw [take, bind_apply, changeDocument_of_last hl hd, bind_apply, bind_apply]
        cases update uri c.text (index.store uri (changes.foldl Change.apply source)) <;> rfl
      refine outcome_of_update ?_ ?_ ht
      · exact Option.map_eq_some_iff.mpr ⟨source, hd, rfl⟩
      · exact Option.map_eq_some_iff.mpr ⟨c, hl, rfl⟩

end Notice

/-! ## Following the documents -/

namespace Index

variable {index : Index} {uri uri' text : String} {symbols : List Symbol}

theorem Lists.unique {symbols' : List Symbol} (h : Lists uri text symbols)
    (h' : Lists uri text symbols') : symbols = symbols' := by
  obtain ⟨p, hp, hs⟩ := h
  obtain ⟨p', hp', hs'⟩ := h'
  obtain rfl : p = p' := Except.ok.inj (hp.symm.trans hp')
  exact Except.ok.inj (hs.symm.trans hs')

theorem follows_store (h : ∀ symbols, ¬ Lists uri text symbols) :
    (index.store uri text).Follows uri := by
  intro text' symbols hd hl
  obtain rfl : text = text' := Option.some.inj ((Table.get?_put_self ..).symm.trans hd)
  exact absurd hl (h symbols)

theorem follows_insert (h : Lists uri text symbols) :
    ((index.store uri text).insert uri symbols).Follows uri := by
  intro text' symbols' hd hl
  obtain rfl : text = text' := Option.some.inj ((Table.get?_put_self ..).symm.trans hd)
  obtain rfl := h.unique hl
  exact Table.get?_put_self ..

theorem Follows.store (h : index.Follows uri) (hne : uri ≠ uri') (text : String) :
    (index.store uri' text).Follows uri := by
  intro text' symbols hd
  exact h text' symbols ((Table.get?_put_of_ne _ hne _).symm.trans hd)

theorem Follows.insert (h : index.Follows uri) (hne : uri ≠ uri') (symbols : List Symbol) :
    (index.insert uri' symbols).Follows uri := by
  intro text' symbols' hd hl
  exact (Table.get?_put_of_ne _ hne _).trans (h text' symbols' hd hl)

/-- A document is followed through every notice of other documents and through whole texts. -/
theorem Follows.after (h : index.Follows uri) (n : Notice) (hw : n.uri = uri → n.Whole) :
    (index.after n).Follows uri := by
  have ho := n.take_outcome index
  rw [Index.after]
  generalize n.take index = r at ho
  by_cases hu : n.uri = uri
  · obtain rfl := hu
    cases ho with
    | empty => exact h
    | refused => exact h
    | indexed hr hs hl =>
      obtain rfl := Notice.result_eq_sent (hw rfl) hr hs
      exact follows_insert hl
    | diagnosed d hr hs hp =>
      obtain rfl := Notice.result_eq_sent (hw rfl) hr hs
      refine follows_store ?_
      rintro symbols ⟨p, hx, -⟩
      exact hp p hx
    | halted _ hr hs hl =>
      obtain rfl := Notice.result_eq_sent (hw rfl) hr hs
      exact follows_store hl
  · have hne : uri ≠ n.uri := Ne.symm hu
    cases ho with
    | empty => exact h
    | refused => exact h
    | indexed => exact (h.store hne _).insert hne _
    | diagnosed => exact h.store hne _
    | halted => exact h.store hne _

theorem Follows.afterAll {ns : List Notice} (h : index.Follows uri)
    (hw : ∀ n ∈ ns, n.uri = uri → n.Whole) : (index.afterAll ns).Follows uri := by
  induction ns generalizing index with
  | nil => exact h
  | cons n ns ih =>
    obtain ⟨hn, hns⟩ := List.forall_mem_cons.mp hw
    exact ih (h.after n hn) hns

theorem follows_of_documents (h : index.documents = {}) (uri : String) : index.Follows uri := by
  intro text symbols hd
  rw [h] at hd
  cases hd

end Index

namespace Notice

variable {n : Notice} {index index' : Index}

theorem stored_result (n : Notice) (index : Index) : (∃ e, n.take index = .error e index) ∨
    (index.after n).documents.get? n.uri = n.result (index.documents.get? n.uri) := by
  have ho := n.take_outcome index
  rw [Index.after]
  generalize n.take index = r at ho
  cases ho with
  | empty hr => exact Or.inr hr.symm
  | refused e => exact Or.inl ⟨e, rfl⟩
  | indexed hr => exact Or.inr ((Table.get?_put_self ..).trans hr.symm)
  | diagnosed _ hr => exact Or.inr ((Table.get?_put_self ..).trans hr.symm)
  | halted _ hr => exact Or.inr ((Table.get?_put_self ..).trans hr.symm)

theorem published_of_whole {ds : List Diagnostic} {text : String} (hw : n.Whole)
    (h : n.take index = .ok (some ds) index') (hd : index'.documents.get? n.uri = some text) :
    ds = [] ↔ ∃ p, parse (some n.uri) text = .ok p := by
  have ho := n.take_outcome index
  rw [h] at ho
  cases ho with
  | indexed hr hs hl =>
    obtain rfl := result_eq_sent hw hr hs
    obtain rfl := Option.some.inj ((Table.get?_put_self ..).symm.trans hd)
    obtain ⟨p, hp, -⟩ := hl
    exact iff_of_true rfl ⟨p, hp⟩
  | diagnosed d hr hs hp =>
    obtain rfl := result_eq_sent hw hr hs
    obtain rfl := Option.some.inj ((Table.get?_put_self ..).symm.trans hd)
    refine iff_of_false (List.cons_ne_nil d []) ?_
    rintro ⟨p, hx⟩
    exact hp p hx

end Notice

/-- A document that is always told as a whole is followed, whatever is told of the others. -/
theorem followed_of_whole {start : Index} (hs : start.documents = {}) (ns : List Notice) (n : Notice)
    (hw : ∀ m ∈ ns ++ [n], m.uri = n.uri → m.Whole) : n.Followed (start.afterAll ns) := by
  obtain ⟨hns, hn⟩ := List.forall_mem_append.mp hw
  have hn : n.Whole := hn n (List.mem_singleton_self n) rfl
  constructor
  · exact n.stored_result _
  · exact ((Index.follows_of_documents hs n.uri).afterAll hns).after n fun _ => hn
  · intro ds index' text
    exact Notice.published_of_whole hn

/-- The fifth character of a document is typed over. -/
def Notice.retyped (uri : String) : Notice := changed uri [⟨some ⟨⟨0, 4⟩, ⟨0, 5⟩⟩, "7"⟩]

/-- One document is told anew, while a character of another is typed over. -/
theorem followed_of_whole_beside :
    (∀ m ∈ [Notice.opened "ws:/a" "x = 5", .opened "ws:/b" "y = 1", .retyped "ws:/b"] ++
        [.changed "ws:/a" [⟨none, "z = 2"⟩]], m.uri = "ws:/a" → m.Whole) ∧
    ((Index.afterAll { workspace := { uri := "ws:" } } [.opened "ws:/a" "x = 5",
        .opened "ws:/b" "y = 1", .retyped "ws:/b"]).after
      (.changed "ws:/a" [⟨none, "z = 2"⟩])).symbols.get? "ws:/a" =
        some [Symbol.ofBinding "ws:/a" "z" "2" 1] := by
  have hw : ∀ m ∈ [Notice.opened "ws:/a" "x = 5", .opened "ws:/b" "y = 1", .retyped "ws:/b"] ++
      [.changed "ws:/a" [⟨none, "z = 2"⟩]], m.uri = "ws:/a" → m.Whole := by
    simp [Notice.Whole, Notice.retyped, Notice.uri]
  refine ⟨hw, (followed_of_whole rfl _ _ hw).symbols "z = 2" _ (by decide +kernel) ?_⟩
  exact ⟨[.assign "z" (.int 2) 1], rfl, by decide +kernel⟩

/-- A document of which a character is typed over is lost: its symbols are still the old ones. -/
theorem retyped_not_followed :
    ¬ (Notice.retyped "file:///a.ase").Followed
      (Index.afterAll {} [.opened "file:///a.ase" "x = 5"]) := by
  rintro ⟨-, hs, -⟩
  have h := hs "x = 7" [Symbol.ofBinding "file:///a.ase" "x" "7" 1] (by decide +kernel)
    ⟨[.assign "x" (.int 7) 1], rfl, by decide +kernel⟩
  revert h
  decide +kernel

end CommandScript
