import CommandScript.Proofs.Editor.Update
import CommandScript.Proofs.Parsing.Sums
import CommandScript.Proofs.Shape

/-! # The index and its history

What an index holds depends on the texts that were indexed and on nothing else: for each document
the symbols of the latest one, in the order of the first ones, and the same symbols by name. So a
lookup answers from the latest texts. Looking up changes neither table.
-/

namespace CommandScript

/-- The symbols of a text, if it parses and they can be listed. -/
def Symbol.ofText? (uri text : String) : Option (List Symbol) :=
  (parse (some uri) text).toOption.bind fun p => (collect uri p).toOption

/-- What an index is asked. -/
inductive Query where
  | update (uri text : String)
  | lookup (word : String)

namespace Query

/-- The index after the query, whether it was answered or not. -/
def after (index : Index) : Query → Index
  | update uri text => lastState (Index.update uri text index)
  | lookup word => lastState (Index.lookup word index)

/-- The document that is indexed, with its symbols. -/
def news? : Query → Option (String × List Symbol)
  | update uri text => (Symbol.ofText? uri text).map fun symbols => (uri, symbols)
  | lookup _ => none

end Query

namespace Index

variable {index : Index} {uri text word : String}

theorem lists_iff {symbols : List Symbol} :
    Lists uri text symbols ↔ Symbol.ofText? uri text = some symbols := by
  unfold Lists Symbol.ofText?
  cases parse (some uri) text with
  | error h => simp [Except.toOption]
  | ok p => cases hs : Symbol.collect uri p <;> simp [Except.toOption, hs]

theorem lastState_update (uri text : String) (index : Index) :
    lastState (update uri text index) = match Symbol.ofText? uri text with
      | some symbols => index.insert uri symbols
      | none => index := by
  have hn : (∀ symbols, ¬ Lists uri text symbols) → Symbol.ofText? uri text = none := by
    intro h
    rw [Option.eq_none_iff_forall_ne_some]
    exact fun symbols hs => h symbols (lists_iff.mpr hs)
  rcases update_cases uri text index with ⟨symbols, hl, hu⟩ | ⟨d, hp, hu⟩ | ⟨h, hl, hu⟩
  · rw [hu, lists_iff.mp hl]
    rfl
  · rw [hu, hn fun symbols ⟨p, hp', _⟩ => hp p hp']
    rfl
  · rw [hu, hn hl]
    rfl

/-- There is nothing to read in at a lookup. -/
def Settled (index : Index) : Prop := index.indexed = true ∨ index.workspace.rooted = false

theorem lookup_settled (hw : index.Settled) (word : String) :
    ∃ index', lookup word index = .ok ((index.names.get? word).bind List.head?) index' ∧
      index'.symbols = index.symbols ∧ index'.names = index.names ∧ index'.Settled := by
  obtain ⟨workspace, documents, symbols, names, indexed⟩ := index
  cases indexed with
  | true => exact ⟨_, rfl, rfl, rfl, hw⟩
  | false =>
    have hr : workspace.rooted = false := hw.resolve_left Bool.false_ne_true
    obtain ⟨root, folder, rooted⟩ := workspace
    obtain rfl : rooted = false := hr
    exact ⟨_, rfl, rfl, rfl, Or.inl rfl⟩

/-! ## Symbols by name -/

theorem group_concat (ss : List Symbol) (s : Symbol) :
    (ss ++ [s]).foldl addName {} = addName (ss.foldl addName {}) s := by
  rw [List.foldl_append]
  rfl

theorem keys_group (ss : List Symbol) :
    (ss.foldl addName {}).keys = (ss.map Symbol.name).eraseDups := by
  induction ss using List.reverseRecOn with
  | nil => rfl
  | append_singleton ss s ih =>
    rw [group_concat, addName, Table.keys_put, ih, List.map_append, List.map_singleton,
      Table.eraseDups_concat]
    simp only [List.mem_eraseDups]

theorem get?_group (ss : List Symbol) (word : String) : (ss.foldl addName {}).get? word =
    if word ∈ ss.map Symbol.name then some (ss.filter fun s => s.name == word) else none := by
  induction ss using List.reverseRecOn with
  | nil => rfl
  | append_singleton ss s ih =>
    rw [group_concat, addName]
    by_cases hs : word = s.name
    · subst hs
      rw [Table.get?_put_self, ih, List.filter_append]
      by_cases hw : s.name ∈ ss.map Symbol.name
      · simp [hw]
      · have hf : ss.filter (fun s' => s'.name == s.name) = [] := by
          rw [List.filter_eq_nil_iff]
          intro s' hs' he
          exact hw (List.mem_map.mpr ⟨s', hs', by simpa using he⟩)
        simp [hw, hf]
    · rw [Table.get?_put_of_ne _ hs, ih, List.filter_append]
      simp [hs, Ne.symm hs]

theorem head?_group (ss : List Symbol) (word : String) :
    ((ss.foldl addName {}).get? word).bind List.head? = ss.find? fun s => s.name == word := by
  rw [get?_group]
  split
  · exact List.head?_filter
  · next hw =>
    symm
    rw [Option.bind_none, List.find?_eq_none]
    intro s hs he
    exact hw (List.mem_map.mpr ⟨s, hs, by simpa using he⟩)

end Index

/-! ## Listing symbols -/

theorem Symbol.exists_collectFrom {uri : String} {p : Program}
    (hp : ∀ x e line, Stmt.assign x e line ∈ p → e.height ≤ stackLimit ∧ e.writable = true)
    (seen : List String) : ∃ symbols, collectFrom uri seen p = .ok symbols := by
  induction p generalizing seen with
  | nil => exact ⟨[], rfl⟩
  | cons s p ih =>
    have ih := ih fun x e line h => hp x e line (List.mem_cons_of_mem s h)
    cases s with
    | define name params body line =>
      obtain ⟨symbols, hs⟩ := ih seen
      exact ⟨_, by rw [collectFrom, hs]; rfl⟩
    | assign name value line =>
      rw [collectFrom]
      by_cases hn : seen.contains name = true
      · rw [if_pos hn]
        exact ih seen
      · obtain ⟨hh, hw⟩ := hp name value line List.mem_cons_self
        obtain ⟨symbols, hs⟩ := ih (name :: seen)
        rw [if_neg hn, Expr.describeWithin, if_pos hh, Expr.describe, if_pos hw, hs]
        exact ⟨_, rfl⟩
    | _ => exact ih seen

/-- A text that parses is listed unless an expression that it assigns nests too deep. -/
theorem Symbol.exists_ofText? {uri text : String} {p : Program}
    (hp : parse (some uri) text = .ok p)
    (hh : ∀ x e line, Stmt.assign x e line ∈ p → e.height ≤ stackLimit) :
    ∃ symbols, collect uri p = .ok symbols ∧ ofText? uri text = some symbols := by
  have hd : Stmt.Derived (.block p) := .block (derives_of_parseWithin hp)
  obtain ⟨symbols, hs⟩ : ∃ symbols, collect uri p = .ok symbols :=
    exists_collectFrom (fun x e line h => ⟨hh x e line h, (hd.mem _ h).assign.writable⟩) []
  exact ⟨symbols, hs, Index.lists_iff.mp ⟨p, hp, hs⟩⟩

theorem Symbol.ofText?_unparsed {uri text : String} (hp : ∀ p, parse (some uri) text ≠ .ok p) :
    ofText? uri text = none := by
  unfold ofText?
  cases h : parse (some uri) text with
  | ok p => exact absurd h (hp p)
  | error e => rfl

/-! ## Along a history of queries -/

/-- The documents that were indexed with their symbols, in order. -/
def news (qs : List Query) : List (String × List Symbol) := qs.filterMap Query.news?

namespace Index

def afterQueries (index : Index) (qs : List Query) : Index := qs.foldl Query.after index

/-- The index holds what was listed: of each document the latest symbols, in the order of the first
ones, and the same symbols by name. Lookups answer from them and change nothing. -/
structure Holds (index : Index) (listed : List (String × List Symbol)) : Prop where
  documents : index.symbols.keys = (listed.map Prod.fst).eraseDups
  latest : ∀ uri, index.symbols.get? uri =
    (listed.filter fun e => e.1 == uri).getLast?.map Prod.snd
  words : index.names.keys = (index.symbols.values.flatten.map Symbol.name).eraseDups
  named : ∀ word, index.names.get? word =
    if word ∈ index.symbols.values.flatten.map Symbol.name then
      some (index.symbols.values.flatten.filter fun s => s.name == word)
    else none
  answers : ∀ word, ∃ index', lookup word index =
      .ok (index.symbols.values.flatten.find? fun s => s.name == word) index' ∧
    index'.symbols = index.symbols ∧ index'.names = index.names

variable {index : Index}

theorem afterQueries_concat (index : Index) (qs : List Query) (q : Query) :
    index.afterQueries (qs ++ [q]) = q.after (index.afterQueries qs) := by
  rw [afterQueries, List.foldl_append]
  rfl

/-- Both tables of an index are determined by what was indexed. -/
theorem tables_of_history (hs : index.symbols = {}) (hn : index.names = {}) (hw : index.Settled)
    (qs : List Query) : (index.afterQueries qs).symbols = Table.putAll {} (news qs) ∧
      (index.afterQueries qs).names = group (index.afterQueries qs).symbols ∧
      (index.afterQueries qs).Settled := by
  induction qs using List.reverseRecOn with
  | nil =>
    refine ⟨hs, ?_, hw⟩
    change index.names = group index.symbols
    rw [hn, hs]
    rfl
  | append_singleton qs q ih =>
    obtain ⟨hs, hn, hw⟩ := ih
    rw [afterQueries_concat, news, List.filterMap_append, Table.putAll_append, ← news, ← hs]
    cases q with
    | lookup word =>
      obtain ⟨index', hl, hs', hn', hw'⟩ := lookup_settled hw word
      rw [Query.after, hl]
      exact ⟨hs', by rw [lastState, hn', hn, hs'], hw'⟩
    | update uri text =>
      rw [Query.after, lastState_update]
      cases ht : Symbol.ofText? uri text with
      | none =>
        have hq : (Query.update uri text).news? = none := by rw [Query.news?, ht]; rfl
        rw [List.filterMap_cons_none hq]
        exact ⟨rfl, hn, hw⟩
      | some symbols =>
        have hq : (Query.update uri text).news? = some (uri, symbols) := by
          rw [Query.news?, ht]
          rfl
        rw [List.filterMap_cons_some hq]
        exact ⟨rfl, rfl, hw⟩

/-- Along every history of queries the index holds what was indexed, and lookups answer from the
latest symbols. A text that does not parse leaves the index as it is; one that parses is indexed
unless an expression that it assigns nests too deep. -/
theorem index_of_history (hs : index.symbols = {}) (hn : index.names = {}) (hw : index.Settled)
    (qs : List Query) :
    (index.afterQueries qs).Holds (news qs) ∧
    ∀ uri text,
      (Symbol.ofText? uri text = none →
        (Query.update uri text).after (index.afterQueries qs) = index.afterQueries qs) ∧
      ((∀ p, parse (some uri) text ≠ .ok p) → Symbol.ofText? uri text = none) ∧
      ∀ p, parse (some uri) text = .ok p →
        (∀ x e line, Stmt.assign x e line ∈ p → e.height ≤ stackLimit) →
        ∃ symbols, Symbol.collect uri p = .ok symbols ∧
          Symbol.ofText? uri text = some symbols := by
  obtain ⟨hs, hn, hw⟩ := tables_of_history hs hn hw qs
  refine ⟨⟨?_, ?_, ?_, ?_, ?_⟩, ?_⟩
  · rw [hs, Table.keys_putAll_empty]
  · intro uri
    rw [hs, Table.get?_putAll]
    exact Option.or_none
  · rw [hn]
    exact keys_group _
  · intro word
    rw [hn]
    exact get?_group _ word
  · intro word
    obtain ⟨index', hl, hs', hn', -⟩ := lookup_settled hw word
    refine ⟨index', ?_, hs', hn'⟩
    rw [hl, hn, group, head?_group]
  · intro uri text
    refine ⟨?_, Symbol.ofText?_unparsed, fun p => Symbol.exists_ofText?⟩
    intro ht
    rw [Query.after, lastState_update, ht]

/-- Two documents; the second text of `a` is refused, and the third one drops `y`. -/
def edits : List Query :=
  [.update "a" "x = 1\ny = 2", .update "b" "x = 3", .lookup "x", .update "a" "x = (",
    .update "a" "x = 5\nMethod z(n)\nEndmethod"]

theorem index_of_history_edits :
    ({} : Index).Settled ∧
    (({} : Index).afterQueries edits).symbols.keys = ["a", "b"] ∧
    (∃ index' symbol, lookup "x" (({} : Index).afterQueries edits) = .ok (some symbol) index' ∧
      symbol.uri = "a" ∧ symbol.detail = "x = 5") ∧
    ∃ index', lookup "y" (({} : Index).afterQueries edits) = .ok none index' := by
  have hw : ({} : Index).Settled := Or.inr rfl
  obtain ⟨h, -⟩ := index_of_history rfl rfl hw edits
  refine ⟨hw, ?_, ?_, ?_⟩
  · rw [h.documents]
    decide +kernel
  · obtain ⟨index', hl, -⟩ := h.answers "x"
    have hx : ((({} : Index).afterQueries edits).symbols.values.flatten.find? fun s =>
        s.name == "x") = some (.ofBinding "a" "x" "5" 1) := by decide +kernel
    exact ⟨index', _, hl.trans (by rw [hx]), rfl, by decide⟩
  · obtain ⟨index', hl, -⟩ := h.answers "y"
    have hy : ((({} : Index).afterQueries edits).symbols.values.flatten.find? fun s =>
        s.name == "y") = none := by decide +kernel
    exact ⟨index', hl.trans (by rw [hy])⟩

theorem ofText?_onesText (uri : String) {n : Nat} (hn : stackLimit ≤ n) :
    Symbol.ofText? uri (Expr.onesText n) = none := by
  have hd : (Expr.ones n).describeWithin stackLimit = .error .overflow := by
    rw [Expr.describeWithin, Expr.height_ones, if_neg (Nat.not_le.mpr (Nat.lt_succ_of_le hn))]
  have hc : Symbol.collect uri [.assign "s" (.ones n) 1] = .error .overflow := by
    rw [Symbol.collect, Symbol.collectFrom, if_neg (by simp), hd]
    rfl
  rw [Symbol.ofText?, parse_ones]
  change (Symbol.collect uri [.assign "s" (.ones n) 1]).toOption = none
  rw [hc]
  rfl

/-- A document whose only text parses is missing from the index. -/
theorem long_sum_not_indexed :
    (∃ p, parse (some "file:///a.ase") (Expr.onesText 3000) = .ok p) ∧
    (({} : Index).afterQueries [.update "file:///a.ase" (Expr.onesText 3000)]).symbols.keys = [] ∧
    (({} : Index).afterQueries [.update "file:///a.ase" (Expr.onesText 3000)]).names.keys = [] := by
  have hx : ({} : Index).afterQueries [.update "file:///a.ase" (Expr.onesText 3000)] = {} := by
    rw [afterQueries, List.foldl_cons, List.foldl_nil, Query.after, lastState_update,
      ofText?_onesText _ (by decide)]
  refine ⟨⟨_, parse_ones _ 3000⟩, ?_, ?_⟩
  · rw [hx]
    rfl
  · rw [hx]
    rfl

end Index

end CommandScript
