import CommandScript.Proofs.Running.Echo

/-! # Commands by spec

A registry that is built from specs answers to a name with the first spec that has the name among its
fields, and what it writes starts with the first field of that spec. What is registered behind it
makes no difference.
-/

namespace CommandScript

/-! ## The fields of a spec -/

/-- The spec is these texts with a colon between any two, and they hold no colon themselves. -/
structure Fields (spec : String) (fields : List String) : Prop where
  nonempty : fields ≠ []
  joined : ":".intercalate fields = spec
  bare : ∀ field ∈ fields, ':' ∉ field.toList

theorem not_mem_of_mem_splitOn {α : Type} [BEq α] [LawfulBEq α] {a : α} {as piece : List α}
    (h : piece ∈ as.splitOn a) : a ∉ piece := by
  induction as generalizing piece with
  | nil =>
    obtain rfl : piece = [] := by simpa using h
    simp
  | cons b as ih =>
    obtain ⟨first, rest, he⟩ := List.exists_cons_of_ne_nil (List.splitOn_ne_nil a as)
    rw [List.splitOn_cons_eq_if_modifyHead, he] at h
    rw [he] at ih
    split at h
    · rcases List.mem_cons.mp h with rfl | h
      · simp
      · exact ih h
    · next hb =>
      rcases List.mem_cons.mp h with rfl | h
      · have hf : a ∉ first := ih (by simp)
        simp only [List.mem_cons, not_or]
        exact ⟨fun hab => hb (by simp [hab]), hf⟩
      · exact ih (by simp [h])

/-- There is one way only to take a spec apart. -/
theorem fields_iff {spec : String} {fields : List String} :
    Fields spec fields ↔ Command.specFields spec = fields := by
  constructor
  · rintro ⟨hn, rfl, hb⟩
    have hs : (":".intercalate fields).toList.splitOn ':' = fields.map String.toList := by
      rw [String.toList_intercalate]
      exact List.splitOn_intercalate ':' (by simpa using hb) (by simpa using hn)
    rw [Command.specFields, hs]
    simp [Function.comp_def]
  · rintro rfl
    constructor
    · simp [Command.specFields]
    · apply String.toList_inj.mp
      rw [String.toList_intercalate, Command.specFields, List.map_map]
      simp [Function.comp_def]
    · intro field hf
      obtain ⟨piece, hp, rfl⟩ := List.mem_map.mp hf
      simpa using not_mem_of_mem_splitOn hp

theorem Fields.unique {spec : String} {fields fields' : List String} (h : Fields spec fields)
    (h' : Fields spec fields') : fields = fields' :=
  (fields_iff.mp h).symm.trans (fields_iff.mp h')

theorem exists_fields (spec : String) : ∃ title aliases, Fields spec (title :: aliases) := by
  obtain ⟨title, aliases, he⟩ := List.exists_cons_of_ne_nil (fields_iff.mpr rfl).nonempty
  exact ⟨title, aliases, fields_iff.mpr he⟩

def HasField (spec name : String) : Prop := ∃ fields, Fields spec fields ∧ name ∈ fields

theorem Fields.hasField_iff {spec name : String} {fields : List String} (h : Fields spec fields) :
    HasField spec name ↔ name ∈ fields := by
  constructor
  · rintro ⟨fields', h', hm⟩
    rwa [h.unique h']
  · intro hm
    exact ⟨fields, h, hm⟩

/-- The first of the specs that has the name as a field starts with this title. -/
inductive Titled (name : String) : List String → String → Prop where
  | here {spec title : String} {aliases specs : List String} : Fields spec (title :: aliases) →
      name ∈ title :: aliases → Titled name (spec :: specs) title
  | later {spec title : String} {specs : List String} : ¬ HasField spec name →
      Titled name specs title → Titled name (spec :: specs) title

theorem Titled.unique {name title title' : String} {specs : List String}
    (h : Titled name specs title) (h' : Titled name specs title') : title = title' := by
  induction h with
  | here hf hm =>
    cases h' with
    | here hf' => exact (List.cons.inj (hf.unique hf')).1
    | later hn => exact absurd ⟨_, hf, hm⟩ hn
  | later hn _ ih =>
    cases h' with
    | here hf hm => exact absurd ⟨_, hf, hm⟩ hn
    | later _ ht => exact ih ht

theorem Titled.exists_hasField {name title : String} {specs : List String}
    (h : Titled name specs title) : ∃ spec ∈ specs, HasField spec name := by
  induction h with
  | here hf hm => exact ⟨_, by simp, _, hf, hm⟩
  | later _ _ ih =>
    obtain ⟨spec, hs, hf⟩ := ih
    exact ⟨spec, by simp [hs], hf⟩

/-! ## The command of a spec -/

namespace Command

variable {spec name title : String} {aliases : List String} {c : Command}

theorem ofSpec?_eq (h : Fields spec (title :: aliases)) :
    ofSpec? spec =
      if title = "" then none
      else some { name := title, aliases := aliases.filter fun a => !a.isEmpty } := by
  rw [ofSpec?, fields_iff.mp h]
  simp

theorem ofSpec?_eq_none_iff : ofSpec? spec = none ↔ spec = "" ∨ ∃ rest, spec = ":" ++ rest := by
  obtain ⟨title, aliases, hf⟩ := exists_fields spec
  rw [ofSpec?_eq hf]
  simp only [ite_eq_left_iff, reduceCtorEq, imp_false, not_not]
  constructor
  · rintro rfl
    rw [← hf.joined]
    cases aliases with
    | nil => exact Or.inl rfl
    | cons a aliases => exact Or.inr ⟨":".intercalate (a :: aliases), by simp⟩
  · rintro (rfl | ⟨rest, rfl⟩)
    · have he : specFields "" = [""] := rfl
      rw [fields_iff.mp hf] at he
      exact (List.cons.inj he).1
    · have he : specFields (":" ++ rest) = "" :: specFields rest := by
        simp [specFields, List.splitOn_cons_eq_if_modifyHead]
      rw [fields_iff.mp hf] at he
      exact (List.cons.inj he).1

theorem ofSpec?_answersTo (h : ofSpec? spec = some c) (hf : Fields spec (title :: aliases))
    (hn : name ≠ "") : c.name = title ∧ (c.answersTo name = true ↔ name ∈ title :: aliases) := by
  rw [ofSpec?_eq hf] at h
  split at h
  · cases h
  · cases h
    refine ⟨rfl, ?_⟩
    rw [List.mem_cons, @eq_comm String name title]
    simp [answersTo, hasName, hasAlias, hn]

end Command

/-! ## Registries from specs -/

namespace CommandLine

variable {specs : List String} {registry registry' : Registry} {w w' : World}

theorem register_fails_iff :
    (∃ failure, register (specs.map some) registry w = .error failure) ↔
      ∃ spec ∈ specs, Command.ofSpec? spec = none := by
  induction specs generalizing registry w with
  | nil => simp [register]
  | cons spec specs ih =>
    rw [List.exists_mem_cons_iff, List.map_cons, register, Option.bind_some]
    cases hc : Command.ofSpec? spec with
    | none => simp
    | some c => simp [ih]

theorem register_commands (h : register (specs.map some) registry w = .ok (registry', w')) :
    ∃ commands, List.Forall₂ (fun spec c => Command.ofSpec? spec = some c) specs commands ∧
      registry' = registry ++ commands := by
  induction specs generalizing registry w with
  | nil =>
    cases h
    exact ⟨[], .nil, by simp⟩
  | cons spec specs ih =>
    rw [List.map_cons, register, Option.bind_some] at h
    cases hc : Command.ofSpec? spec with
    | none => simp [hc] at h
    | some c =>
      rw [hc] at h
      obtain ⟨commands, hs, rfl⟩ := ih h
      exact ⟨c :: commands, .cons hc hs, by simp⟩

end CommandLine

namespace Registry

variable {registry registry' : Registry} {specs : List String} {name : String}

section

variable (h : List.Forall₂ (fun spec c => Command.ofSpec? spec = some c) specs registry)
  (hn : name ≠ "")

include h hn

/-- A name is looked up along the specs as it is among their fields. -/
theorem find?_of_specs :
    (∃ c, registry.find? name = some c ∧ Titled name specs c.name) ∨
      registry.find? name = none ∧ ∀ spec ∈ specs, ¬ HasField spec name := by
  induction h with
  | nil => exact Or.inr ⟨rfl, by simp⟩
  | @cons spec c specs registry hc _ ih =>
    obtain ⟨title, aliases, hf⟩ := exists_fields spec
    obtain ⟨rfl, ha⟩ := Command.ofSpec?_answersTo hc hf hn
    by_cases hm : name ∈ c.name :: aliases
    · have hp := ha.mpr hm
      exact Or.inl ⟨c, by simp [find?, hp], .here hf hm⟩
    · have hp : c.answersTo name = false := Bool.eq_false_iff.mpr fun h => hm (ha.mp h)
      have he : find? (c :: registry) name = find? registry name := by simp [find?, hp]
      have hs : ¬ HasField spec name := fun h => hm (hf.hasField_iff.mp h)
      rw [he]
      rcases ih with ⟨d, hd, ht⟩ | ⟨hd, hu⟩
      · exact Or.inl ⟨d, hd, .later hs ht⟩
      · exact Or.inr ⟨hd, List.forall_mem_cons.mpr ⟨hs, hu⟩⟩

theorem find?_eq_none_iff_of_specs :
    registry.find? name = none ↔ ∀ spec ∈ specs, ¬ HasField spec name := by
  rcases find?_of_specs h hn with ⟨c, hf, ht⟩ | ⟨hf, hu⟩
  · obtain ⟨spec, hs, hx⟩ := ht.exists_hasField
    simp only [hf, reduceCtorEq, false_iff]
    exact fun hu => hu spec hs hx
  · exact iff_of_true hf hu

theorem exists_find?_of_specs (hx : ∃ spec ∈ specs, HasField spec name) :
    ∃ c, registry.find? name = some c ∧ Titled name specs c.name := by
  obtain ⟨spec, hs, hx⟩ := hx
  exact (find?_of_specs h hn).resolve_right fun hu => hu.2 spec hs hx

end

theorem find?_append {c : Command} (h : registry.find? name = some c) (more : Registry) :
    find? (registry ++ more) name = some c := by
  unfold find? at h ⊢
  rw [List.find?_append, h]
  rfl

theorem host_dispatch_append {c : Command} (h : registry.find? name = some c)
    (ha : c.action = .echo) (more : Registry) (calls : Nat) (args : List String) (s : State World) :
    (registry ++ more : Registry).host.dispatch calls name args s =
      registry.host.dispatch calls name args s := by
  have hm := find?_append h more
  rw [host, host, hostWithin_dispatch_echo args s hm ha, hostWithin_dispatch_echo args s h ha,
    answer, answer, hm, h]

theorem dispatch_congr (h : registry'.find? name = registry.find? name)
    (runScript : Option String → String → Job Unit) (args : List String) :
    registry'.dispatch runScript name args = registry.dispatch runScript name args := by
  unfold dispatch
  rw [h]

end Registry

namespace CommandLine

/-- Specs make a registry unless one of them has no title. A name is answered to with the title of
the first spec that has it as a field and the arguments, and is unknown if none has it. A name that
is answered to stays so, whatever is registered behind. -/
theorem dispatch_by_specs (specs : List String) (w : World) :
    ((∃ failure, register (specs.map some) [] w = .error failure) ↔
      ∃ spec ∈ specs, spec = "" ∨ ∃ rest, spec = ":" ++ rest) ∧
    (∀ registry w', register (specs.map some) [] w = .ok (registry, w') → ∀ name, name ≠ "" →
      ∀ calls args s,
        ((∃ spec ∈ specs, HasField spec name) → ∃ title after, Titled name specs title ∧
          registry.host.dispatch calls name args s = .ok () after ∧ after.context = s.context ∧
          after.world.output = s.world.output ++ (" ".intercalate (title :: args) ++ "\n")) ∧
        ((∃ after, registry.host.dispatch calls name args s =
            .error (.fault { cause := .unknownCommand name }) after ∧
          after.world.output = s.world.output) ↔ ∀ spec ∈ specs, ¬ HasField spec name) ∧
        ∀ more : Registry, (∃ spec ∈ specs, HasField spec name) →
          (registry ++ more : Registry).host.dispatch calls name args s =
            registry.host.dispatch calls name args s) ∧
    ∀ (registry more : Registry) runScript name args s, (registry.find? name).isSome →
      (registry ++ more : Registry).dispatch runScript name args s =
        registry.dispatch runScript name args s := by
  refine ⟨?_, ?_, ?_⟩
  · simp only [register_fails_iff, Command.ofSpec?_eq_none_iff]
  · intro registry w' hr name hn calls args s
    have he : registry.Echoes := register_echoes hr (by simp [Registry.Echoes])
    obtain ⟨commands, hc, rfl⟩ := register_commands hr
    refine ⟨fun hx => ?_, ?_, fun more hx => ?_⟩
    · obtain ⟨c, hf, ht⟩ := Registry.exists_find?_of_specs hc hn hx
      exact ⟨c.name, _, ht, Registry.hostWithin_dispatch_echo args s hf (Registry.find?_echo he hf)
        _ calls, rfl, Registry.answer_output hf args s.world⟩
    · rw [← Registry.find?_eq_none_iff_of_specs hc hn]
      exact Registry.hostWithin_unknown_iff he _ calls name args s
    · obtain ⟨c, hf, -⟩ := Registry.exists_find?_of_specs hc hn hx
      exact Registry.host_dispatch_append hf (Registry.find?_echo he hf) more calls args s
  · intro registry more runScript name args s hf
    obtain ⟨c, hf⟩ := Option.isSome_iff_exists.mp hf
    rw [Registry.dispatch_congr ((Registry.find?_append hf more).trans hf.symm)]

/-- Names and aliases of three specs clash, and what comes later has to stand back. A spec that
starts with a colon has no title. -/
theorem dispatch_by_specs_clash :
    (∃ failure, register ([":a"].map some) [] {} = .error failure) ∧
    ∃ registry w', register (["line:l:", "circle:l:line::c", "dot:c"].map some) [] {} =
        .ok (registry, w') ∧
      (∃ after, registry.host.dispatch 0 "c" ["1", "2"] ⟨{}, {}⟩ = .ok () after ∧
        after.world.output = "circle 1 2\n") ∧
      (∃ after, registry.host.dispatch 0 "q" [] ⟨{}, {}⟩ =
        .error (.fault { cause := .unknownCommand "q" }) after ∧ after.world.output = "") ∧
      (registry ++ [{ name := "c", action := .crash "" }] : Registry).host.dispatch 0 "c" []
        ⟨{}, {}⟩ = registry.host.dispatch 0 "c" [] ⟨{}, {}⟩ := by
  have hl : Fields "line:l:" ["line", "l", ""] := fields_iff.mpr (by decide +kernel)
  have hc : Fields "circle:l:line::c" ["circle", "l", "line", "", "c"] :=
    fields_iff.mpr (by decide +kernel)
  have hd : Fields "dot:c" ["dot", "c"] := fields_iff.mpr (by decide +kernel)
  have ht : Titled "c" ["line:l:", "circle:l:line::c", "dot:c"] "circle" := by
    refine .later ?_ (.here hc (by decide))
    rw [hl.hasField_iff]
    decide
  have hu : ∀ spec ∈ ["line:l:", "circle:l:line::c", "dot:c"], ¬ HasField spec "q" := by
    simp [hl.hasField_iff, hc.hasField_iff, hd.hasField_iff]
  obtain ⟨hfail, -, -⟩ := dispatch_by_specs [":a"] {}
  obtain ⟨hfails, hok, -⟩ := dispatch_by_specs ["line:l:", "circle:l:line::c", "dot:c"] {}
  refine ⟨hfail.mpr ⟨":a", by simp, Or.inr ⟨"a", rfl⟩⟩, ?_⟩
  cases hr : register (["line:l:", "circle:l:line::c", "dot:c"].map some) [] {} with
  | error failure =>
    obtain ⟨spec, hs, hx⟩ := hfails.mp ⟨failure, hr⟩
    have hn : ∀ spec ∈ ["line:l:", "circle:l:line::c", "dot:c"],
        Command.ofSpec? spec ≠ none := by decide +kernel
    exact absurd (Command.ofSpec?_eq_none_iff.mpr hx) (hn spec hs)
  | ok made =>
    obtain ⟨registry, w'⟩ := made
    refine ⟨registry, w', rfl, ?_, ?_, ?_⟩
    · obtain ⟨title, after, ht', ha, -, ho⟩ :=
        (hok registry w' hr "c" (by decide) 0 ["1", "2"] ⟨{}, {}⟩).1 ht.exists_hasField
      rw [← ht.unique ht'] at ho
      exact ⟨after, ha, ho⟩
    · exact (hok registry w' hr "q" (by decide) 0 [] ⟨{}, {}⟩).2.1.mpr hu
    · exact (hok registry w' hr "c" (by decide) 0 [] ⟨{}, {}⟩).2.2 _ ht.exists_hasField

end CommandLine

end CommandScript
