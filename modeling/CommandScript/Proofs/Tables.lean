import Mathlib.Data.List.Induction
import CommandScript.Table

/-! # What was put into a table

A table keeps keys in the order in which they were first put, and with each key the value that was
put last.
-/

namespace CommandScript.Table

variable {κ α : Type} [DecidableEq κ] {k k' : κ}

theorem get?_put_self (t : Table κ α) (k : κ) (v : α) : (t.put k v).get? k = some v := by
  obtain ⟨es⟩ := t
  change (putEntry k v es).lookup k = some v
  induction es with
  | nil => simp [putEntry]
  | cons e es ih =>
    by_cases hk : e.1 = k
    · simp [putEntry, hk]
    · have hn : (k == e.1) = false := beq_eq_false_iff_ne.mpr (Ne.symm hk)
      rw [putEntry, if_neg hk, List.lookup_cons, hn]
      exact ih

theorem get?_put_of_ne (t : Table κ α) (h : k' ≠ k) (v : α) : (t.put k v).get? k' = t.get? k' := by
  have hn : (k' == k) = false := beq_eq_false_iff_ne.mpr h
  obtain ⟨es⟩ := t
  change (putEntry k v es).lookup k' = es.lookup k'
  induction es with
  | nil => simp [putEntry, List.lookup_cons, hn]
  | cons e es ih =>
    by_cases hk : e.1 = k
    · rw [putEntry, if_pos hk, List.lookup_cons, List.lookup_cons, hk, hn]
    · rw [putEntry, if_neg hk, List.lookup_cons, List.lookup_cons, ih]

theorem keys_put (t : Table κ α) (k : κ) (v : α) :
    (t.put k v).keys = if k ∈ t.keys then t.keys else t.keys ++ [k] := by
  obtain ⟨es⟩ := t
  change (putEntry k v es).map Prod.fst =
    if k ∈ es.map Prod.fst then es.map Prod.fst else es.map Prod.fst ++ [k]
  induction es with
  | nil => simp [putEntry]
  | cons e es ih =>
    by_cases hk : e.1 = k
    · simp [putEntry, hk]
    · rw [putEntry, if_neg hk, List.map_cons, ih]
      simp only [List.map_cons, List.mem_cons, Ne.symm hk, false_or]
      split <;> rfl

theorem keys_prefix_put (t : Table κ α) (k : κ) (v : α) : t.keys <+: (t.put k v).keys := by
  rw [keys_put]
  split
  · exact List.prefix_rfl
  · exact List.prefix_append _ _

theorem forall_put {P : κ × α → Prop} {t : Table κ α} (h : ∀ e ∈ t.entries, P e) {k : κ}
    {v : α} (hv : P (k, v)) : ∀ e ∈ (t.put k v).entries, P e := by
  obtain ⟨es⟩ := t
  change ∀ e ∈ putEntry k v es, P e
  induction es with
  | nil => simpa [putEntry] using hv
  | cons e es ih =>
    obtain ⟨he, hes⟩ := List.forall_mem_cons.mp h
    unfold putEntry
    split
    · next hk => exact List.forall_mem_cons.mpr ⟨hk ▸ hv, hes⟩
    · exact List.forall_mem_cons.mpr ⟨he, ih hes⟩

/-- The first entry whose key fits is the entry of the first key that does. -/
theorem find?_entries (t : Table κ α) (p : κ → Bool) :
    t.entries.find? (fun e => p e.1) =
      (t.keys.find? p).bind fun k => (t.get? k).map fun v => (k, v) := by
  obtain ⟨es⟩ := t
  change es.find? (fun e => p e.1) =
    ((es.map Prod.fst).find? p).bind fun k => (es.lookup k).map fun v => (k, v)
  induction es with
  | nil => rfl
  | cons e es ih =>
    cases he : p e.1 with
    | true =>
      obtain ⟨k, v⟩ := e
      simp [he]
    | false =>
      rw [List.find?_cons_of_neg (by simp [he]), List.map_cons,
        List.find?_cons_of_neg (by simp [he]), ih]
      cases hf : (es.map Prod.fst).find? p with
      | none => rfl
      | some k =>
        have hk : (k == e.1) = false := by
          rw [beq_eq_false_iff_ne]
          rintro rfl
          rw [List.find?_some hf] at he
          cases he
        rw [Option.bind_some, Option.bind_some, List.lookup_cons, hk]

/-! ## Tables that were filled one after another -/

theorem eraseDups_concat (ks : List κ) (k : κ) :
    (ks ++ [k]).eraseDups = if k ∈ ks then ks.eraseDups else ks.eraseDups ++ [k] := by
  rw [List.eraseDups_append]
  split
  · next hk => simp [List.removeAll, hk]
  · next hk => simp [List.removeAll, List.eraseDups_cons, hk]

theorem find?_eraseDups (ks : List κ) (p : κ → Bool) : ks.eraseDups.find? p = ks.find? p := by
  induction ks using List.reverseRecOn with
  | nil => rfl
  | append_singleton ks k ih =>
    rw [eraseDups_concat, List.find?_append]
    split
    · next hk =>
      rw [ih]
      cases hf : ks.find? p with
      | some k' => rfl
      | none =>
        have hn : ¬ p k := List.find?_eq_none.mp hf k hk
        simp [hn]
    · rw [List.find?_append, ih]

/-- The table after these were put, one after another. -/
def putAll (t : Table κ α) (es : List (κ × α)) : Table κ α := es.foldl (fun t e => t.put e.1 e.2) t

variable (t : Table κ α) (es : List (κ × α))

theorem putAll_append (es' : List (κ × α)) : t.putAll (es ++ es') = (t.putAll es).putAll es' :=
  List.foldl_append

theorem putAll_concat (e : κ × α) : t.putAll (es ++ [e]) = (t.putAll es).put e.1 e.2 :=
  t.putAll_append es [e]

theorem keys_prefix_putAll : t.keys <+: (t.putAll es).keys := by
  induction es using List.reverseRecOn with
  | nil => exact List.prefix_rfl
  | append_singleton es e ih =>
    rw [putAll_concat]
    exact ih.trans (keys_prefix_put _ _ _)

/-- A key has the value that was put last. -/
theorem get?_putAll (k : κ) : (t.putAll es).get? k =
    ((es.filter fun e => e.1 == k).getLast?.map Prod.snd).or (t.get? k) := by
  induction es using List.reverseRecOn with
  | nil => rfl
  | append_singleton es e ih =>
    rw [putAll_concat, List.filter_append, List.getLast?_append]
    by_cases he : e.1 = k
    · subst he
      rw [get?_put_self]
      simp
    · rw [get?_put_of_ne _ (Ne.symm he), ih]
      simp [he]

theorem keys_putAll_empty : (putAll {} es).keys = (es.map Prod.fst).eraseDups := by
  induction es using List.reverseRecOn with
  | nil => rfl
  | append_singleton es e ih =>
    rw [putAll_concat, keys_put, ih, List.map_append, List.map_singleton, eraseDups_concat]
    simp only [List.mem_eraseDups]

theorem forall_putAll_empty {P : κ × α → Prop} {es : List (κ × α)} (h : ∀ e ∈ es, P e) :
    ∀ e ∈ (putAll {} es).entries, P e := by
  induction es using List.reverseRecOn with
  | nil => exact fun e he => absurd he List.not_mem_nil
  | append_singleton es e ih =>
    obtain ⟨hes, he⟩ := List.forall_mem_append.mp h
    rw [putAll_concat]
    exact forall_put (ih hes) (he e (List.mem_singleton_self e))

end CommandScript.Table
