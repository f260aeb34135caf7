import Mathlib.Data.List.Forall2
import CommandScript.Proofs.Lexing
import CommandScript.Text.Integer

/-! # Reading numerals

A text of digits alone is read as its positional value, and refused only for its length.
-/

namespace CommandScript.Text

theorem digitValue?_of_class {c : Char} (h : CharClass.of c = .digit) :
    (∃ d, digitValue? c = some d) ∧ isBlank c = false := by
  unfold CharClass.of at h
  split_ifs at h with hn hb hl hd
  exact ⟨Option.isSome_iff_exists.mp hd, by simpa using hb⟩

theorem IsNumeral.mapM_digitValue? {cs : List Char} (h : IsNumeral cs) :
    ∃ ds, cs.mapM digitValue? = some ds ∧ ds.length = cs.length := by
  obtain ⟨-, h⟩ := h
  induction cs with
  | nil => exact ⟨[], rfl, rfl⟩
  | cons c cs ih =>
    obtain ⟨d, hd⟩ := (digitValue?_of_class (h c (by simp))).1
    obtain ⟨ds, hds, hl⟩ := ih fun e he => h e (by simp [he])
    exact ⟨d :: ds, by simp [List.mapM_cons, hd, hds], by simp [hl]⟩

theorem IsNumeral.digitValues?_eq {cs : List Char} (h : IsNumeral cs) :
    digitValues? cs = cs.mapM digitValue? := by
  obtain ⟨hn, h⟩ := h
  induction cs with
  | nil => exact (hn rfl).elim
  | cons c cs ih =>
    cases cs with
    | nil => cases hc : digitValue? c <;> simp [digitValues?, hc]
    | cons e es =>
      have he : e ≠ '_' := by
        rintro rfl
        exact absurd (h '_' (by simp)) (by decide)
      have hi := ih (by simp) fun x hx => h x (by simp [hx])
      have hu : ∀ rest, e :: es = '_' :: rest → False := fun rest h => he (List.cons.inj h).1
      rw [digitValues?.eq_4 _ _ (by simp) hu, hi]
      exact List.mapM_cons.symm

theorem trim_eq_self {p : Char → Bool} {cs : List Char} (h : ∀ c ∈ cs, p c = false) :
    trim p cs = cs := by
  have hd : ∀ ds : List Char, (∀ c ∈ ds, p c = false) → ds.dropWhile p = ds := by
    intro ds hds
    cases ds with
    | nil => rfl
    | cons d ds => simp [hds d (by simp)]
  rw [trim, hd cs h, hd cs.reverse fun c hc => h c (List.mem_reverse.mp hc), List.reverse_reverse]

/-- A numeral is read as its positional value, if it is short enough. -/
theorem IsNumeral.readInt?_eq {text : String} (h : IsNumeral text.toList) {ds : List Nat}
    (hds : text.toList.mapM digitValue? = some ds) :
    readInt? text = if ds.length ≤ digitLimit then some (positional ds : Int) else none := by
  have ht : trim isPadding text.toList = text.toList :=
    trim_eq_self fun c hc => by simp [isPadding, (digitValue?_of_class (h.2 c hc)).2]
  have hr : readSigned? text.toList = (readNat? text.toList).map Int.ofNat := by
    refine readSigned?.eq_3 _ ?_ ?_
    · intro cs he
      exact absurd (h.2 '+' (by simp [he])) (by decide)
    · intro cs he
      exact absurd (h.2 '-' (by simp [he])) (by decide)
  rw [readInt?, ht, hr, readNat?, h.digitValues?_eq, hds]
  by_cases hl : ds.length ≤ digitLimit <;> simp [hl]

theorem digitAt_lt {zs : List Nat} {n d : Nat} (h : digitAt zs n = some d) : d < 10 := by
  induction zs with
  | nil => cases h
  | cons z zs ih =>
    unfold digitAt at h
    split_ifs at h with hz hd
    · cases h
      omega
    · exact ih h

theorem forall₂_of_mapM {α β : Type} {f : α → Option β} {as : List α} {bs : List β}
    (h : as.mapM f = some bs) : List.Forall₂ (fun a b => f a = some b) as bs := by
  induction as generalizing bs with
  | nil =>
    cases h
    exact .nil
  | cons a as ih =>
    rw [List.mapM_cons] at h
    obtain ⟨b, hb, h⟩ := Option.bind_eq_some_iff.mp h
    obtain ⟨bs', hbs, h⟩ := Option.bind_eq_some_iff.mp h
    cases h
    exact .cons hb (ih hbs)

theorem mapM_digitValue?_lt {cs : List Char} {ds : List Nat}
    (h : cs.mapM digitValue? = some ds) : ∀ d ∈ ds, d < 10 := by
  have hf := forall₂_of_mapM h
  clear h
  induction hf with
  | nil => simp
  | cons hd _ ih => exact List.forall_mem_cons.mpr ⟨digitAt_lt hd, ih⟩

theorem foldl_digits_lt {ds : List Nat} (h : ∀ d ∈ ds, d < 10) (n : Nat) :
    ds.foldl (fun n d => n * 10 + d) n < (n + 1) * Nat.pow 10 ds.length := by
  induction ds generalizing n with
  | nil => exact Nat.lt_of_lt_of_eq (Nat.lt_succ_self n) (Nat.mul_one _).symm
  | cons d ds ih =>
    have hd := h d (by simp)
    calc (d :: ds).foldl (fun n d => n * 10 + d) n
        < (n * 10 + d + 1) * Nat.pow 10 ds.length := ih (fun d hm => h d (by simp [hm])) _
      _ ≤ ((n + 1) * 10) * Nat.pow 10 ds.length := Nat.mul_le_mul_right _ (by omega)
      _ = (n + 1) * (Nat.pow 10 ds.length * 10) := by rw [Nat.mul_assoc, Nat.mul_comm 10]

theorem writable_positional {cs : List Char} {ds : List Nat} (h : cs.mapM digitValue? = some ds)
    (hl : ds.length ≤ digitLimit) : writable (positional ds) = true := by
  have hp : positional ds < Nat.pow 10 ds.length := by
    have hf := foldl_digits_lt (mapM_digitValue?_lt h) 0
    rwa [Nat.zero_add, Nat.one_mul] at hf
  apply decide_eq_true
  rw [Int.natAbs_natCast]
  unfold textBound
  -- the bound is not to be computed
  generalize digitLimit = n at hl ⊢
  exact Nat.lt_of_lt_of_le hp (Nat.pow_le_pow_right (Nat.succ_pos 9) hl)

/-! ## Decimal text -/

theorem writable_iff {n : Int} : writable n = true ↔ n.natAbs < textBound := decide_eq_true_iff

theorem lt_textBound {n : Nat} (h : n < 10) : n < textBound := by
  have hl : 0 < digitLimit := by decide
  unfold textBound
  -- the bound is not to be computed
  generalize digitLimit = k at hl ⊢
  exact Nat.lt_of_lt_of_le h (Nat.le_self_pow (Nat.ne_of_gt hl) 10)

theorem decimal?_of_writable {n : Int} (h : writable n = true) : decimal? n = some n.repr :=
  if_pos h

theorem decimal?_of_not_writable {n : Int} (h : writable n = false) : decimal? n = none :=
  if_neg (Bool.eq_false_iff.mp h)

theorem positional_append (ds : List Nat) (d : Nat) :
    positional (ds ++ [d]) = positional ds * 10 + d := by
  simp [positional]

theorem digitValue?_digitChar : ∀ d < 10, digitValue? (Nat.digitChar d) = some d := by decide

/-- The decimal digits of a number. Only zero itself starts with a zero. -/
structure IsDigits (n : Nat) (ds : List Nat) : Prop where
  nonempty : ds ≠ []
  digit : ∀ d ∈ ds, d < 10
  leading : ds.head? = some 0 → ds = [0]
  value : positional ds = n

theorem exists_isDigits (n : Nat) :
    ∃ ds, IsDigits n ds ∧ Nat.toDigits 10 n = ds.map Nat.digitChar := by
  induction n using Nat.strongRecOn with
  | ind n ih =>
    by_cases hn : n < 10
    · have hl : [n].head? = some 0 → [n] = [0] := by simp
      have hd : IsDigits n [n] := ⟨by simp, by simpa using hn, hl, by simp [positional]⟩
      exact ⟨[n], hd, Nat.toDigits_of_lt_base hn⟩
    · obtain ⟨ds, h, he⟩ := ih (n / 10) (by omega)
      have hv : positional (ds ++ [n % 10]) = n := by
        rw [positional_append, h.value]
        omega
      -- what is left of the last digit is not zero, so it does not start with one
      have hl : (ds ++ [n % 10]).head? = some 0 → ds ++ [n % 10] = [0] := by
        intro hz
        rw [List.head?_append_of_ne_nil _ h.nonempty] at hz
        have hp := h.value
        rw [h.leading hz, positional] at hp
        simp at hp
        omega
      refine ⟨ds ++ [n % 10], ⟨by simp, ?_, hl, hv⟩, ?_⟩
      · intro d hd
        rcases List.mem_append.mp hd with hd | hd
        · exact h.digit d hd
        · rw [List.mem_singleton.mp hd]
          omega
      · rw [Nat.toDigits_of_base_le (by omega) (by omega), he, List.map_append]
        rfl

theorem IsDigits.mapM_digitValue? {n : Nat} {ds : List Nat} (h : IsDigits n ds) :
    (ds.map Nat.digitChar).mapM digitValue? = some ds := by
  have hd := h.digit
  clear h
  induction ds with
  | nil => rfl
  | cons d ds ih =>
    rw [List.map_cons, List.mapM_cons, digitValue?_digitChar d (hd d (by simp)),
      ih fun e he => hd e (by simp [he])]
    rfl

theorem IsDigits.isNumeral {n : Nat} {ds : List Nat} (h : IsDigits n ds) :
    IsNumeral (ds.map Nat.digitChar) := by
  have hc : ∀ d < 10, CharClass.of (Nat.digitChar d) = .digit := by decide
  refine ⟨by simpa using h.nonempty, fun c hm => ?_⟩
  obtain ⟨d, hd, rfl⟩ := List.mem_map.mp hm
  exact hc d (h.digit d hd)

theorem le_foldl_digits (ds : List Nat) (n : Nat) :
    n * Nat.pow 10 ds.length ≤ ds.foldl (fun n d => n * 10 + d) n := by
  induction ds generalizing n with
  | nil => exact Nat.le_of_eq (Nat.mul_one n)
  | cons d ds ih =>
    calc n * (Nat.pow 10 ds.length * 10)
        = n * 10 * Nat.pow 10 ds.length := by rw [Nat.mul_comm (Nat.pow _ _), Nat.mul_assoc]
      _ ≤ (n * 10 + d) * Nat.pow 10 ds.length := Nat.mul_le_mul_right _ (by omega)
      _ ≤ _ := ih (n * 10 + d)

theorem IsDigits.length_le {n : Nat} {ds : List Nat} (h : IsDigits n ds) (hn : n < textBound) :
    ds.length ≤ digitLimit := by
  have hl : 0 < digitLimit := by decide
  unfold textBound at hn
  -- the bound is not to be computed
  generalize digitLimit = k at hn hl ⊢
  cases ds with
  | nil => exact Nat.zero_le k
  | cons d ds =>
    by_cases hd : d = 0
    · subst hd
      rw [h.leading rfl]
      exact hl
    · have hv : Nat.pow 10 ds.length < Nat.pow 10 k := calc
        Nat.pow 10 ds.length ≤ (0 * 10 + d) * Nat.pow 10 ds.length :=
          Nat.le_mul_of_pos_left _ (by omega)
        _ ≤ positional (d :: ds) := le_foldl_digits ds _
        _ < Nat.pow 10 k := h.value ▸ hn
      exact (Nat.pow_lt_pow_iff_right (by omega)).mp hv

theorem exists_digits_repr {n : Nat} (h : n < textBound) :
    ∃ ds, n.repr.toList.mapM digitValue? = some ds ∧ ds.length ≤ digitLimit ∧
      positional ds = n := by
  obtain ⟨ds, hds, he⟩ := exists_isDigits n
  exact ⟨ds, by rw [Nat.toList_repr, he, hds.mapM_digitValue?], hds.length_le h, hds.value⟩

theorem isNumeral_repr (n : Nat) : IsNumeral n.repr.toList := by
  obtain ⟨ds, hds, he⟩ := exists_isDigits n
  rw [Nat.toList_repr, he]
  exact hds.isNumeral

/-- The decimal text of an integer: its digits, after a minus sign if it is negative. -/
def IsDecimal (n : Int) (text : String) : Prop :=
  ∃ ds, IsDigits n.natAbs ds ∧ text.toList = (if n < 0 then ['-'] else []) ++ ds.map Nat.digitChar

theorem isDecimal_repr (n : Int) : IsDecimal n n.repr := by
  obtain ⟨ds, hds, he⟩ := exists_isDigits n.natAbs
  refine ⟨ds, hds, ?_⟩
  rw [← he, ← Nat.toList_repr]
  cases n with
  | ofNat m => rfl
  | negSucc m =>
    rw [if_pos (Int.negSucc_lt_zero m)]
    exact String.toList_append

/-- Reading undoes writing, up to the same magnitude. -/
theorem IsDecimal.readInt?_eq {n : Int} {text : String} (h : IsDecimal n text)
    (hn : writable n = true) : readInt? text = some n := by
  obtain ⟨ds, hds, ht⟩ := h
  have hl := hds.length_le (writable_iff.mp hn)
  by_cases hs : n < 0
  · rw [if_pos hs] at ht
    have hp : ∀ c ∈ text.toList, isPadding c = false := by
      rw [ht]
      intro c hc
      rcases List.mem_cons.mp hc with rfl | hc
      · decide
      · simp [isPadding, (digitValue?_of_class (hds.isNumeral.2 c hc)).2]
    have hr : readNat? (ds.map Nat.digitChar) = some n.natAbs := by
      rw [readNat?, hds.isNumeral.digitValues?_eq, hds.mapM_digitValue?]
      simp [hl, hds.value]
    rw [readInt?, trim_eq_self hp, ht, List.singleton_append, readSigned?, hr]
    have he : -(n.natAbs : Int) = n := by omega
    exact congrArg some he
  · rw [if_neg hs, List.nil_append] at ht
    have hm : text.toList.mapM digitValue? = some ds := by rw [ht, hds.mapM_digitValue?]
    rw [IsNumeral.readInt?_eq (ht ▸ hds.isNumeral) hm, if_pos hl, hds.value]
    exact congrArg some (by omega)

end CommandScript.Text
