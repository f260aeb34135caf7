import CommandScript.Proofs.Parsing.Logic
import CommandScript.Expr.Parser

/-! # Expressions are read by the grammar

Every expression parser reads inline what its grammar rule describes.
-/

namespace CommandScript.Parser

open Token Grammar

variable {c c' : Cursor} {t : Token} {d n : Nat}

theorem symbol_wellFormed {value : String} {c : Char} (hv : value.toList = [c])
    (hc : Text.CharClass.of c = .symbol) : (symbol value).WellFormed := by
  change Text.IsSymbols value.toList
  rw [hv]
  exact ⟨List.cons_ne_nil c [], by simpa using hc⟩

theorem open_wellFormed : (symbol "(").WellFormed := symbol_wellFormed rfl (by decide)

theorem close_wellFormed : (symbol ")").WellFormed := symbol_wellFormed rfl (by decide)

theorem comma_wellFormed : (symbol ",").WellFormed := symbol_wellFormed rfl (by decide)

theorem equals_wellFormed : (symbol "=").WellFormed := symbol_wellFormed rfl (by decide)

theorem term_of_number (hw : t.WellFormed) (hk : t.kind = .number) {value : Int}
    (hv : Text.readInt? t.value = some value) : Term [t] (.int value) := by
  obtain ⟨kind, text⟩ := t
  obtain rfl : kind = .number := hk
  have hn : Text.IsNumeral text.toList := hw
  obtain ⟨ds, hds, -⟩ := hn.mapM_digitValue?
  rw [hn.readInt?_eq hds] at hv
  split at hv
  · next hl =>
    obtain rfl := Option.some.inj hv
    exact .number hds hl
  · cases hv

theorem term_reads (d : Nat) (hw : c.WellFormed) : Reads True d c (term d) Term := by
  induction d generalizing c with
  | zero =>
    refine ⟨fun h => ?_, fun h => ?_, fun h _ hi => ?_⟩ <;> cases h
    · exact Nat.zero_le _
    · cases hi
  | succ d ih =>
    rw [term]
    apply reads_peek_bind
    intro t c' hc
    have ht := wellFormed_of_passes hw hc
    split
    · next hk =>
      split
      · next value hv =>
        exact reads_advance_bind hc (by simp [hk]) (reads_pure (term_of_number ht hk hv))
      · exact reads_fail _
    · split
      · next hk =>
        obtain ⟨kind, x⟩ := t
        obtain rfl : kind = .identifier := hk
        exact reads_advance_bind hc (by simp) (reads_pure (.name x))
      · split
        · next hv =>
          obtain rfl := ht.eq_of_value open_wellFormed hv
          apply reads_advance_bind hc (by simp)
          apply (ih (hc.wellFormed hw)).bind
          intro e ts c₁ he hts hg
          have hw₁ := hts.wellFormed (hc.wellFormed hw)
          refine reads_takes_bind (accept_takes close_wellFormed) hw₁ (by simp)
            (fun c₂ h₂ => reads_pure (.group hg)) fun u c₂ h₂ hu => ?_
          exact reads_peek_bind fun v c₃ h₃ => reads_fail _
        · exact reads_fail _

theorem operator?_eq_some {allowed : Op → Bool} {op : Op}
    (h : operator? allowed t = some op) : t = symbol op.lexeme ∧ allowed op = true := by
  unfold operator? at h
  split at h
  · next hk =>
    obtain ⟨ho, ha⟩ := Option.filter_eq_some_iff.mp h
    have hv := List.find?_some ho
    obtain ⟨kind, value⟩ := t
    simp only [beq_iff_eq] at hv
    exact ⟨by simp_all, ha⟩
  · cases h

theorem chain_reads {allowed : Op → Bool} {operand : Parser Expr}
    {Operand : List Token → Expr → Prop} {n : Nat}
    (ho : ∀ {c : Cursor}, c.WellFormed → Reads True n c operand Operand) (k : Nat) (left : Expr)
    (hw : c.WellFormed) (hk : c.rest.length < k) :
    Reads True n c (chain allowed operand k left) fun ts e =>
      ∀ us, Chain allowed Operand us left → Chain allowed Operand (us ++ ts) e := by
  induction k generalizing c left with
  | zero => exact absurd hk (Nat.not_lt_zero _)
  | succ k ih =>
    rw [chain]
    apply reads_peek_bind
    intro t c' hc
    have hl := hc.length
    split
    · exact reads_pure fun us hu => by simpa using hu
    · next op hop =>
      obtain ⟨rfl, ha⟩ := operator?_eq_some hop
      apply reads_advance_bind hc (by simp)
      refine ((ho (hc.wellFormed hw)).weaken (by omega) fun _ _ h => h).bind
        fun r ts c₁ he hts hg => ?_
      have hl₁ := hts.length
      refine (ih _ (hts.wellFormed (hc.wellFormed hw)) ?_).weaken (by omega) ?_
      · simp only [List.length_singleton] at hl
        omega
      · intro us e h vs hv
        have := h _ (.join hv ha hg)
        simpa using this

theorem product_reads (d : Nat) (hw : c.WellFormed) : Reads True d c (product d) Product := by
  apply (term_reads d hw).bind
  intro e ts c₁ he hts hg
  have hw₁ := hts.wellFormed hw
  apply reads_congr (bind_ok (rounds_apply c₁))
  apply (chain_reads (fun h => term_reads d h) _ e hw₁ (Nat.lt_succ_self _)).weaken (by omega)
  exact fun us r h => h ts (.single hg)

theorem sum_reads (d : Nat) (hw : c.WellFormed) : Reads True d c (sum d) Sum := by
  apply (product_reads d hw).bind
  intro e ts c₁ he hts hg
  have hw₁ := hts.wellFormed hw
  apply reads_congr (bind_ok (rounds_apply c₁))
  refine (chain_reads (fun h => product_reads d h) _ e hw₁ (Nat.lt_succ_self _)).weaken
    (by omega) ?_
  exact fun us r h => h ts (.single hg)

theorem comparison_reads (d : Nat) (hw : c.WellFormed) :
    Reads True d c (comparison d) Comparison := by
  apply (sum_reads d hw).bind
  intro l ts c₁ he hts hl
  have hw₁ := hts.wellFormed hw
  apply reads_peek_bind
  intro t c₂ hc
  split
  · exact reads_fail _
  · next op hop =>
    obtain ⟨rfl, ha⟩ := operator?_eq_some hop
    apply reads_advance_bind hc (by simp)
    refine ((sum_reads d (hc.wellFormed hw₁)).weaken (by omega) fun _ _ h => h).bind
      fun r us c₃ he hus hr => ?_
    exact reads_pure (by simpa using .mk hl ha hr)

theorem argument_reads (d : Nat) (hw : c.WellFormed) :
    Reads True d c (argument d) fun ts e =>
      ∃ us, Term us e ∧ (ts = us ∨ ts = us ++ [symbol ","]) := by
  apply (term_reads d hw).bind
  intro e ts c₁ he hts hg
  exact reads_takes_bind (accept_takes comma_wellFormed) (hts.wellFormed hw) (by simp)
    (fun c₂ h₂ => reads_pure ⟨ts, hg, by simp⟩) fun t c₂ h₂ ht => reads_pure ⟨ts, hg, by simp⟩

theorem ne_nil_of_argument {ts : List Token} {e : Expr}
    (h : ∃ us, Term us e ∧ (ts = us ∨ ts = us ++ [symbol ","])) : 0 < ts.length := by
  obtain ⟨us, hu, rfl | rfl⟩ := h
  · cases hu <;> simp
  · simp

theorem arguments_cons {ts us : List Token} {e : Expr} {es : List Expr}
    (h : ∃ vs, Term vs e ∧ (ts = vs ∨ ts = vs ++ [symbol ","])) (hs : Arguments us es) :
    Arguments (ts ++ us) (e :: es) := by
  obtain ⟨vs, hv, rfl | rfl⟩ := h
  · exact .bare hv hs
  · simpa using Arguments.comma hv hs

theorem itemsUntil_reads {q : Parser Bool} {u : Token} {inline : Prop} (hq : Takes q u)
    (hi : inline → u.kind ≠ .newLine) (k : Nat) (items : Array Expr) (hw : c.WellFormed)
    (hk : c.rest.length < k) :
    Reads inline d c (itemsUntil q (argument d) k items) fun ts es =>
      ∃ us es', Arguments us es' ∧ ts = us ++ [u] ∧ es = items.toList ++ es' := by
  induction k generalizing c items with
  | zero => exact absurd hk (Nat.not_lt_zero _)
  | succ k ih =>
    rw [itemsUntil]
    refine reads_takes_bind hq hw hi (fun c₁ h₁ => ?_) fun t c₁ h₁ ht => ?_
    · exact reads_pure ⟨[], [], .nil, rfl, by simp⟩
    · apply (argument_reads d hw).relax.bind
      intro e ts c₂ he hts hg
      have hl := hts.length
      have hp := ne_nil_of_argument hg
      apply (ih (items.push e) (hts.wellFormed hw) (by omega)).weaken (by omega)
      rintro vs es ⟨us, es', hu, rfl, rfl⟩
      exact ⟨ts ++ us, e :: es', arguments_cons hg hu, by simp, by simp⟩

theorem arguments_reads (d : Nat) (hw : c.WellFormed) :
    Reads True d c (arguments d) fun ts es => ∃ us, Arguments us es ∧ ts = us ++ [symbol ")"] := by
  apply reads_congr (bind_ok (rounds_apply c))
  refine (itemsUntil_reads (accept_takes close_wellFormed) (by simp) _ _ hw
    (Nat.lt_succ_self _)).weaken (Nat.le_refl _) ?_
  rintro ts es ⟨us, es', hu, rfl, rfl⟩
  exact ⟨us, by simpa using hu, rfl⟩

theorem lineArguments_reads (d : Nat) (hw : c.WellFormed) :
    Reads False d c (lineArguments d) fun ts es =>
      ∃ us, Arguments us es ∧ ts = us ++ [newline] := by
  apply reads_congr (bind_ok (rounds_apply c))
  refine (itemsUntil_reads acceptNewline_takes False.elim _ _ hw
    (Nat.lt_succ_self _)).weaken (Nat.le_refl _) ?_
  rintro ts es ⟨us, es', hu, rfl, rfl⟩
  exact ⟨us, by simpa using hu, rfl⟩

theorem mapM_parameter_reads (es : List Expr) :
    Reads True n c (es.mapM parameter) fun ts params => ts = [] ∧ es = params.map .var := by
  induction es generalizing c n with
  | nil => exact reads_pure ⟨rfl, rfl⟩
  | cons e es ih =>
    rw [List.mapM_cons]
    cases e with
    | var x =>
      apply reads_congr (bind_ok (pure_apply x c))
      apply (ih).bind
      intro params ts c₁ he hts hp
      obtain ⟨rfl, rfl⟩ := hp
      exact reads_pure ⟨rfl, rfl⟩
    | _ => exact reads_congr (q := fail _) (bind_error (fail_apply _ c)) (reads_fail _)

theorem parameters_reads (d : Nat) (hw : c.WellFormed) :
    Reads True d c (parameters d) fun ts params =>
      ∃ us, Arguments us (params.map .var) ∧ ts = us ++ [symbol ")"] := by
  apply (arguments_reads d hw).bind
  intro es ts c₁ he hts ⟨us, hu, hs⟩
  apply (mapM_parameter_reads es).weaken (Nat.le_refl _)
  rintro vs params ⟨rfl, rfl⟩
  exact ⟨us, hu, by simpa using hs⟩

end CommandScript.Parser
