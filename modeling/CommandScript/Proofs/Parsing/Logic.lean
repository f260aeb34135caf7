import CommandScript.Proofs.Grammar
import CommandScript.Proofs.Results
import CommandScript.Cursor

/-! # Reasoning about parsers

A cursor passes tokens; a parser reads what a grammar describes. The rules follow the code: one
for each primitive of the cursor and one for sequencing, which adds up the tokens passed.
-/

namespace CommandScript

open Token

namespace Cursor

/-- `c'` stands after the tokens `ts` of `c`. -/
structure Passes (c : Cursor) (ts : List Token) (c' : Cursor) : Prop where
  rest : c.rest = ts ++ c'.rest
  position : c'.position = c.position + ts.length
  line : c'.line = c.line + newlines ts

def WellFormed (c : Cursor) : Prop := ∀ t ∈ c.rest, t.WellFormed

variable {c c' c'' : Cursor} {ts us : List Token} {t : Token}

theorem Passes.refl (c : Cursor) : c.Passes [] c := ⟨rfl, rfl, by simp⟩

theorem Passes.trans (h : c.Passes ts c') (h' : c'.Passes us c'') : c.Passes (ts ++ us) c'' := by
  refine ⟨by rw [h.rest, h'.rest, List.append_assoc], ?_, ?_⟩
  · rw [h'.position, h.position, List.length_append, Nat.add_assoc]
  · rw [h'.line, h.line, newlines_append, Int.natCast_add, Int.add_assoc]

theorem Passes.split (h : c.Passes (ts ++ us) c') : ∃ d, c.Passes ts d ∧ d.Passes us c' := by
  refine ⟨⟨us ++ c'.rest, c.position + ts.length, c.line + newlines ts⟩, ⟨?_, rfl, rfl⟩, rfl,
    ?_, ?_⟩
  · rw [h.rest, List.append_assoc]
  · rw [h.position, List.length_append, Nat.add_assoc]
  · rw [h.line, newlines_append, Int.natCast_add, Int.add_assoc]

theorem Passes.uncons (h : c.Passes (t :: ts) c') : ∃ d, c.Passes [t] d ∧ d.Passes ts c' :=
  Passes.split (show c.Passes ([t] ++ ts) c' from h)

theorem Passes.wellFormed (h : c.Passes ts c') (hc : c.WellFormed) : c'.WellFormed :=
  fun t ht => hc t (by rw [h.rest]; exact List.mem_append_right _ ht)

theorem Passes.length (h : c.Passes ts c') : c.rest.length = ts.length + c'.rest.length := by
  rw [h.rest, List.length_append]

theorem Passes.rest_eq {u : Token} {r : List Token} (h : c.Passes [t] c') (hc : c.rest = u :: r) :
    c'.rest = r :=
  (List.cons.inj (h.rest.symm.trans hc)).2

theorem Passes.newlines_rest (h : c.Passes ts c') :
    newlines c.rest = newlines ts + newlines c'.rest := by
  rw [h.rest, newlines_append]

theorem Passes.eq_of_nil (h : c.Passes [] c') : c = c' := by
  obtain ⟨r, p, l⟩ := c
  obtain ⟨r', p', l'⟩ := c'
  obtain ⟨hr, hp, hl⟩ := h
  simp_all

theorem passes_of_cons {r : List Token} (h : c.rest = t :: r) : ∃ c', c.Passes [t] c' :=
  ⟨⟨r, c.position + 1, c.line + newlines [t]⟩, h, rfl, rfl⟩

theorem exists_passes (c : Cursor) : c.rest = [] ∨ ∃ t c', c.Passes [t] c' := by
  cases h : c.rest with
  | nil => exact Or.inl rfl
  | cons t r => exact Or.inr ⟨t, passes_of_cons h⟩

end Cursor

namespace Refusal

/-- Whether more text could mend the refusal. -/
def incomplete : Refusal → Bool
  | malformed _ incomplete _ => incomplete
  | tooDeep => false

end Refusal

namespace Parser

variable {α β : Type} {c c' : Cursor} {t : Token} {ts : List Token}

/-! ## The primitives -/

@[simp] theorem fail_apply (reason : String) (c : Cursor) :
    (fail reason : Parser α) c = .error (.malformed reason false c.line) c := rfl

@[simp] theorem failIncomplete_apply (reason : String) (c : Cursor) :
    (failIncomplete reason : Parser α) c = .error (.malformed reason true c.line) c := rfl

@[simp] theorem rounds_apply (c : Cursor) : rounds c = .ok (c.rest.length + 1) c := rfl

@[simp] theorem endOfScript_apply (c : Cursor) :
    (endOfScript : Parser α) c = .error (.malformed "Unexpected end of script" true c.line) c := rfl

theorem peek_nil (h : c.rest = []) : peek c = (endOfScript : Parser Token) c := by
  simp only [peek, bind_apply, get_apply, h]

theorem peek_passes (h : c.Passes (t :: ts) c') : peek c = .ok t c := by
  simp only [peek, bind_apply, get_apply, h.rest, List.cons_append, pure_apply]

theorem advance_nil (h : c.rest = []) : advance c = (endOfScript : Parser Token) c := by
  simp only [advance, bind_apply, get_apply, h]

theorem advance_passes (h : c.Passes [t] c') : advance c = .ok t c' := by
  obtain ⟨r, p, l⟩ := c
  obtain ⟨r', p', l'⟩ := c'
  obtain ⟨hr, hp, hl⟩ := h
  simp only [List.singleton_append, List.length_singleton, newlines_cons, newlines_nil] at hr hp hl
  subst hr hp hl
  simp only [advance, bind_apply, get_apply, set_apply, pure_apply]
  split <;> simp

theorem accept_nil {value : String} (h : c.rest = []) :
    accept value c = (endOfScript : Parser Bool) c := by
  rw [accept, bind_error (peek_nil h)]
  rfl

theorem accept_passes (value : String) (h : c.Passes [t] c') :
    accept value c = if t.value = value then .ok true c' else .ok false c := by
  rw [accept, bind_ok (peek_passes h)]
  split
  · rw [bind_ok (advance_passes h), pure_apply]
  · rfl

theorem acceptKind_nil {kind : TokenKind} (h : c.rest = []) :
    acceptKind kind c = (endOfScript : Parser Bool) c := by
  rw [acceptKind, bind_error (peek_nil h)]
  rfl

theorem acceptKind_passes (kind : TokenKind) (h : c.Passes [t] c') :
    acceptKind kind c = if t.kind = kind then .ok true c' else .ok false c := by
  rw [acceptKind, bind_ok (peek_passes h)]
  split
  · rw [bind_ok (advance_passes h), pure_apply]
  · rfl

theorem eatNewline_nil (h : c.rest = []) : eatNewline c = (endOfScript : Parser Unit) c := by
  rw [eatNewline, bind_error (acceptKind_nil h)]
  rfl

theorem eatNewline_passes (h : c.Passes [t] c') :
    eatNewline c = if t.kind = .newLine then .ok () c'
      else (fail ("Expected newline instead received: " ++ t.value) : Parser Unit) c := by
  have ha := acceptKind_passes .newLine h
  split at ha
  · next hk => rw [eatNewline, bind_ok ha, if_pos hk]; rfl
  · next hk =>
    rw [eatNewline, bind_ok ha, if_neg hk, if_neg Bool.false_ne_true, bind_ok (peek_passes h)]

theorem expect_nil {value : String} (h : c.rest = []) :
    expect value c = (endOfScript : Parser Unit) c := by
  rw [expect, bind_error (accept_nil h)]
  rfl

theorem expect_passes (value : String) (h : c.Passes [t] c') :
    expect value c = if t.value = value then .ok () c'
      else (fail ("Expected " ++ value ++ " instead received: " ++ t.describe) :
        Parser Unit) c := by
  have ha := accept_passes value h
  split at ha
  · next hk => rw [expect, bind_ok ha, if_pos hk]; rfl
  · next hk =>
    rw [expect, bind_ok ha, if_neg hk, if_neg Bool.false_ne_true, bind_ok (peek_passes h)]

theorem peek_eq_ok (h : peek c = .ok t c') : c' = c ∧ ∃ c₁, c.Passes [t] c₁ := by
  rcases c.exists_passes with hc | ⟨u, c₁, hc⟩
  · rw [peek_nil hc] at h
    cases h
  · rw [peek_passes hc] at h
    cases h
    exact ⟨rfl, c₁, hc⟩

theorem advance_eq_ok (h : advance c = .ok t c') : c.Passes [t] c' := by
  rcases c.exists_passes with hc | ⟨u, c₁, hc⟩
  · rw [advance_nil hc] at h
    cases h
  · rw [advance_passes hc] at h
    cases h
    exact hc

theorem accept_eq_ok {value : String} {b : Bool} (h : accept value c = .ok b c') :
    ∃ ts, c.Passes ts c' := by
  rcases c.exists_passes with hc | ⟨u, c₁, hc⟩
  · rw [accept_nil hc] at h
    cases h
  · rw [accept_passes value hc] at h
    split at h <;> cases h
    · exact ⟨[u], hc⟩
    · exact ⟨[], .refl c⟩

theorem eatNewline_eq_ok {a : Unit} (h : eatNewline c = .ok a c') : ∃ t, c.Passes [t] c' := by
  rcases c.exists_passes with hc | ⟨u, c₁, hc⟩
  · rw [eatNewline_nil hc] at h
    cases h
  · rw [eatNewline_passes hc] at h
    split at h
    · cases h
      exact ⟨u, hc⟩
    · cases h

theorem wellFormed_of_passes (hw : c.WellFormed) (hc : c.Passes [t] c') : t.WellFormed :=
  hw t (by rw [hc.rest]; simp)

/-- The parser takes the token `u` if it comes next, and nothing otherwise. -/
structure Takes (q : Parser Bool) (u : Token) : Prop where
  nil : ∀ {c : Cursor}, c.rest = [] → q c = (endOfScript : Parser Bool) c
  passes : ∀ {c c' : Cursor} {t : Token}, c.WellFormed → c.Passes [t] c' →
    q c = if t = u then .ok true c' else .ok false c

theorem accept_takes {u : Token} (hu : u.WellFormed) : Takes (accept u.value) u := by
  refine ⟨accept_nil, fun {c c' t} hw hc => ?_⟩
  have hv : t.value = u.value ↔ t = u :=
    ⟨(wellFormed_of_passes hw hc).eq_of_value hu, fun h => by rw [h]⟩
  simp only [accept_passes u.value hc, hv]

theorem acceptNewline_takes : Takes (acceptKind .newLine) newline := by
  refine ⟨acceptKind_nil, fun {c c' t} hw hc => ?_⟩
  have hk : t.kind = .newLine ↔ t = newline :=
    ⟨(wellFormed_of_passes hw hc).eq_newline, fun h => by rw [h]⟩
  simp only [acceptKind_passes .newLine hc, hk]

theorem Takes.eq_of_false {q : Parser Bool} {u : Token} (hq : Takes q u) (hw : c.WellFormed)
    (h : q c = .ok false c') : c' = c := by
  rcases c.exists_passes with hc | ⟨t, c₁, hc⟩
  · rw [hq.nil hc] at h
    cases h
  · rw [hq.passes hw hc] at h
    split at h <;> cases h
    rfl

/-! ## Reading what a grammar describes -/

/-- From `c` the parser passes tokens that `G` relates to its value, or refuses. It runs out of
depth only where `n` tokens or more are left. If it reads `inline`, it passes no newline and
finds its input incomplete only where no newline is left. -/
structure Reads (inline : Prop) (n : Nat) (c : Cursor) (p : Parser α)
    (G : List Token → α → Prop) : Prop where
  ok : ∀ {a c'}, p c = .ok a c' →
    ∃ ts, c.Passes ts c' ∧ (inline → newlines ts = 0) ∧ G ts a
  deep : ∀ {c'}, p c = .error .tooDeep c' → n ≤ c.rest.length
  lacking : ∀ {e c'}, p c = .error e c' → inline → e.incomplete = true → newlines c.rest = 0

variable {inline : Prop} {n m : Nat} {G : List Token → α → Prop} {H : List Token → β → Prop}
  {p : Parser α} {f : α → Parser β}

theorem Reads.bind (hp : Reads inline n c p G)
    (hf : ∀ a ts c', p c = .ok a c' → c.Passes ts c' → G ts a →
      Reads inline (n - ts.length) c' (f a) fun us b => H (ts ++ us) b) :
    Reads inline n c (p >>= f) H := by
  cases he : p c with
  | error e d =>
    have hb := bind_error (f := f) he
    refine ⟨fun h => ?_, fun h => ?_, fun h hi => ?_⟩ <;> rw [hb] at h
    · cases h
    · cases h; exact hp.deep he
    · cases h; exact hp.lacking he hi
  | ok a d =>
    have hb := bind_ok (f := f) he
    obtain ⟨ts, hts, hn, hg⟩ := hp.ok he
    have hd := hf a ts d he hts hg
    refine ⟨fun h => ?_, fun h => ?_, fun h hi hm => ?_⟩ <;> rw [hb] at h
    · obtain ⟨us, hus, hm, hh⟩ := hd.ok h
      exact ⟨ts ++ us, hts.trans hus, fun hi => by rw [newlines_append, hn hi, hm hi], hh⟩
    · have := hd.deep h
      have := hts.length
      omega
    · rw [hts.newlines_rest, hn hi, hd.lacking h hi hm]

theorem Reads.weaken {G' : List Token → α → Prop} (hp : Reads inline n c p G) (hm : m ≤ n)
    (hg : ∀ ts a, G ts a → G' ts a) : Reads inline m c p G' := by
  refine ⟨fun h => ?_, fun h => Nat.le_trans hm (hp.deep h), hp.lacking⟩
  obtain ⟨ts, hts, hn, ha⟩ := hp.ok h
  exact ⟨ts, hts, hn, hg ts _ ha⟩

theorem Reads.relax (hp : Reads True n c p G) : Reads inline n c p G := by
  refine ⟨fun h => ?_, hp.deep, fun h _ => hp.lacking h trivial⟩
  obtain ⟨ts, hts, hn, ha⟩ := hp.ok h
  exact ⟨ts, hts, fun _ => hn trivial, ha⟩

theorem reads_pure {a : α} (h : G [] a) : Reads inline n c (pure a) G := by
  refine ⟨fun he => ?_, fun he => ?_, fun he => ?_⟩ <;> cases he
  exact ⟨[], .refl c, fun _ => rfl, h⟩

theorem reads_fail (reason : String) : Reads inline n c (fail reason) G := by
  refine ⟨fun he => ?_, fun he => ?_, fun he _ hi => ?_⟩ <;> cases he
  exact absurd hi (by simp [Refusal.incomplete])

theorem reads_endOfScript (h : inline → newlines c.rest = 0) :
    Reads inline n c endOfScript G := by
  refine ⟨fun he => ?_, fun he => ?_, fun he hi _ => ?_⟩ <;> cases he
  exact h hi

theorem reads_congr {q : Parser α} (h : p c = q c) (hq : Reads inline n c q G) :
    Reads inline n c p G :=
  ⟨fun hp => hq.ok (h ▸ hp), fun hp => hq.deep (h ▸ hp), fun hp => hq.lacking (h ▸ hp)⟩

/-- A parser that asks for a token finds one, or the end of the script. -/
theorem reads_of_passes (hn : c.rest = [] → p c = (endOfScript : Parser α) c)
    (h : ∀ t c', c.Passes [t] c' → Reads inline n c p G) : Reads inline n c p G := by
  rcases c.exists_passes with hc | ⟨t, c', hc⟩
  · exact reads_congr (hn hc) (reads_endOfScript fun _ => by rw [hc]; rfl)
  · exact h t c' hc

theorem reads_peek_bind {f : Token → Parser β}
    (h : ∀ t c', c.Passes [t] c' → Reads inline n c (f t) H) :
    Reads inline n c (peek >>= f) H := by
  refine reads_of_passes (fun hc => ?_) fun t c' hc => ?_
  · rw [bind_error (peek_nil hc)]; rfl
  · exact reads_congr (bind_ok (peek_passes hc)) (h t c' hc)

theorem reads_step {q : Parser β} (hc : c.Passes [t] c') (hi : inline → t.kind ≠ .newLine)
    {p : Parser β} (hp : p c = q c') (hq : Reads inline (n - 1) c' q fun us b => H (t :: us) b) :
    Reads inline n c p H := by
  have hl := hc.length
  have hz : inline → newlines [t] = 0 := fun h => by simp [newlines_cons, hi h]
  refine ⟨fun h => ?_, fun h => ?_, fun h hk hm => ?_⟩ <;> rw [hp] at h
  · obtain ⟨us, hus, hn, hh⟩ := hq.ok h
    refine ⟨t :: us, hc.trans hus, fun hk => ?_, hh⟩
    rw [newlines_cons, if_neg (hi hk), hn hk]
  · have := hq.deep h
    simp only [List.length_singleton] at hl
    omega
  · rw [hc.newlines_rest, hz hk, hq.lacking h hk hm]

theorem reads_advance_bind {f : Token → Parser β} (hc : c.Passes [t] c')
    (hi : inline → t.kind ≠ .newLine)
    (h : Reads inline (n - 1) c' (f t) fun us b => H (t :: us) b) :
    Reads inline n c (advance >>= f) H :=
  reads_step hc hi (bind_ok (advance_passes hc)) h

theorem reads_takes_bind {q : Parser Bool} {u : Token} {f : Bool → Parser β} (hq : Takes q u)
    (hw : c.WellFormed) (hi : inline → u.kind ≠ .newLine)
    (ht : ∀ c', c.Passes [u] c' → Reads inline (n - 1) c' (f true) fun us b => H (u :: us) b)
    (hf : ∀ t c', c.Passes [t] c' → t ≠ u → Reads inline n c (f false) H) :
    Reads inline n c (q >>= f) H := by
  refine reads_of_passes (fun hc => ?_) fun t c' hc => ?_
  · rw [bind_error (hq.nil hc)]; rfl
  · have ha := hq.passes hw hc
    split at ha
    · next he =>
      subst he
      exact reads_step hc hi (bind_ok ha) (ht c' hc)
    · next he => exact reads_congr (bind_ok ha) (hf t c' hc he)

theorem reads_eatNewline_bind {f : Unit → Parser β} (hw : c.WellFormed)
    (h : ∀ c', c.Passes [newline] c' →
      Reads False (n - 1) c' (f ()) fun us b => H (newline :: us) b) :
    Reads False n c (eatNewline >>= f) H := by
  refine reads_of_passes (fun hc => ?_) fun t c' hc => ?_
  · rw [bind_error (eatNewline_nil hc)]; rfl
  · have ha := eatNewline_passes hc
    split at ha
    · next hk =>
      obtain rfl := (wellFormed_of_passes hw hc).eq_newline hk
      exact reads_step hc False.elim (bind_ok ha) (h c' hc)
    · exact reads_congr (q := fail _) (bind_error ha) (reads_fail _)

theorem reads_expect_bind {f : Unit → Parser β} {u : Token} (hw : c.WellFormed)
    (hu : u.WellFormed) (hk : u.kind ≠ .newLine)
    (h : ∀ c', c.Passes [u] c' → Reads inline (n - 1) c' (f ()) fun us b => H (u :: us) b) :
    Reads inline n c (expect u.value >>= f) H := by
  refine reads_of_passes (fun hc => ?_) fun t c' hc => ?_
  · rw [bind_error (expect_nil hc)]; rfl
  · have ha := expect_passes u.value hc
    split at ha
    · next hv =>
      obtain rfl := (wellFormed_of_passes hw hc).eq_of_value hu hv
      exact reads_step hc (fun _ => hk) (bind_ok ha) (h c' hc)
    · exact reads_congr (q := fail _) (bind_error ha) (reads_fail _)

end Parser

end CommandScript
