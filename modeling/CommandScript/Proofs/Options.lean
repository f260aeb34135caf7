import CommandScript.CommandLine

/-! # The option for the tokens

Options act one after another, and the one that asks for the tokens only sets its own field. Set at
the start, the field stays as it is and no other word is read differently.
-/

namespace CommandScript.CommandLine

/-- The options with the tokens asked for. -/
def Options.withTokens (o : Options) : Options := { o with tokens := true }

def Reading.withTokens (r : Reading) : Reading := { r with options := r.options.withTokens }

theorem Options.foldlM_withTokens (effects : List Effect) (o : Options) :
    effects.foldlM apply o.withTokens = withTokens <$> effects.foldlM apply o := by
  induction effects generalizing o with
  | nil => rfl
  | cons e effects ih =>
    have he : o.withTokens.apply e = withTokens <$> o.apply e := by cases e <;> rfl
    rw [List.foldlM_cons, List.foldlM_cons, he]
    cases o.apply e with
    | error stop => rfl
    | ok o' => exact ih o'

theorem Reading.act_withTokens (effects : List Effect) (r : Reading) :
    r.withTokens.act effects = withTokens <$> r.act effects := by
  unfold act
  rw [show r.withTokens.options = r.options.withTokens from rfl, Options.foldlM_withTokens]
  cases effects.foldlM Options.apply r.options <;> rfl

theorem Reading.finish_withTokens (words : List Word) (r : Reading) :
    r.withTokens.finish words = (r.finish words).withTokens := by
  unfold finish
  rw [show r.withTokens.taken = r.taken from rfl]
  split
  · rfl
  · dsimp only
    split <;> rfl

theorem process_withTokens :
    (words : List Word) → (r : Reading) →
      process words r.withTokens = Reading.withTokens <$> process words r
  | [], _ => rfl
  | word :: rest, r => by
    have ih := process_withTokens rest
    -- What an option does is done before the next words are read.
    have hact : ∀ (effects : List Effect) (words : List Word),
        (∀ r : Reading, process words r.withTokens = Reading.withTokens <$> process words r) →
        (r.withTokens.act effects >>= process words) =
          Reading.withTokens <$> (r.act effects >>= process words) := by
      intro effects words hw
      rw [Reading.act_withTokens]
      cases r.act effects with
      | error stop => rfl
      | ok r' => exact hw r'
    rw [process.eq_def, process.eq_def]
    dsimp only
    split
    · rw [Reading.finish_withTokens]
      rfl
    · cases word with
      | separator => exact ih (r.extra Word.separator.text)
      | unknownOption text => exact ih (r.extra text)
      | value text =>
        dsimp only
        rw [show r.withTokens.taken = r.taken from rfl]
        split
        · exact ih (r.extra text)
        · exact ih (r.takeScript text)
      | option choice single joined =>
        dsimp only
        cases clusterOf choice single joined with
        | error stop => rfl
        | ok c =>
          dsimp only [bind, Except.bind]
          split
          · match rest with
            | .value spec :: rest => exact hact _ rest (process_withTokens rest)
            | [] | .separator :: _ | .option .. :: _ | .unknownOption _ :: _ => rfl
          · exact hact _ rest ih

theorem parseOptions_tokens (words : List String) :
    parseOptions ("--tokens" :: words) = Options.withTokens <$> parseOptions words := by
  have hw : readWords ("--tokens" :: words) =
      (Word.option .tokens false none :: ·) <$> readWords words := rfl
  unfold parseOptions
  rw [hw]
  cases readWords words with
  | error stop => rfl
  | ok ws =>
    have hp : process (.option .tokens false none :: ws) {} =
        process ws (Reading.withTokens {}) := by
      rw [process.eq_def]
      rfl
    simp only [bind, Except.bind, Functor.map, Except.map]
    rw [hp, process_withTokens]
    cases process ws {} with
    | error stop => rfl
    | ok r =>
      obtain ⟨options, taken, extras⟩ := r
      cases extras <;> rfl

variable {name : String} {shown : Bool} {words : List String} {registry : Registry} {w : World}

/-- The option leaves the rest of the plan as it is. -/
theorem Plan.ofWords_tokens (hp : Plan.ofWords words = .runFile name shown registry w) :
    Plan.ofWords ("--tokens" :: words) = .runFile name true registry w := by
  unfold Plan.ofWords at hp ⊢
  rw [parseOptions_tokens]
  cases ho : parseOptions words with
  | error stop => rw [ho] at hp; cases hp
  | ok o =>
    rw [ho] at hp
    dsimp only [Functor.map, Except.map] at hp ⊢
    rw [show prepare o.withTokens = prepare o from rfl,
      show o.withTokens.script = o.script from rfl]
    cases hr : prepare o with
    | error report => rw [hr] at hp; cases hp
    | ok prepared =>
      rw [hr] at hp
      dsimp only at hp ⊢
      cases hs : o.script with
      | none => rw [hs] at hp; cases hp
      | some script =>
        rw [hs] at hp
        cases hp
        rfl

end CommandScript.CommandLine
