import CommandScript.Proofs.Editor.Agreement
import CommandScript.Proofs.Options
import CommandScript.Proofs.Parsing.Sums
import CommandScript.Proofs.Running.Isolation
import CommandScript.Proofs.Running.Origins
import CommandScript.Proofs.Running.Unmentioned

/-! # Listing a script before it runs

What was written before a script runs has no bearing on the run. So a listing of its tokens and its
tree comes before the output, and the script runs as without it. That takes a listing: the tree of a
script may be too high for one, where the run itself would end with a fault. And it takes a script:
a file that is no text has no answer, with a listing or without.
-/

namespace CommandScript

/-! ## Worlds that were written to before -/

/-- The same commands were seen, and the same was written after `a` and after `b`. -/
structure World.Beyond (a b : String) (w w' : World) : Prop where
  dispatched : w.dispatched = w'.dispatched
  output : ∃ text, w.output = a ++ text ∧ w'.output = b ++ text

variable {a b : String} {registry : Registry} {levels calls rounds depth : Nat}
  {file : Option String} {script : String} {w w' : World} {h : Halt}

namespace World.Beyond

theorem of_write (w : World) (text : String) :
    Beyond w.output (w.output ++ text) w (w.write text) :=
  ⟨rfl, "", by simp, by simp [write]⟩

theorem note (hw : Beyond a b w w') (e e' : Event) : Beyond a b (w.note e) (w'.note e') :=
  ⟨by simp [hw.dispatched], by simpa using hw.output⟩

theorem write (hw : Beyond a b w w') (line : String) :
    Beyond a b (w.write line) (w'.write line) := by
  obtain ⟨hd, text, ht, ht'⟩ := hw
  refine ⟨hd, text ++ line, ?_, ?_⟩
  · rw [World.write, ht, String.append_assoc]
  · rw [World.write, ht', String.append_assoc]

theorem record (hw : Beyond a b w w') (name : String) (args : List String) :
    Beyond a b (w.record name args) (w'.record name args) :=
  ⟨congrArg (Array.push · (name, args)) hw.dispatched, hw.output⟩

theorem answer (hw : Beyond a b w w') (name : String) (args : List String) :
    Beyond a b (registry.answer name args w) (registry.answer name args w') := by
  unfold Registry.answer
  cases registry.find? name with
  | none => exact hw.record name args
  | some c => exact ((hw.record name args).note _ _).write _

end World.Beyond

theorem Registry.hostWithin_respects_beyond (he : registry.Echoes) (levels : Nat) :
    (registry.hostWithin levels).Respects (World.Beyond a b) where
  note hw := by
    rw [hostWithin_note]
    exact hw.note _ _
  dispatch calls name args c c' w w' hw := by
    refine ⟨registry.answer name args w, registry.answer name args w', hw.answer name args, ?_⟩
    rw [hostWithin_dispatch_eq he, hostWithin_dispatch_eq he]
    cases (registry.find? name).isSome with
    | true => exact Or.inl ⟨rfl, rfl⟩
    | false => exact Or.inr ⟨_, rfl, rfl⟩

/-- The runs stopped for the same reason, or both went well. -/
def SameEnd (a b : String) (r r' : EStateM.Result Halt (State World) Unit) : Prop :=
  failure? r = failure? r' ∧ World.Beyond a b (lastState r).world (lastState r').world

open Likeness in
theorem runStatement_sameEnd (he : registry.Echoes) (hw : World.Beyond a b w w') (t : Stmt) :
    SameEnd a b (runStatement (registry.hostWithin levels) file rounds depth t ⟨{}, w⟩)
      (runStatement (registry.hostWithin levels) file rounds depth t ⟨{}, w'⟩) := by
  have hh := Registry.hostWithin_respects_beyond (a := a) (b := b) he levels
  have ht : (mentioning (World.Beyond a b) (fun _ => True) {} {}).stmts t t :=
    ⟨rfl, fun _ _ => trivial⟩
  have hf := mentioning_frames (R := World.Beyond a b) (V := fun _ => True) (c := {}) rfl
    (fun _ _ => rfl) (fun _ _ _ _ => trivial) hw
  obtain ⟨hr, hs⟩ := runStatement_like hh (fun _ => rfl) rounds depth ht hf
  refine ⟨?_, hs.world⟩
  generalize failure? (runStatement _ file rounds depth t ⟨{}, w⟩) = o at hr ⊢
  generalize failure? (runStatement _ file rounds depth t ⟨{}, w'⟩) = o' at hr ⊢
  cases hr with
  | none => rfl
  | some hr => exact congrArg some (eq_of_mentioning_halts hr)

theorem SameEnd.settle {r r' : EStateM.Result Halt (State World) Unit} (hr : SameEnd a b r r') :
    SameEnd a b (settle (registry.hostWithin levels) file r)
      (settle (registry.hostWithin levels) file r') := by
  obtain ⟨hf, hw⟩ := hr
  have hn := hw.note
  rw [← (Registry.hostWithin_note levels : (registry.hostWithin levels).note = _)] at hn
  cases r with
  | ok _ s =>
    cases r' with
    | ok _ s' => exact ⟨rfl, hw⟩
    | error h' s' => cases hf
  | error h s =>
    cases r' with
    | ok _ s' => cases hf
    | error h' s' =>
      cases hf
      cases h with
      | fault f => exact ⟨rfl, hn _ _⟩
      | overflow => exact ⟨rfl, hn _ _⟩
      | _ => exact ⟨rfl, hw⟩

/-- A script runs alike whatever was written before it. -/
theorem executeWithin_sameEnd (he : registry.Echoes) (hw : World.Beyond a b w w') :
    SameEnd a b (executeWithin (registry.hostWithin levels) calls file script ⟨{}, w⟩)
      (executeWithin (registry.hostWithin levels) calls file script ⟨{}, w'⟩) := by
  cases hp : parseWithin calls file script with
  | error h =>
    rw [executeWithin_unparsed hp, executeWithin_unparsed hp]
    exact SameEnd.settle ⟨rfl, hw⟩
  | ok p =>
    rw [executeWithin_parsed hp, executeWithin_parsed hp]
    apply SameEnd.settle
    rw [Registry.hostWithin_note]
    exact runStatement_sameEnd he (hw.note _ _) _

/-! ## How a script ends -/

theorem runStatement_stopped (he : registry.Echoes) {p : Program} {s : State World}
    (hp : parseWithin calls file script = .ok p)
    (hr : runStatement (registry.hostWithin levels) file roundLimit calls (.block p) ⟨{}, w⟩ =
      .error h s) : h = .overflow ∨ h = .endless ∨ ∃ f, h = .fault f := by
  have hd := Registry.hostWithin_detached he levels
  -- the statement at which the run stopped
  obtain ⟨g, hg⟩ := runStatement_eq_error.mp ⟨s, hr⟩
  obtain ⟨d, t, f, -, ht, hf, hstop | hstop⟩ := exists_stop_in_program hd hp rfl hg
  · rcases hstop.answered hd ht hf with rfl | rfl | ⟨line, cause, -, rfl, -⟩
    · exact Or.inl rfl
    · exact Or.inr (Or.inl rfl)
    · exact Or.inr (Or.inr ⟨_, rfl⟩)
  · obtain ⟨-, hdisp⟩ := hstop
    rw [Registry.hostWithin_dispatch_eq he] at hdisp
    split at hdisp <;> cases hdisp
    exact Or.inr (Or.inr ⟨_, rfl⟩)

theorem executeWithin_stopped (he : registry.Echoes) {s : State World}
    (hx : executeWithin (registry.hostWithin levels) calls file script ⟨{}, w⟩ = .error h s) :
    h = .endless ∨ ∃ f, h = .fault f := by
  rcases parseWithin_cases calls file script with ⟨p, hp⟩ | ⟨reason, i, line, hp⟩ | hp
  · rw [executeWithin_parsed hp] at hx
    cases hr : runStatement (registry.hostWithin levels) file roundLimit calls (.block p)
        ⟨{}, (registry.hostWithin levels).note (.parsed p) w⟩ with
    | ok _ s' =>
      rw [hr] at hx
      cases hx
    | error e s' =>
      rw [hr] at hx
      rcases settle_eq_error hx with rfl | ⟨-, rfl⟩
      · rcases runStatement_stopped he hp hr with rfl | hs
        · cases hx
        · exact hs
      · exact Or.inr ⟨_, rfl⟩
  · rw [executeWithin_unparsed hp] at hx
    cases hx
    exact Or.inr ⟨_, rfl⟩
  · rw [executeWithin_unparsed hp] at hx
    cases hx
    exact Or.inr ⟨_, rfl⟩

/-! ## Trees of scripts -/

namespace Expr

variable {e : Expr}

theorem IsLeaf.writable (h : e.IsLeaf) : e.toTree.Writable := by
  cases h with
  | int hn => exact .integer (Text.writable_iff.mpr hn)
  | var => exact .identifier _

theorem IsProduct.writable (h : e.IsProduct) : e.toTree.Writable := by
  induction h with
  | leaf h => exact h.writable
  | join _ _ hr ih => exact .arith _ ih hr.writable

theorem IsSum.writable (h : e.IsSum) : e.toTree.Writable := by
  induction h with
  | product h => exact h.writable
  | join _ _ hr ih => exact .arith _ ih hr.writable

theorem IsComparison.writable (h : e.IsComparison) : e.toTree.Writable := by
  cases h with
  | mk hl _ hr => exact .compare _ hl.writable hr.writable

theorem forall_writable {es : List Expr} (h : ∀ e ∈ es, e.IsLeaf) :
    ∀ t ∈ es.map toTree, t.Writable :=
  List.forall_mem_map.mpr fun e he => (h e he).writable

end Expr

theorem Stmt.toTrees_eq_map (ss : List Stmt) : toTrees ss = ss.map toTree := by
  induction ss with
  | nil => rfl
  | cons s ss ih => rw [toTrees, ih, List.map_cons]

theorem Tree.writable_block {ss : List Stmt} (h : ∀ s ∈ ss, s.toTree.Writable) :
    Writable (.block (Stmt.toTrees ss)) := by
  rw [Stmt.toTrees_eq_map]
  exact .block (List.forall_mem_map.mpr h)

theorem Stmt.WellFormed.writable {s : Stmt} (h : s.WellFormed) : s.toTree.Writable := by
  induction h with
  | conditional he _ ih => exact .conditional _ he.writable (Tree.writable_block ih)
  | loop he _ ih => exact .loop _ he.writable (Tree.writable_block ih)
  | assign _ he => exact .assign _ _ he.writable
  | define _ _ _ ih => exact .define _ _ _ (Tree.writable_block ih)
  | invoke _ he => exact .invoke _ _ (Expr.forall_writable he)
  | command _ he => exact .command _ _ (Expr.forall_writable he)

theorem Program.WellFormed.listing_raises {p : Program} (h : p.WellFormed) :
    Raises (· = .overflow) p.listing :=
  Tree.listing_raises (P := (· = .overflow)) rfl stackLimit
    (Or.inl (Tree.writable_block fun s hs => (h s hs).writable))

namespace CommandLine

/-- Parsing the script or listing its tree takes more calls than there are. -/
def Unlistable (file : Option String) (code : String) : Prop :=
  (parse file code >>= Program.listing) = .error .overflow

variable {code text : String} {p : Program}

/-- The text before the tree. -/
def head (code : String) : String :=
  "\nTokens:\n\n" ++ Token.listing (lex code) ++ "\n\nAST:\n\n"

theorem list_listed (hp : parse file code = .ok p) (hl : p.listing = .ok text) (w : World) :
    list file code w =
      ((w.note (.parsed p)).write (head code ++ text ++ "\n \n"), none) := by
  rw [list, hp]
  dsimp only
  rw [hl]
  rfl

theorem list_unlisted (hp : parse file code = .ok p) (hl : p.listing = .error h) (w : World) :
    list file code w = ((w.note (.parsed p)).write (head code), some h) := by
  rw [list, hp]
  dsimp only
  rw [hl]
  rfl

theorem list_refused {f : Fault} (hp : parse file code = .error (.fault f)) (w : World) :
    list file code w =
      (w.write (head code ++ "<unparseable: " ++ f.message ++ ">\n \n"), none) := by
  rw [list, hp]
  rfl

theorem list_overflow (hp : parse file code = .error .overflow) (w : World) :
    list file code w = (w, some .overflow) := by
  rw [list, hp]

/-- A listing is written, unless the calls run out. -/
theorem list_cases (file : Option String) (code : String) (w : World) :
    Unlistable file code ∧ (∃ v, list file code w = (v, some .overflow)) ∨
      ¬ Unlistable file code ∧ ∃ v text, list file code w = (v, none) ∧
        World.Beyond w.output (w.output ++ text) w v := by
  rcases parseWithin_cases stackLimit file code with ⟨p, hp⟩ | ⟨reason, i, line, hp⟩ | hp
  · have hp : parse file code = .ok p := hp
    have hu : Unlistable file code ↔ p.listing = .error .overflow := by rw [Unlistable, hp]; rfl
    cases hl : p.listing with
    | ok text =>
      refine Or.inr ⟨?_, _, head code ++ text ++ "\n \n", list_listed hp hl w, ?_⟩
      · simp [hu, hl]
      · exact ⟨by simp, "", by simp, by simp [World.write]⟩
    | error h =>
      obtain rfl : h = .overflow := (wellFormed_of_parseWithin hp).listing_raises h hl
      exact Or.inl ⟨hu.mpr hl, _, list_unlisted hp hl w⟩
  · have hp : parse file code = .error _ := hp
    refine Or.inr ⟨?_, _, _, list_refused hp w, .of_write w _⟩
    rw [Unlistable, hp]
    rintro ⟨⟩
  · have hp : parse file code = .error _ := hp
    refine Or.inl ⟨?_, w, list_overflow hp w⟩
    rw [Unlistable, hp]
    rfl

/-! ## Script files -/

/-- The report of a script that has ended, with the fault that stopped it if there was one. -/
def Report.ended (failure : Option Fault) (w : World) : Report :=
  match failure with
  | none => .of (.ok 0) w
  | some f => .of (.ok 1) (w.write (f.report ++ "\n"))

variable {name : String} {shown : Bool} {words : List String} {setting : Setting}
  {bytes : ByteArray} {before : World} {failure : Option Fault}

theorem runCode_ended
    (hl : (if shown then list (some name) code w else (w, none)) = (before, none))
    (hf : failure? (execute registry.host (some name) code ⟨{}, before⟩) = failure.map .fault) :
    runCode registry name code shown w =
      .ended failure (lastState (execute registry.host (some name) code ⟨{}, before⟩)).world := by
  rw [runCode, hl]
  dsimp only
  cases hx : execute registry.host (some name) code ⟨{}, before⟩ with
  | ok _ after =>
    rw [hx] at hf
    cases failure with
    | none => rfl
    | some f => cases hf
  | error h after =>
    rw [hx] at hf
    cases failure with
    | none => cases hf
    | some f =>
      cases hf
      rfl

theorem runCode_cut (hl : list (some name) code w = (before, some h)) :
    runCode registry name code true w = .of (.error (.halt h)) before := by
  rw [runCode, if_pos rfl, hl]

theorem Plan.ofWords_echoes (hp : Plan.ofWords words = .runFile name shown registry w) :
    registry.Echoes := by
  unfold Plan.ofWords at hp
  cases ho : parseOptions words with
  | error stop => rw [ho] at hp; cases hp
  | ok options =>
    rw [ho] at hp
    dsimp only at hp
    unfold prepare at hp
    split at hp
    · cases hp
    · next hr =>
      split at hr
      · next hg =>
        split at hp <;> cases hp
        cases hr
        exact register_echoes hg (fun _ hm => nomatch hm)
      · cases hr
      · cases hr

theorem run_file (hp : Plan.ofWords words = .runFile name shown registry w)
    (hd : setting.debug = false) (hb : setting.read name = .ok bytes)
    (hc : Text.decodeFile? bytes = some code) :
    run setting words = runCode registry name code shown w := by
  rw [run, hp]
  dsimp only
  rw [hb, hd, Bool.or_false, runFile, hc]

/-- A script that ends is answered with an exit code: zero if it ends well, and otherwise one and a
report of the fault. Asking for the tokens, which an option in front does, puts a listing before the
output and changes nothing else, if parsing and listing the script do not take more calls than there
are. -/
theorem listing_inert (hp : Plan.ofWords words = .runFile name false registry w)
    (hd : setting.debug = false) (hb : setting.read name = .ok bytes)
    (hc : Text.decodeFile? bytes = some code) :
    let r := execute registry.host (some name) code ⟨{}, w⟩
    let r' := execute registry.host (some name) code ⟨{}, (list (some name) code w).1⟩
    failure? r ≠ some .endless → ∃ failure : Option Fault, failure? r = failure.map .fault ∧
      run setting words = .ended failure (lastState r).world ∧
      Plan.ofWords ("--tokens" :: words) = .runFile name true registry w ∧
      ∀ words', Plan.ofWords words' = .runFile name true registry w →
        (¬ Unlistable (some name) code → run setting words' = .ended failure (lastState r').world ∧
          (lastState r').world.dispatched = (lastState r).world.dispatched ∧
          ∃ listing text, (lastState r).world.output = w.output ++ text ∧
            (lastState r').world.output = w.output ++ listing ++ text) ∧
        (Unlistable (some name) code → (run setting words').exit = .error (.halt .overflow)) := by
  intro r r' ht
  have he := Plan.ofWords_echoes hp
  obtain ⟨failure, hf⟩ : ∃ failure : Option Fault, failure? r = failure.map .fault := by
    cases hr : r with
    | ok _ s => exact ⟨none, rfl⟩
    | error h s =>
      rcases executeWithin_stopped he hr with rfl | ⟨f, rfl⟩
      · rw [hr] at ht
        exact absurd rfl ht
      · exact ⟨some f, rfl⟩
  rw [run_file hp hd hb hc]
  refine ⟨failure, hf, runCode_ended rfl hf, Plan.ofWords_tokens hp, ?_⟩
  intro words' hp'
  rw [run_file hp' hd hb hc]
  rcases list_cases (some name) code w with ⟨hu, v, hl⟩ | ⟨hu, v, listing, hl, hw⟩
  · exact ⟨fun hn => absurd hu hn, fun _ => congrArg Report.exit (runCode_cut hl)⟩
  · have hv : (list (some name) code w).1 = v := congrArg Prod.fst hl
    have hs : SameEnd w.output (w.output ++ listing) r r' := executeWithin_sameEnd he (hv ▸ hw)
    refine ⟨fun _ => ⟨?_, hs.2.dispatched.symm, listing, hs.2.output⟩, fun hn => absurd hn hu⟩
    exact runCode_ended (by rw [if_pos rfl, hl]) (hs.1.symm.trans hf)

/-- A script that says something and then fails. -/
def saying : String := "Say 1\nAgain 2"

theorem listing_inert_saying :
    let setting : Setting := { read := fun _ => .ok saying.toUTF8 }
    let report := run setting ["-c", "Say", "a.ase"]
    let report' := run setting ["-c", "Say", "a.ase", "--tokens"]
    report.exit = .ok 1 ∧ report'.exit = .ok 1 ∧
      report.stdout =
        "Say 1\nInvalidCommandException: Invalid command 'Again' was entered on line 2 in a.ase\n" ∧
      ∃ listing, report'.stdout = listing ++ report.stdout := by
  intro setting report report'
  have hp : Plan.ofWords ["-c", "Say", "a.ase"] =
      .runFile "a.ase" false [{ name := "Say" }] (World.note (.registered "Say") {}) := rfl
  have hp' : Plan.ofWords ["-c", "Say", "a.ase", "--tokens"] =
      .runFile "a.ase" true [{ name := "Say" }] (World.note (.registered "Say") {}) := rfl
  have hc : Text.decodeFile? saying.toUTF8 = some saying := by
    rw [Text.decodeFile?_toUTF8]
    decide +kernel
  have hu : ¬ Unlistable (some "a.ase") saying := by
    unfold Unlistable
    decide +kernel
  have hr : failure? (execute (Registry.host [{ name := "Say" }]) (some "a.ase") saying
        ⟨{}, World.note (.registered "Say") {}⟩) =
      some (.fault ⟨.unknownCommand "Again", some 2, some "a.ase"⟩) := by decide +kernel
  have ho : (lastState (execute (Registry.host [{ name := "Say" }]) (some "a.ase") saying
      ⟨{}, World.note (.registered "Say") {}⟩)).world.output = "Say 1\n" := by decide +kernel
  have hb : setting.read "a.ase" = .ok saying.toUTF8 := rfl
  obtain ⟨failure, hf, hx, -, hl⟩ := listing_inert hp rfl hb hc (by rw [hr]; rintro ⟨⟩)
  obtain ⟨hx', -, listing, text, ht, ht'⟩ := (hl _ hp').1 hu
  obtain rfl : failure = some ⟨.unknownCommand "Again", some 2, some "a.ase"⟩ := by
    rw [hr] at hf
    cases failure with
    | none => cases hf
    | some f =>
      cases hf
      rfl
  have hs : report.stdout = _ := congrArg Report.stdout hx
  have hs' : report'.stdout = _ := congrArg Report.stdout hx'
  refine ⟨congrArg Report.exit hx, congrArg Report.exit hx', ?_, listing, ?_⟩
  · rw [hs, Report.ended, Report.of, World.write, ho]
    decide +kernel
  · rw [hs, hs', Report.ended, Report.ended, Report.of, Report.of, World.write, World.write, ht,
      ht']
    simp only [String.append_assoc, String.empty_append, World.note_output]

end CommandLine

/-! ## Scripts without an answer -/

namespace Expr

theorem eval_ones {site : Site} {scope : Scope} {depth n : Nat} (h : depth ≤ n) :
    eval site scope depth (ones n) = .error .overflow := by
  induction n generalizing depth with
  | zero =>
    obtain rfl := Nat.le_zero.mp h
    rfl
  | succ n ih =>
    cases depth with
    | zero => rfl
    | succ depth =>
      change (eval site scope depth (ones n) >>= _) = _
      rw [ih (Nat.le_of_succ_le_succ h)]
      rfl

theorem listing_ones {depth n : Nat} (h : depth < 3 * (n + 1)) :
    (ones n).toTree.listing depth = .error .overflow := by
  induction n generalizing depth with
  | zero =>
    match depth, h with
    | 0, _ | 1, _ | 2, _ => rfl
  | succ n ih =>
    -- the operands of a node are listed with three calls less
    rcases depth with _ | _ | _ | depth
    · rfl
    · rfl
    · rfl
    · have hl := ih (show depth < 3 * (n + 1) by omega)
      change ((ones n).toTree.listing depth >>= _) = _
      rw [hl]
      rfl

theorem decodeFile?_onesText (n : Nat) :
    Text.decodeFile? (onesText n).toUTF8 = some (onesText n) := by
  have hr : '\r' ∉ (onesText n).toList := by
    intro h
    rcases Token.mem_lineText h with hc | ⟨t, ht, hc⟩
    · exact absurd hc (by decide)
    · rw [tokens_ones, plusOnes] at ht
      simp only [List.mem_cons, List.mem_flatten, List.mem_replicate] at ht
      rcases ht with rfl | rfl | rfl | ⟨_, ⟨-, rfl⟩, ht⟩
      · exact absurd hc (by decide)
      · exact absurd hc (by decide)
      · exact absurd hc (by decide)
      · exact absurd hc ((show ∀ t ∈ [Token.symbol "+", Token.number "1"], '\r' ∉ t.value.toList by
          decide) t ht)
  rw [Text.decodeFile?_toUTF8, Text.unifyBreaks_eq_self hr, String.ofList_toList]

end Expr

namespace CommandLine

theorem unlistable_ones {n : Nat} (hn : stackLimit ≤ 3 * n) :
    Unlistable file (Expr.onesText n) := by
  -- four calls for the block with its sequence, three for the assignment
  have hl := Expr.listing_ones (show stackLimit - 7 < 3 * (n + 1) by omega)
  have ha : Tree.listing (stackLimit - 4) (.assign "s" (Expr.ones n).toTree 1) =
      .error .overflow := by
    change ((Expr.ones n).toTree.listing (stackLimit - 7) >>= _) = _
    rw [hl]
    rfl
  rw [Unlistable, parse_ones]
  change ([Tree.assign "s" (Expr.ones n).toTree 1].mapM (Tree.listing (stackLimit - 4)) >>= _) = _
  rw [List.mapM_cons, ha]
  rfl

theorem execute_ones {n : Nat} (hn : stackLimit ≤ n) (s : State World) :
    failure? (execute registry.host file (Expr.onesText n) s) =
      some (.fault ⟨.recursionLimit, none, file⟩) := by
  rw [execute, executeWithin_parsed (parse_ones file n), runStatement]
  rw [show stackLimit = 988 + 2 from rfl, exec_block, Run.each_cons, bind_apply, exec_assign,
    evalInt, Expr.eval_ones (Nat.le_trans (by decide) hn)]
  rfl

/-- There is no answer to bytes that are no text, and none to a long sum if its tokens are asked
for. -/
theorem answer_escapes :
    (run { read := fun _ => .ok ⟨#[0xff]⟩ } ["a.ase"]).exit = .error .undecodable ∧
    let setting : Setting := { read := fun _ => .ok (Expr.onesText 3000).toUTF8 }
    (run setting ["a.ase"]).exit = .ok 1 ∧
      (run setting ["--tokens", "a.ase"]).exit = .error (.halt .overflow) := by
  have hp : Plan.ofWords ["a.ase"] = .runFile "a.ase" false [] {} := rfl
  refine ⟨?_, ?_⟩
  · decide +kernel
  intro setting
  have hb : setting.read "a.ase" = .ok (Expr.onesText 3000).toUTF8 := rfl
  have hc := Expr.decodeFile?_onesText 3000
  refine ⟨?_, ?_⟩
  · have hf : failure? (execute (Registry.host []) (some "a.ase") (Expr.onesText 3000) ⟨{}, {}⟩) =
        Option.map .fault (some ⟨.recursionLimit, none, some "a.ase"⟩) :=
      execute_ones (by decide) _
    rw [run_file hp rfl hb hc, runCode_ended rfl hf]
    rfl
  · rw [run_file (Plan.ofWords_tokens hp) rfl hb hc]
    rcases list_cases (some "a.ase") (Expr.onesText 3000) {} with ⟨-, v, hl⟩ | ⟨hu, -⟩
    · rw [runCode_cut hl]
      rfl
    · exact absurd (unlistable_ones (by decide)) hu

end CommandLine

end CommandScript
