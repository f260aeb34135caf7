import Mathlib.Data.List.Forall2
import CommandScript.World
import CommandScript.Proofs.Numeral
import CommandScript.Proofs.Running.Logic

/-! # Integers as arguments

A command receives an integer as decimal text and reads it back. Writing refuses by the magnitude
of the value and reading by the number of digits, and both draw the line at the same integers.
-/

namespace CommandScript

theorem evalText_of_evalInt {site : Site} {scope : Scope} {depth : Nat} {e : Expr} {n : Int}
    (h : evalInt site scope depth e = .ok n) :
    evalText site scope depth e =
      if Text.writable n then .ok n.repr else .error (site.halt .integerOverflow) := by
  simp only [evalText, h, bind, Except.bind]
  cases hn : Text.writable n with
  | true => simp only [Text.decimal?_of_writable hn, if_true]; rfl
  | false => simp only [Text.decimal?_of_not_writable hn]; rfl

theorem mapM_evalText_of_evalInt {site : Site} {scope : Scope} {depth : Nat} {args : List Expr}
    {ns : List Int}
    (h : List.Forall₂ (fun e n => evalInt site scope depth e = .ok n) args ns) :
    args.mapM (evalText site scope depth) =
      if ns.all Text.writable then .ok (ns.map Int.repr)
      else .error (site.halt .integerOverflow) := by
  induction h with
  | nil => rfl
  | @cons e n args ns he _ ih =>
    rw [List.mapM_cons, evalText_of_evalInt he, ih, List.all_cons]
    cases Text.writable n <;> cases ns.all Text.writable <;> rfl

namespace Argument

/-- The message for an integer outside its bounds. -/
def boundsMessage (n low high : Int) : String :=
  "Integer, " ++ n.repr ++ ", was not within the bounds of " ++ low.repr ++ " and " ++ high.repr

/-- A text that carries an integer to a command: its decimal text, which every integer check reads
as that integer. -/
structure Carries (n : Int) (text : String) : Prop where
  short : n.natAbs < Text.textBound
  decimal : Text.IsDecimal n text
  checked : ∀ low high : Int, low.natAbs < Text.textBound → high.natAbs < Text.textBound →
    integer low high text =
      if low ≤ n ∧ n ≤ high then .ok n
      else .error (fault (.outOfBounds (boundsMessage n low high)))

theorem outOfBounds_eq {n low high : Int} (hn : Text.writable n = true)
    (hl : Text.writable low = true) (hh : Text.writable high = true) :
    outOfBounds n low high = fault (.outOfBounds (boundsMessage n low high)) := by
  -- the equation of `outOfBounds` would compute the bound
  delta outOfBounds boundsMessage
  simp only [Text.decimal?_of_writable hn, Text.decimal?_of_writable hl,
    Text.decimal?_of_writable hh]

theorem carries_repr {n : Int} (hn : Text.writable n = true) : Carries n n.repr := by
  refine ⟨Text.writable_iff.mp hn, Text.isDecimal_repr n, fun low high hl hh => ?_⟩
  rw [integer, (Text.isDecimal_repr n).readInt?_eq hn]
  by_cases hb : low ≤ n ∧ n ≤ high
  · have ho : ¬ (n < low ∨ high < n) := by omega
    simp only [if_pos hb, if_neg ho]
  · have ho : n < low ∨ high < n := by omega
    simp only [if_neg hb, if_pos ho, outOfBounds_eq hn (Text.writable_iff.mpr hl)
      (Text.writable_iff.mpr hh)]

end Argument

section

variable {ω : Type} {host : Host ω} {file : Option String} {rounds depth : Nat} {name : String}
  {line : Int} {f : Frame ω}

/-- Integers reach a command exactly. One that is too long for decimal text stops the command
before it is dispatched; otherwise every argument that the command receives carries its
integer. -/
theorem command_integers {args : List Expr} {ns : List Int}
    (h : List.Forall₂ (fun e n => evalInt ⟨some line, file⟩ f.active depth e = .ok n) args ns) :
    ((∃ n ∈ ns, Text.textBound ≤ n.natAbs) ∧
      exec host file rounds (depth + 1) (.command name args line) f =
        .error (Site.halt ⟨some line, file⟩ .integerOverflow) f) ∨
    (∃ texts, List.Forall₂ Argument.Carries ns texts ∧
      exec host file rounds (depth + 1) (.command name args line) f =
        Run.dispatch host ⟨some line, file⟩ depth name texts f) := by
  rw [exec_command, mapM_evalText_of_evalInt h]
  cases hn : ns.all Text.writable with
  | true =>
    refine .inr ⟨ns.map Int.repr, ?_, rfl⟩
    rw [List.forall₂_map_right_iff, List.forall₂_same]
    exact fun n hm => Argument.carries_repr (List.all_eq_true.mp hn n hm)
  | false =>
    obtain ⟨n, hm, hw⟩ := List.all_eq_false.mp hn
    exact .inl ⟨⟨n, hm, Nat.le_of_not_lt fun hl => hw (Text.writable_iff.mpr hl)⟩, rfl⟩

theorem command_integers_at_bound :
    let f : Frame World := { context := { globals := ⟨[("low", .int (-7))]⟩ }, world := {} }
    let host := Registry.host [{ name := "say" }]
    (∃ texts, List.Forall₂ Argument.Carries [-7, 0] texts ∧
      exec host none roundLimit 6 (.command "say" [.var "low", .int 0] 3) f =
        Run.dispatch host ⟨some 3, none⟩ 5 "say" texts f) ∧
    exec host none roundLimit 6 (.command "say" [.var "low", .int (-Text.textBound)] 3) f =
      .error (Site.halt ⟨some 3, none⟩ .integerOverflow) f := by
  intro f host
  have args : ∀ n : Int, List.Forall₂
      (fun e n => evalInt ⟨some 3, none⟩ f.active 5 e = .ok n) [.var "low", .int n] [-7, n] :=
    fun n => .cons rfl (.cons rfl .nil)
  -- the bound stays a variable here, for it is not to be computed
  have long : ∀ n : Int, Text.textBound ≤ n.natAbs →
      exec host none roundLimit 6 (.command "say" [.var "low", .int n] 3) f =
        .error (Site.halt ⟨some 3, none⟩ .integerOverflow) f := by
    intro n hn
    rcases command_integers (args n) with ⟨-, hx⟩ | ⟨texts, hc, -⟩
    · exact hx
    · rcases hc with _ | ⟨-, _ | ⟨hc, -⟩⟩
      exact absurd hc.short (Nat.not_lt_of_le hn)
  constructor
  · rcases command_integers (args 0) with ⟨⟨n, hm, hn⟩, -⟩ | hd
    · have hs : n.natAbs < 10 := by
        rcases List.mem_pair.mp hm with rfl | rfl <;> decide
      exact absurd hn (Nat.not_le_of_lt (Text.lt_textBound hs))
    · exact hd
  · have hn : (-(Text.textBound : Int)).natAbs = Text.textBound := by
      rw [Int.natAbs_neg, Int.natAbs_natCast]
    exact long _ (Nat.le_of_eq hn.symm)

end

end CommandScript
