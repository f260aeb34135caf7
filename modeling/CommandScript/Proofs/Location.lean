import CommandScript.Eval
import CommandScript.Fault.Raised

/-! # Calls to locate a fault

A fault may be located any number of times. Its line is the first that it is given. Calls are heeded
only up to the one that brings the line, so its file is the first among these. Only calls that are
heeded write the text of a raised fault anew, and still it never falls behind.
-/

namespace CommandScript

/-- The calls that are heeded by a fault with this line: all up to the first that brings a line. -/
def heeded (line : Option Int) (calls : List Site) : List Site :=
  match line with
  | some _ => []
  | none => calls.take (calls.findIdx (·.line.isSome) + 1)

section

variable {line : Option Int} {site : Site} {calls : List Site}

@[simp] theorem heeded_some (n : Int) (calls : List Site) : heeded (some n) calls = [] := rfl

@[simp] theorem heeded_nil : heeded line [] = [] := by
  cases line <;> rfl

theorem heeded_none_cons : heeded none (site :: calls) = site :: heeded site.line calls := by
  unfold heeded
  cases hl : site.line <;> simp [List.findIdx_cons, hl]

theorem findSome?_line_of_isSome (h : ∀ site ∈ calls, site.line.isSome) :
    calls.findSome? (·.line) = calls.head?.bind (·.line) := by
  cases calls with
  | nil => rfl
  | cons site calls =>
    obtain ⟨n, hn⟩ := Option.isSome_iff_exists.mp (h site List.mem_cons_self)
    rw [List.findSome?_cons, hn, List.head?_cons, Option.bind_some, hn]

end

/-! ## Faults -/

namespace Fault

variable (f : Fault) (line : Option Int) (file : Option String) (calls : List Site)
  (site : Site)

@[simp] theorem cause_locate : (f.locate line file).cause = f.cause := by
  unfold locate
  split <;> rfl

@[simp] theorem line_locate : (f.locate line file).line = f.line.or line := by
  unfold locate
  split
  · next n h => rw [h, Option.some_or]
  · next h => rw [h, Option.none_or]

theorem locate_of_line {f : Fault} {n : Int} (h : f.line = some n) : f.locate line file = f := by
  rw [locate, h]

theorem file_locate {f : Fault} (h : f.line = none) :
    (f.locate line file).file = f.file.or file := by
  rw [locate, h]

/-- The fault after these calls, one after the other. -/
def locateAll : Fault := calls.foldl (fun f site => f.locate site.line site.file) f

@[simp] theorem locateAll_nil : f.locateAll [] = f := rfl

theorem locateAll_cons :
    f.locateAll (site :: calls) = (f.locate site.line site.file).locateAll calls := rfl

theorem locateAll_concat : f.locateAll (calls ++ [site]) =
    (f.locateAll calls).locate site.line site.file := by
  simp [locateAll]

@[simp] theorem cause_locateAll : (f.locateAll calls).cause = f.cause := by
  induction calls generalizing f with
  | nil => rfl
  | cons site calls ih => rw [locateAll_cons, ih, cause_locate]

theorem locateAll_of_line {f : Fault} {n : Int} (h : f.line = some n) : f.locateAll calls = f := by
  induction calls with
  | nil => rfl
  | cons site calls ih => rw [locateAll_cons, locate_of_line _ _ h, ih]

theorem line_locateAll : (f.locateAll calls).line = f.line.or (calls.findSome? (·.line)) := by
  induction calls generalizing f with
  | nil => simp
  | cons site calls ih =>
    rw [locateAll_cons, ih, line_locate, Option.or_assoc, List.findSome?_cons]
    cases site.line <;> rfl

theorem file_locateAll :
    (f.locateAll calls).file = f.file.or ((heeded f.line calls).findSome? (·.file)) := by
  induction calls generalizing f with
  | nil => simp
  | cons site calls ih =>
    cases hf : f.line with
    | some n => simp [locateAll_of_line _ hf]
    | none =>
      rw [locateAll_cons, ih, line_locate, file_locate _ _ hf, hf, Option.none_or, Option.or_assoc,
        heeded_none_cons, List.findSome?_cons]
      cases site.file <;> rfl

theorem lt_length_heeded_iff {i : Nat} : i < (heeded f.line calls).length ↔
    i < calls.length ∧ (f.locateAll (calls.take i)).line = none := by
  induction calls generalizing f i with
  | nil => simp
  | cons site calls ih =>
    cases hf : f.line with
    | some n => simp [locateAll_of_line _ hf, hf]
    | none =>
      rw [heeded_none_cons, List.length_cons, List.length_cons]
      cases i with
      | zero => simp [hf]
      | succ i =>
        rw [Nat.succ_lt_succ_iff, Nat.succ_lt_succ_iff, List.take_succ_cons, locateAll_cons, ← ih,
          line_locate, hf, Option.none_or]

end Fault

/-! ## Raised faults -/

namespace Raised

theorem raise_locate (f : Fault) (line : Option Int) (file : Option String) :
    f.raise.locate line file = (f.locate line file).raise := by
  obtain ⟨cause, _ | n, file'⟩ := f <;> rfl

/-- The raised fault after these calls, one after the other. -/
def locateAll (r : Raised) (calls : List Site) : Raised :=
  calls.foldl (fun r site => r.locate site.line site.file) r

/-- Locating and raising may be done in either order: the text never falls behind. -/
theorem raise_locateAll (f : Fault) (calls : List Site) :
    f.raise.locateAll calls = (f.locateAll calls).raise := by
  induction calls generalizing f with
  | nil => rfl
  | cons site calls ih =>
    rw [Fault.locateAll_cons, ← ih, ← raise_locate]
    rfl

end Raised

end CommandScript
