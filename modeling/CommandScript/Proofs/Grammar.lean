import CommandScript.Proofs.Lexing
import CommandScript.Proofs.Numeral
import CommandScript.Stmt

/-! # The grammar

Derivations relate a list of tokens to the tree it spells. Expressions have no lines; a statement
is derived at the line of its first token, and every newline token below it counts.
-/

namespace CommandScript

namespace Token

abbrev newline : Token := ⟨.newLine, "\n"⟩
abbrev symbol (value : String) : Token := ⟨.operator, value⟩
abbrev word (value : String) : Token := ⟨.keyword, value⟩
abbrev name (value : String) : Token := ⟨.identifier, value⟩
abbrev number (value : String) : Token := ⟨.number, value⟩

/-- The number of newline tokens. -/
def newlines (ts : List Token) : Nat := ts.countP fun t => t.kind = .newLine

@[simp] theorem newlines_nil : newlines [] = 0 := rfl

@[simp] theorem newlines_append (ts us : List Token) :
    newlines (ts ++ us) = newlines ts + newlines us := List.countP_append

theorem newlines_cons (t : Token) (ts : List Token) :
    newlines (t :: ts) = (if t.kind = .newLine then 1 else 0) + newlines ts := by
  simp [newlines, List.countP_cons, Nat.add_comm]

end Token

namespace Grammar

open Token

/-- `NUMBER | IDENT | ( term )`, where a number has at most `digitLimit` digits. -/
inductive Term : List Token → Expr → Prop where
  | number {text : String} {ds : List Nat} : text.toList.mapM Text.digitValue? = some ds →
      ds.length ≤ Text.digitLimit → Term [number text] (.int (Text.positional ds))
  | name (x : String) : Term [name x] (.var x)
  | group {ts : List Token} {e : Expr} : Term ts e →
      Term (symbol "(" :: (ts ++ [symbol ")"])) e

/-- Operands joined to the left by operators of one level. -/
inductive Chain (allowed : Op → Bool) (Operand : List Token → Expr → Prop) :
    List Token → Expr → Prop where
  | single {ts : List Token} {e : Expr} : Operand ts e → Chain allowed Operand ts e
  | join {ts us : List Token} {l r : Expr} {op : Op} : Chain allowed Operand ts l →
      allowed op = true → Operand us r →
      Chain allowed Operand (ts ++ symbol op.lexeme :: us) (.arith l (.known op) r)

def Product : List Token → Expr → Prop := Chain Op.isProduct Term

def Sum : List Token → Expr → Prop := Chain Op.isSum Product

inductive Comparison : List Token → Expr → Prop where
  | mk {ts us : List Token} {l r : Expr} {op : Op} : Sum ts l → op.isComparison = true →
      Sum us r → Comparison (ts ++ symbol op.lexeme :: us) (.compare l (.known op) r)

/-- `(term [,])*` -/
inductive Arguments : List Token → List Expr → Prop where
  | nil : Arguments [] []
  | bare {ts us : List Token} {e : Expr} {es : List Expr} : Term ts e → Arguments us es →
      Arguments (ts ++ us) (e :: es)
  | comma {ts us : List Token} {e : Expr} {es : List Expr} : Term ts e → Arguments us es →
      Arguments (ts ++ symbol "," :: us) (e :: es)

theorem Term.newlines_eq_zero {ts : List Token} {e : Expr} (h : Term ts e) : newlines ts = 0 := by
  induction h with
  | number => simp [newlines_cons]
  | name => simp [newlines_cons]
  | group _ ih => simp [newlines_cons, ih]

theorem Chain.newlines_eq_zero {allowed : Op → Bool} {Operand : List Token → Expr → Prop}
    (ho : ∀ ts e, Operand ts e → newlines ts = 0) {ts : List Token} {e : Expr}
    (h : Chain allowed Operand ts e) : newlines ts = 0 := by
  induction h with
  | single h => exact ho _ _ h
  | join _ _ hr ih => simp [newlines_cons, ih, ho _ _ hr]

theorem Sum.newlines_eq_zero {ts : List Token} {e : Expr} (h : Sum ts e) : newlines ts = 0 :=
  Chain.newlines_eq_zero (fun _ _ => Chain.newlines_eq_zero fun _ _ => Term.newlines_eq_zero) h

theorem Comparison.newlines_eq_zero {ts : List Token} {e : Expr} (h : Comparison ts e) :
    newlines ts = 0 := by
  obtain ⟨hl, _, hr⟩ := h
  simp [newlines_cons, hl.newlines_eq_zero, hr.newlines_eq_zero]

theorem Arguments.newlines_eq_zero {ts : List Token} {es : List Expr} (h : Arguments ts es) :
    newlines ts = 0 := by
  induction h with
  | nil => rfl
  | bare ht _ ih => simp [ht.newlines_eq_zero, ih]
  | comma ht _ ih => simp [newlines_cons, ht.newlines_eq_zero, ih]

mutual

inductive Statement : Int → List Token → Stmt → Prop where
  /-- `If cmp NL (NL | stmt)* Endif` -/
  | conditional {line : Int} {ts us : List Token} {e : Expr} {ss : Program} :
      Comparison ts e → Items (line + 1) us ss →
      Statement line (word "If" :: (ts ++ newline :: (us ++ [word "Endif"])))
        (.conditional e (.block ss) line)
  /-- `While cmp NL (NL | stmt)* Endloop` -/
  | loop {line : Int} {ts us : List Token} {e : Expr} {ss : Program} :
      Comparison ts e → Items (line + 1) us ss →
      Statement line (word "While" :: (ts ++ newline :: (us ++ [word "Endloop"])))
        (.loop e (.block ss) line)
  /-- `Method IDENT ( params ) NL (NL | stmt)* Endmethod` -/
  | define {line : Int} {x : String} {params : List String} {ts us : List Token} {ss : Program} :
      Arguments ts (params.map .var) → Items (line + 1) us ss →
      Statement line
        (word "Method" :: name x :: symbol "(" :: (ts ++ symbol ")" :: newline ::
          (us ++ [word "Endmethod"])))
        (.define x params (.block ss) line)
  /-- `IDENT = sum NL` -/
  | assign {line : Int} {x : String} {ts : List Token} {e : Expr} : Sum ts e →
      Statement line (name x :: symbol "=" :: (ts ++ [newline])) (.assign x e line)
  /-- `IDENT ( args )` -/
  | invoke {line : Int} {x : String} {ts : List Token} {es : List Expr} : Arguments ts es →
      Statement line (name x :: symbol "(" :: (ts ++ [symbol ")"])) (.invoke x es line)
  /-- `IDENT args NL`, where the arguments do not start with `(`. -/
  | command {line : Int} {x : String} {ts : List Token} {es : List Expr} : Arguments ts es →
      ts.head? ≠ some (symbol "(") →
      Statement line (name x :: (ts ++ [newline])) (.command x es line)

/-- `(NL | stmt)*` -/
inductive Items : Int → List Token → Program → Prop where
  | nil (line : Int) : Items line [] []
  | newline {line : Int} {ts : List Token} {ss : Program} : Items (line + 1) ts ss →
      Items line (newline :: ts) ss
  | statement {line : Int} {ts us : List Token} {s : Stmt} {ss : Program} :
      Statement line ts s → Items (line + newlines ts) us ss → Items line (ts ++ us) (s :: ss)

end

/-- The tokens of a whole script derive the program. -/
def Derives (ts : List Token) (p : Program) : Prop := Items 1 ts p

/-- Induction along the items, with the statements among them as they are. -/
@[elab_as_elim]
theorem Items.along {motive : ∀ line ts ss, Items line ts ss → Prop}
    (nil : ∀ line, motive line [] [] (.nil line))
    (newline : ∀ {line ts ss} (h : Items (line + 1) ts ss), motive _ _ _ h →
      motive _ _ _ (.newline h))
    (statement : ∀ {line ts us s ss} (hs : Statement line ts s)
      (h : Items (line + newlines ts) us ss), motive _ _ _ h → motive _ _ _ (.statement hs h))
    {line : Int} {ts : List Token} {ss : Program} : ∀ h : Items line ts ss, motive line ts ss h
  | .nil line => nil line
  | .newline h => newline h (h.along nil newline statement)
  | .statement hs h => statement hs h (h.along nil newline statement)

theorem Items.append {line : Int} {ts us : List Token} {p q : Program} (hp : Items line ts p)
    (hq : Items (line + newlines ts) us q) : Items line (ts ++ us) (p ++ q) := by
  induction hp using Items.along with
  | nil line => simpa using hq
  | newline _ ih => exact .newline (ih (by simpa [newlines_cons, Int.add_assoc] using hq))
  | statement hs _ ih =>
    rw [List.append_assoc]
    exact .statement hs (ih (by simpa [Int.add_assoc] using hq))

theorem Statement.ne_nil {line : Int} {ts : List Token} {s : Stmt} (h : Statement line ts s) :
    ts ≠ [] := by
  cases h <;> simp

theorem Items.eq_nil {line : Int} {ts : List Token} {p : Program} (h : Items line ts p)
    (ht : ts = []) : p = [] := by
  cases h with
  | nil => rfl
  | newline => cases ht
  | statement hs _ => exact absurd (List.append_eq_nil_iff.mp ht).1 hs.ne_nil

end Grammar

end CommandScript
