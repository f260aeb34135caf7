/-! # Reading UTF-8 with replacement

A machine reads one byte at a time. It knows how many bytes the started character still needs
and the bounds of the next one. Bytes that cannot start or go on with a character are replaced:
a started character that breaks off as a whole, any other byte by itself.
-/

namespace CommandScript.Text

def replacement : Char := Char.ofNat 0xFFFD

/-- A started character: the bytes it still needs, the bounds of the next one, and the bits read
so far. -/
structure Pending where
  owed : Nat
  low : Nat
  high : Nat
  bits : Nat
  deriving DecidableEq, Repr

/-- Reads the first byte of a character. -/
def readLead (b : Nat) : List Char × Option Pending :=
  if b < 0x80 then ([Char.ofNat b], none)
  else if 0xC2 ≤ b ∧ b ≤ 0xDF then ([], some ⟨1, 0x80, 0xBF, b - 0xC0⟩)
  else if 0xE0 ≤ b ∧ b ≤ 0xEF then
    let low := if b = 0xE0 then 0xA0 else 0x80
    let high := if b = 0xED then 0x9F else 0xBF
    ([], some ⟨2, low, high, b - 0xE0⟩)
  else if 0xF0 ≤ b ∧ b ≤ 0xF4 then
    let low := if b = 0xF0 then 0x90 else 0x80
    let high := if b = 0xF4 then 0x8F else 0xBF
    ([], some ⟨3, low, high, b - 0xF0⟩)
  else ([replacement], none)

/-- Reads a byte that goes on with a character. -/
def Pending.extend (p : Pending) (b : Nat) : List Char × Option Pending :=
  let bits := p.bits * 0x40 + (b - 0x80)
  if p.owed ≤ 1 then ([Char.ofNat bits], none) else ([], some ⟨p.owed - 1, 0x80, 0xBF, bits⟩)

def readByte (state : Option Pending) (b : Nat) : List Char × Option Pending :=
  match state with
  | none => readLead b
  | some p =>
    if p.low ≤ b ∧ b ≤ p.high then p.extend b
    else
      let (chars, next) := readLead b
      (replacement :: chars, next)

def decodeFrom : Option Pending → List UInt8 → List Char
  | none, [] => []
  | some _, [] => [replacement]
  | state, b :: rest =>
    let (chars, next) := readByte state b.toNat
    chars ++ decodeFrom next rest

/-- The text that bytes stand for, with the replacement character where they are no UTF-8. -/
def decodeWithReplacement (bytes : List UInt8) : String := String.ofList (decodeFrom none bytes)

end CommandScript.Text
