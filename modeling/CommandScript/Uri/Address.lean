import CommandScript.Text.Hex

/-! # Addresses of hosts

An address is written as four octets joined by dots, or as eight groups of hexadecimal digits
joined by colons. Once `::` may stand for one or more groups of zeros, the last two groups may be
written as octets, and the name of a zone may follow after `%`. Addresses of versions to come
start with `v` and the number of the version.
-/

namespace CommandScript.Address

/-- A number below 256 in decimal, without leading zeros. -/
def isOctet (digits : List Char) : Bool := (List.range 256).any (Nat.toDigits 10 · = digits)

def isOctets (text : List Char) : Bool :=
  let octets := text.splitOn '.'
  octets.length = 4 && octets.all isOctet

def isGroup (digits : List Char) : Bool :=
  digits ≠ [] && digits.length ≤ 4 && digits.all Text.isHexDigit

/-- How many groups there are, if each is one. At the end of an address octets count for two. -/
def countGroups? (atEnd : Bool) : List (List Char) → Option Nat
  | [] => some 0
  | [last] =>
    if isGroup last then some 1 else if atEnd && isOctets last then some 2 else none
  | first :: rest =>
    if isGroup first then (countGroups? atEnd rest).map (· + 1) else none

def pieces (text : List Char) : List (List Char) := if text = [] then [] else text.splitOn ':'

/-- The text before the first `::`, and the text after it if there is one. -/
def cutAtGap : List Char → List Char × Option (List Char)
  | ':' :: ':' :: rest => ([], some rest)
  | c :: rest =>
    let (before, after) := cutAtGap rest
    (c :: before, after)
  | [] => ([], none)

def isGroups (text : List Char) : Bool :=
  match cutAtGap text with
  | (whole, none) => countGroups? true (pieces whole) = some 8
  | (before, some after) =>
    match countGroups? false (pieces before), countGroups? true (pieces after) with
    | some m, some n => m + n < 8
    | _, _ => false

/-- Groups, alone or with the name of a zone. -/
def isZoned (text : List Char) : Bool :=
  match text.span (· ≠ '%') with
  | (address, []) => isGroups address
  | (address, _ :: zone) => isGroups address && zone ≠ [] && !zone.contains '%'

/-- What follows the `v` in an address of a version to come. -/
def isFuture (text : List Char) : Bool :=
  match text.span Text.isHexDigit with
  | (_ :: _, '.' :: _ :: _) => true
  | _ => false

end CommandScript.Address
