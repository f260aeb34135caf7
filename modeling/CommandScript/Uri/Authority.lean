import CommandScript.Text.Quoted
import CommandScript.Uri.Address

/-! # Authorities

The authority of a URI is a host, with a user before `@` and a number after `:`. Brackets stand
around the address of a host only, and no character may turn into a delimiter of URIs when the
authority is brought into its compatibility form.
-/

namespace CommandScript

/-- Why a text is no URI. -/
inductive UriError where
  /-- A bracket has no counterpart, or text touches the bracketed host. -/
  | strayBracket
  /-- The host starts as an address of a version to come and does not go on as one. -/
  | futureAddress
  | noAddress (host : String)
  /-- Octets stand in brackets. -/
  | bracketedOctets
  /-- The authority holds a delimiter in disguise. -/
  | disguisedDelimiter (authority : String)
  deriving DecidableEq, Repr

def UriError.message : UriError → String
  | strayBracket => "Invalid IPv6 URL"
  | futureAddress => "IPvFuture address is invalid"
  | noAddress host => Text.quoted host ++ " does not appear to be an IPv4 or IPv6 address"
  | bracketedOctets => "An IPv4 address cannot be in brackets"
  | disguisedDelimiter authority =>
    "netloc '" ++ authority ++ "' contains invalid characters under NFKC normalization"

namespace Authority

/-- What follows the last `@`. -/
def afterUser (authority : List Char) : List Char :=
  (authority.reverse.takeWhile (· ≠ '@')).reverse

/-- The host of an authority that has brackets; they need not stand around it. -/
def host (authority : List Char) : Except UriError (List Char) :=
  match (afterUser authority).span (· ≠ '[') with
  | (plain, []) => .ok (plain.takeWhile (· ≠ ':'))
  | ([], _ :: bracketed) =>
    match bracketed.span (· ≠ ']') with
    | (host, []) | (host, [_]) | (host, _ :: ':' :: _) => .ok host
    | _ => .error .strayBracket
  | _ => .error .strayBracket

def checkHost (host : List Char) : Except UriError Unit :=
  match host with
  | 'v' :: version => if Address.isFuture version then .ok () else .error .futureAddress
  | _ =>
    if Address.isOctets host then .error .bracketedOctets
    else if Address.isZoned host then .ok ()
    else .error (.noAddress (String.ofList host))

def checkBrackets (authority : List Char) : Except UriError Unit :=
  match authority.contains '[', authority.contains ']' with
  | false, false => .ok ()
  | true, true => host authority >>= checkHost
  | _, _ => .error .strayBracket

/-- Characters whose compatibility form has one of the delimiters `/`, `?`, `#`, `@`, `:`. -/
def disguised : List Nat :=
  [0x2047, 0x2048, 0x2049, 0x2100, 0x2101, 0x2105, 0x2106, 0x2A74, 0xFE13, 0xFE16, 0xFE55,
   0xFE56, 0xFE5F, 0xFE6B, 0xFF03, 0xFF0F, 0xFF1A, 0xFF1F, 0xFF20]

def check (authority : List Char) : Except UriError Unit := do
  checkBrackets authority
  if authority.any (disguised.contains ·.toNat) then
    .error (.disguisedDelimiter (String.ofList authority))

end Authority

end CommandScript
