import CommandScript.Text.Utf8
import CommandScript.Uri.Authority

/-! # URIs

A URI is taken apart into scheme, authority and path; query and fragment are dropped, and so are
the parameters of the last path segment for the schemes that have them. Authority and path are
percent-decoded. Tabs and line ends count for nothing anywhere in a URI, control characters and
blanks not at its start.
-/

namespace CommandScript

structure Uri where
  scheme : String
  authority : String
  path : String
  deriving DecidableEq, Repr

namespace Uri

/-- Bytes that stand for themselves in a path. -/
def isPlainByte (b : UInt8) : Bool :=
  let c := Char.ofNat b.toNat
  b < 0x80 && (c.isAlphanum || c = '_' || c = '.' || c = '-' || c = '~' || c = '/')

def hexDigit (n : Nat) : Char := (Nat.digitChar n).toUpper

def percentEncode (path : String) : String :=
  String.ofList (path.toUTF8.toList.flatMap fun b =>
    if isPlainByte b then [Char.ofNat b.toNat]
    else ['%', hexDigit (b.toNat / 16), hexDigit (b.toNat % 16)])

/-- The bytes that a percent-encoded text stands for. -/
def percentBytes : List Char → List UInt8
  | '%' :: a :: b :: rest =>
    match Text.hexValue? a, Text.hexValue? b with
    | some m, some n => UInt8.ofNat (m * 16 + n) :: percentBytes rest
    | _, _ => 0x25 :: percentBytes (a :: b :: rest)
  | c :: rest => c.toString.toUTF8.toList ++ percentBytes rest
  | [] => []

def percentDecode (text : List Char) : String := Text.decodeWithReplacement (percentBytes text)

def dropBreaks (text : List Char) : List Char :=
  text.filter fun c => c ≠ '\t' && c ≠ '\r' && c ≠ '\n'

/-- Drops what counts for nothing in a URI. -/
def clean (text : List Char) : List Char := dropBreaks (text.dropWhile fun c => c.toNat ≤ 0x20)

def isSchemeChar (c : Char) : Bool := c.isAlphanum || c = '+' || c = '-' || c = '.'

/-- The scheme in lower case and the rest; a text without a proper scheme is all rest. -/
def splitScheme (text : List Char) : List Char × List Char :=
  match text.span (· ≠ ':') with
  | (first :: more, _ :: rest) =>
    if first.isAlpha && more.all isSchemeChar then ((first :: more).map Char.toLower, rest)
    else ([], text)
  | _ => ([], text)

def splitAuthority : List Char → List Char × List Char
  | '/' :: '/' :: rest => rest.span fun c => c ≠ '/' && c ≠ '?' && c ≠ '#'
  | text => ([], text)

def dropQuery (text : List Char) : List Char :=
  (text.takeWhile (· ≠ '#')).takeWhile (· ≠ '?')

/-- Schemes whose last path segment may have parameters. -/
def parametrised : List String :=
  ["", "ftp", "hdl", "prospero", "http", "imap", "https", "shttp", "rtsp", "rtspu",
   "sip", "sips", "mms", "sftp", "tel"]

def dropParameters (path : List Char) : List Char :=
  match path.reverse.span (· ≠ '/') with
  | (last, before) => before.reverse ++ last.reverse.takeWhile (· ≠ ';')

/-- Takes a URI apart, unless its authority is refused. -/
def parse (text : String) : Except UriError Uri := do
  let (scheme, rest) := splitScheme (clean text.toList)
  let (authority, rest) := splitAuthority rest
  Authority.check authority
  let scheme := String.ofList scheme
  let path := dropQuery rest
  let path := if parametrised.contains scheme then dropParameters path else path
  return ⟨scheme, percentDecode authority, percentDecode path⟩

/-- The path of the file that a URI names. The authority of a file is the machine it is on, and
the letter of a drive is written small. -/
def filePath (uri : Uri) : String :=
  if uri.scheme = "file" ∧ uri.authority ≠ "" ∧ uri.path ≠ "" then
    "//" ++ uri.authority ++ uri.path
  else
    match uri.path.toList with
    | '/' :: letter :: ':' :: rest =>
      if letter.isAlpha then String.ofList (letter.toLower :: ':' :: rest) else uri.path
    | _ => uri.path

end Uri

end CommandScript
