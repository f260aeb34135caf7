import CommandScript.Text.Quoted

/-! # Tokens -/

namespace CommandScript

inductive TokenKind where
  | operator | keyword | identifier | newLine | number
  /-- Reserved: no text is read as a comment. -/
  | comment
  deriving DecidableEq, Repr

def TokenKind.label : TokenKind → String
  | .operator => "OPERATOR"
  | .keyword => "KEYWORD"
  | .identifier => "IDENTIFIER"
  | .newLine => "NEW_LINE"
  | .number => "NUMBER"
  | .comment => "COMMENT"

structure Token where
  kind : TokenKind
  value : String
  deriving DecidableEq, Repr

namespace Token

/-- The token as named in messages. -/
def describe (t : Token) : String :=
  if t.kind = .newLine then "newline" else t.value

/-- The token as shown in a listing. -/
def text (t : Token) : String :=
  "Token(" ++ t.kind.label ++ ", " ++ Text.quoted t.value ++ ")"

def listing (tokens : List Token) : String :=
  "[" ++ ", ".intercalate (tokens.map text) ++ "]"

end Token

end CommandScript
