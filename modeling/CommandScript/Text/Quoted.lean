import CommandScript.Text.Hex
import CommandScript.Text.Printable

/-! # Quoted text

Text is quoted with apostrophes, or with double quotes if it holds an apostrophe and no double
quote. The chosen quote and the backslash are escaped, the common control characters have short
escapes, and any other unprintable character is written by its code point in hexadecimal.
-/

namespace CommandScript.Text

def quoteFor (text : String) : Char :=
  if text.toList.contains '\x27' && !text.toList.contains '\x22' then '\x22' else '\x27'

def escapeChar (quote c : Char) : String :=
  if c = quote || c = '\x5c' then String.ofList ['\x5c', c]
  else if c = '\n' then "\\n"
  else if c = '\r' then "\\r"
  else if c = '\t' then "\\t"
  else if isPrintable c then c.toString
  else if c.toNat < 0x100 then "\\x" ++ hex 2 c.toNat
  else if c.toNat < 0x10000 then "\\u" ++ hex 4 c.toNat
  else "\\U" ++ hex 8 c.toNat

def quoted (text : String) : String :=
  let quote := quoteFor text
  quote.toString ++ String.join (text.toList.map (escapeChar quote)) ++ quote.toString

/-- A list of texts, each quoted, in square brackets. -/
def quotedList (texts : List String) : String :=
  "[" ++ ", ".intercalate (texts.map quoted) ++ "]"

end CommandScript.Text
