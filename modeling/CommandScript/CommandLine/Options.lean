import CommandScript.Text.CharClass
import CommandScript.Text.Quoted

/-! # Command line options

Words are told apart first: the separator `--`, after which every word is a value; options,
which may be shortened to an unambiguous beginning, carry a text after `=`, or be joined after a
single dash; and values. Then options act in order and the first free value is the script.
-/

namespace CommandScript.CommandLine

inductive Choice where
  | help | command | verbose | tokens
  deriving DecidableEq, Repr

namespace Choice

/-- Every spelling of an option, in the order in which they are tried. -/
def spellings : List (String × Choice) :=
  [("-h", help), ("--help", help), ("-c", command), ("--command", command),
   ("-v", verbose), ("--verbose", verbose), ("--tokens", tokens)]

def ofSpelling? (s : String) : Option Choice := spellings.lookup s

/-- The option as named in messages. -/
def title (choice : Choice) : String :=
  "/".intercalate ((spellings.filter fun entry => entry.2 = choice).map Prod.fst)

end Choice

inductive Word where
  | separator
  | value (text : String)
  /-- An option and the text joined to it; `single` if it is written with a single dash. -/
  | option (choice : Choice) (single : Bool) (joined : Option (List Char))
  | unknownOption (text : String)
  deriving DecidableEq, Repr

namespace Word

def isOption : Word → Bool
  | option .. => true
  | unknownOption _ => true
  | _ => false

/-- The word as it was written, for words that are not known options. -/
def text : Word → String
  | separator => "--"
  | value text => text
  | unknownOption text => text
  | option .. => ""

end Word

/-- Why no options result: help was asked for, or the words make no sense. -/
inductive Stop where
  | help
  | usage (message : String)
  deriving DecidableEq, Repr

/-- The text before the first equals sign, and the text after it if there is one. -/
def splitAtEquals (cs : List Char) : List Char × Option (List Char) :=
  match cs.span (· ≠ '=') with
  | (before, []) => (before, none)
  | (before, _ :: after) => (before, some after)

/-- A minus sign and a number, possibly with decimals. -/
def isNegativeNumber (cs : List Char) : Bool :=
  let cs := match cs.reverse with
    | '\n' :: rest => rest.reverse
    | _ => cs
  match cs with
  | '-' :: rest =>
    match rest.dropWhile Text.isDigit with
    | [] => !rest.isEmpty
    | '.' :: decimals => !decimals.isEmpty && decimals.all Text.isDigit
    | _ => false
  | _ => false

/-- Reads a word with a double dash as the beginning of an option. -/
def readLong (word : String) : Except Stop (Option Word) :=
  let (before, after) := splitAtEquals word.toList
  match Choice.spellings.filter fun entry => before.isPrefixOf entry.1.toList with
  | [] => .ok none
  | [(_, choice)] => .ok (some (.option choice false after))
  | several =>
    .error (.usage ("ambiguous option: " ++ word ++ " could match "
      ++ ", ".intercalate (several.map Prod.fst)))

/-- Reads a word with a single dash as an option with text joined to it. -/
def readShort (letter : Char) (rest : List Char) : Option Word :=
  (Choice.ofSpelling? (String.ofList ['-', letter])).map fun choice =>
    .option choice true (some rest)

def readUnknown (word : String) : Word :=
  if isNegativeNumber word.toList || word.toList.contains ' ' then .value word
  else .unknownOption word

/-- Reads a word before the separator. -/
def readWord (word : String) : Except Stop Word :=
  match word.toList with
  | '-' :: second :: rest =>
    let single := second ≠ '-'
    match Choice.ofSpelling? word with
    | some choice => .ok (.option choice single none)
    | none =>
      let (before, after) := splitAtEquals word.toList
      match after, Choice.ofSpelling? (String.ofList before) with
      | some text, some choice => .ok (.option choice single (some text))
      | _, _ => do
        let found ← if single then .ok (readShort second rest) else readLong word
        return found.getD (readUnknown word)
  | _ => .ok (.value word)

def readWords : List String → Except Stop (List Word)
  | [] => .ok []
  | word :: rest => do
    if word = "--" then return .separator :: rest.map .value
    let first ← readWord word
    return first :: (← readWords rest)

structure Options where
  /-- The specs of commands. A joined separator counts as a spec without any text. -/
  specs : List (Option String) := []
  verbose : Bool := false
  tokens : Bool := false
  script : Option String := none
  deriving DecidableEq, Repr

/-- What an option does, once its value is known. -/
inductive Effect where
  | help
  | addSpec (spec : Option String)
  | setVerbose
  | setTokens
  deriving DecidableEq, Repr

/-- The options of one word: what they do, and whether the last one still needs a value. -/
structure Cluster where
  effects : List Effect := []
  needsValue : Bool := false
  deriving DecidableEq, Repr

def complain {α : Type} (choice : Choice) (message : String) : Except Stop α :=
  .error (.usage ("argument " ++ choice.title ++ ": " ++ message))

def ignored {α : Type} (choice : Choice) (text : List Char) : Except Stop α :=
  complain choice ("ignored explicit argument " ++ Text.quoted (String.ofList text))

/-- The effect of an option that takes no value. -/
def Choice.effect? : Choice → Option Effect
  | help => some .help
  | verbose => some .setVerbose
  | tokens => some .setTokens
  | command => none

/-- An option with nothing joined to it. -/
def Choice.alone (choice : Choice) : Cluster :=
  match choice.effect? with
  | some effect => { effects := [effect] }
  | none => { needsValue := true }

/-- The spec that is joined to an option. -/
def joinedSpec (text : List Char) : Option String :=
  if text = ['-', '-'] then none else some (String.ofList text)

/-- Takes the options of a word apart: the text is joined to `choice`, so it is its value, or the
letters of further options if `choice` takes none. -/
def cluster (choice : Choice) (single : Bool) : List Char → Except Stop Cluster
  | [] =>
    if choice.effect?.isSome then ignored choice [] else .ok { effects := [.addSpec (some "")] }
  | letter :: more =>
    match choice.effect? with
    | none => .ok { effects := [.addSpec (joinedSpec (letter :: more))] }
    | some effect =>
      match if single then Choice.ofSpelling? (String.ofList ['-', letter]) else none with
      | none => ignored choice (letter :: more)
      | some next => do
        let inner ← if more.isEmpty then .ok next.alone else cluster next true more
        return { inner with effects := effect :: inner.effects }

def Options.apply (o : Options) : Effect → Except Stop Options
  | .help => .error .help
  | .addSpec spec => .ok { o with specs := o.specs ++ [spec] }
  | .setVerbose => .ok { o with verbose := true }
  | .setTokens => .ok { o with tokens := true }

/-- What has been read so far; `taken` tells whether the script's place is filled. -/
structure Reading where
  options : Options := {}
  taken : Bool := false
  extras : List String := []
  deriving DecidableEq, Repr

namespace Reading

def extra (r : Reading) (text : String) : Reading := { r with extras := r.extras ++ [text] }

def takeScript (r : Reading) (name : String) : Reading :=
  { r with options := { r.options with script := some name }, taken := true }

def act (r : Reading) (effects : List Effect) : Except Stop Reading := do
  return { r with options := ← effects.foldlM Options.apply r.options }

/-- Reads the words after the last option. -/
def finish (r : Reading) (words : List Word) : Reading :=
  if r.taken then { r with extras := r.extras ++ words.map Word.text }
  else
    let rest := match words with
      | .separator :: rest => rest
      | _ => words
    match rest with
    | [] => r
    | script :: rest =>
      let r := r.takeScript script.text
      let rest := match words, rest with
        | .value _ :: _, .separator :: rest => rest
        | _, _ => rest
      { r with extras := r.extras ++ rest.map Word.text }

end Reading

def clusterOf (choice : Choice) (single : Bool) : Option (List Char) → Except Stop Cluster
  | some joined => cluster choice single joined
  | none => .ok choice.alone

def process : List Word → Reading → Except Stop Reading
  | [], r => .ok r
  | word :: rest, r =>
    if !(word :: rest).any Word.isOption then .ok (r.finish (word :: rest))
    else
      match word with
      | .separator => process rest (r.extra word.text)
      | .unknownOption text => process rest (r.extra text)
      | .value text => process rest (if r.taken then r.extra text else r.takeScript text)
      | .option choice single joined => do
        let c ← clusterOf choice single joined
        if c.needsValue then
          match rest with
          | .value spec :: rest => process rest (← r.act (c.effects ++ [.addSpec (some spec)]))
          | _ => complain .command "expected one argument"
        else process rest (← r.act c.effects)

def parseOptions (words : List String) : Except Stop Options := do
  let r ← process (← readWords words) {}
  if r.extras.isEmpty then return r.options
  .error (.usage ("unrecognized arguments: " ++ " ".intercalate r.extras))

def usageLine : String := "usage: ase [-h] [-c NAME[:ALIAS...]] [-v] [--tokens] [script]\n"

def helpText : String :=
  usageLine ++ "\n" ++
  "ASE Script interpreter. Runs a script, or a REPL when no script is given.\n\n" ++
  "positional arguments:\n" ++
  "  script                path to an ASE script to execute\n\n" ++
  "options:\n" ++
  "  -h, --help            show this help message and exit\n" ++
  "  -c NAME[:ALIAS...], --command NAME[:ALIAS...]\n" ++
  "                        register an echo command (repeatable)\n" ++
  "  -v, --verbose         log lexer, parser and dispatch activity\n" ++
  "  --tokens              print the tokens and AST before running the script\n"

def usageError (message : String) : String := usageLine ++ "ase: error: " ++ message ++ "\n"

end CommandScript.CommandLine
