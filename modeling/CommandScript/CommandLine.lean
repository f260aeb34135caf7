import CommandScript.CommandLine.Options
import CommandScript.Folder
import CommandScript.Repl

/-! # The command line

Runs a script file, or the interactive loop when no script is given. Commands given by spec
echo their arguments.
-/

namespace CommandScript.CommandLine

/-- An error that ends the program without an exit code. -/
inductive Escape where
  | halt (h : Halt)
  /-- The script file is no UTF-8 text. -/
  | undecodable
  /-- The name of the script file holds the null character. -/
  | nullCharacter
  /-- A spec has no text, not even an empty one. -/
  | absentSpec
  deriving DecidableEq, Repr

def Escape.text : Escape → String
  | halt h => h.text
  | undecodable => "the script is no UTF-8 text"
  | nullCharacter => "embedded null byte"
  | absentSpec => "'list' object has no attribute 'split'"

/-- What a run of the program shows. -/
structure Report where
  exit : Except Escape Nat
  stdout : String := ""
  stderr : String := ""

def logText (w : World) : String :=
  if w.verbose then String.join (w.log.toList.map fun event => event.text ++ "\n") else ""

def Report.of (exit : Except Escape Nat) (w : World) : Report :=
  { exit := exit, stdout := w.output, stderr := logText w }

/-- Registers the echo commands of the specs, up to the first that names none. -/
def register : List (Option String) → Registry → World →
    Except (Option String × World) (Registry × World)
  | [], registry, w => .ok (registry, w)
  | spec :: rest, registry, w =>
    match spec.bind Command.ofSpec? with
    | none => .error (spec, w)
    | some command => register rest (registry ++ [command]) (w.note (.registered command.name))

/-- Shows the tokens and the tree of a script before it runs. -/
def list (file : Option String) (code : String) (w : World) : World × Option Halt :=
  let head := "\nTokens:\n\n" ++ Token.listing (lex code) ++ "\n\nAST:\n\n"
  match parse file code with
  | .error (.fault f) => (w.write (head ++ "<unparseable: " ++ f.message ++ ">\n \n"), none)
  | .error halt => (w, some halt)
  | .ok program =>
    let w := w.note (.parsed program)
    match Program.listing program with
    | .ok text => (w.write (head ++ text ++ "\n \n"), none)
    | .error halt => (w.write head, some halt)

/-- Runs the code of a script file. -/
def runCode (registry : Registry) (name code : String) (showTokens : Bool) (w : World) : Report :=
  let (w, cut) := if showTokens then list (some name) code w else (w, none)
  match cut with
  | some halt => .of (.error (.halt halt)) w
  | none =>
    match execute registry.host (some name) code { context := {}, world := w } with
    | .ok _ after => .of (.ok 0) after.world
    | .error (.fault f) after => .of (.ok 1) (after.world.write (f.report ++ "\n"))
    | .error halt after => .of (.error (.halt halt)) after.world

/-- Runs a script file whose content was or was not read. -/
def runFile (registry : Registry) (name : String) (content : Except ReadError ByteArray)
    (showTokens : Bool) (w : World) : Report :=
  match content with
  | .error .nullCharacter => .of (.error .nullCharacter) w
  | .error e => .of (.ok 1) (w.write (e.label ++ ": " ++ e.message name ++ "\n"))
  | .ok bytes =>
    match Text.decodeFile? bytes with
    | none => .of (.error .undecodable) w
    | some code => runCode registry name code showTokens w

def start (registry : Registry) (w : World) : Repl :=
  ({ registry := registry, state := { context := {}, world := w } } : Repl).write Repl.banner

def runRepl (registry : Registry) (lines : List String) (ending : Ending) (w : World) : Report :=
  match Repl.feed ending lines (start registry w) with
  | .ok r => .of (.ok 0) r.state.world
  | .error (halt, r) => .of (.error (.halt halt)) r.state.world

/-- The registry that the options ask for, or the report that they are wrong. -/
def prepare (options : Options) : Except Report (Registry × World) :=
  match register options.specs [] { verbose := options.verbose } with
  | .ok prepared => .ok prepared
  | .error (some spec, w) =>
    .error (.of (.ok 2) (w.write ("ValueError: " ++ Command.specError spec ++ "\n")))
  | .error (none, w) => .error (.of (.error .absentSpec) w)

def Stop.report : Stop → Report
  | help => { exit := .ok 0, stdout := helpText }
  | usage message => { exit := .ok 2, stderr := usageError message }

/-- What the words of the command line ask for. -/
inductive Plan where
  /-- Nothing is left to run. -/
  | finish (report : Report)
  | interact (registry : Registry) (w : World)
  | runFile (name : String) (showTokens : Bool) (registry : Registry) (w : World)

def Plan.ofWords (words : List String) : Plan :=
  match parseOptions words with
  | .error stop => .finish stop.report
  | .ok options =>
    match prepare options with
    | .error report => .finish report
    | .ok (registry, w) =>
      match options.script with
      | none => .interact registry w
      | some name => .runFile name options.tokens registry w

/-- What the program finds around it. -/
structure Setting where
  read : String → Except ReadError ByteArray
  /-- Asks for the tokens and tree of every script file. -/
  debug : Bool := false
  lines : List String := []
  ending : Ending := .endOfInput

def run (setting : Setting) (words : List String) : Report :=
  match Plan.ofWords words with
  | .finish report => report
  | .interact registry w => runRepl registry setting.lines setting.ending w
  | .runFile name showTokens registry w =>
    CommandLine.runFile registry name (setting.read name) (showTokens || setting.debug) w

/-- The lines of an input; a last line need not be ended. -/
def inputLines (text : String) : List String :=
  let pieces := text.toList.splitOn '\n'
  let pieces := if pieces.getLast? = some [] then pieces.dropLast else pieces
  pieces.map String.ofList

end CommandScript.CommandLine
