import CommandScript.CommandLine

/-! # The program

Reads files and lines and prints what the command line reports.
-/

namespace CommandScript

/-- The error that the system's number stands for; some calls give the number negated. -/
def ReadError.ofNumber? (code : UInt32) : Option ReadError :=
  ReadError.ofCode? (min code.toNat (-code).toNat)

def ReadError.ofSystemError? : IO.Error → Option ReadError
  | .noFileOrDirectory _ code _ => ofNumber? code
  | .inappropriateType _ code _ => ofNumber? code
  | .permissionDenied _ code _ => ofNumber? code
  | .invalidArgument _ code _ => ofNumber? code
  | _ => none

namespace CommandLine

def readScript (name : String) : IO (Except ReadError ByteArray) := do
  match ← (IO.FS.readBinFile name).toBaseIO with
  | .ok bytes => return .ok bytes
  | .error e =>
    match ReadError.ofSystemError? e with
    | some known => return .error known
    | none => throw e

def print (stdout stderr : String) : IO Unit := do
  let out ← IO.getStdout
  out.putStr stdout
  out.flush
  (← IO.getStderr).putStr stderr

def Report.conclude (report : Report) : IO UInt32 := do
  print report.stdout report.stderr
  match report.exit with
  | .ok code => return code.toUInt32
  | .error escape =>
    print "" (escape.text ++ "\n")
    return 1

/-- Prints what the loop has written since the last time. -/
def present (r : Repl) : IO Repl := do
  let w := r.state.world
  print w.output (logText w)
  return { r with state := { r.state with world := { w with output := "", log := #[] } } }

/-- Reads lines and has the loop answer each of them. -/
def converse (first : Repl) : IO UInt32 := do
  let input ← IO.getStdin
  let mut r := first
  repeat
    r ← present (r.write r.prompt)
    let line ← input.getLine
    if line.isEmpty then
      r ← present (r.write (Repl.farewell .endOfInput))
      return 0
    match r.step ((inputLines line).headD "") with
    | .again next => r ← present next
    | .leave last => return ← (Report.of (.ok 0) last.state.world).conclude
    | .escape h last => return ← (Report.of (.error (.halt h)) last.state.world).conclude
  return 0

end CommandLine

end CommandScript

open CommandScript.CommandLine in
def main (words : List String) : IO UInt32 := do
  match Plan.ofWords words with
  | .finish report => report.conclude
  | .interact registry w => converse (start registry w)
  | .runFile name showTokens registry w =>
    let debug := ((← IO.getEnv "ASEDEBUG").getD "") ≠ ""
    (runFile registry name (← readScript name) (showTokens || debug) w).conclude
