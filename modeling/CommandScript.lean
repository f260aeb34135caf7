import CommandScript.Command
import CommandScript.Command.Argument
import CommandScript.CommandLine
import CommandScript.CommandLine.Options
import CommandScript.Context
import CommandScript.Cursor
import CommandScript.Diagnostic
import CommandScript.Document
import CommandScript.Eval
import CommandScript.Event
import CommandScript.Exec
import CommandScript.Expr
import CommandScript.Expr.Parser
import CommandScript.Fault
import CommandScript.Fault.Raised
import CommandScript.Folder
import CommandScript.Index
import CommandScript.Main
import CommandScript.Operator
import CommandScript.Repl
import CommandScript.Session
import CommandScript.Stmt
import CommandScript.Stmt.Parser
import CommandScript.Symbol
import CommandScript.Table
import CommandScript.Text.CharClass
import CommandScript.Text.Digit
import CommandScript.Text.Hex
import CommandScript.Text.Integer
import CommandScript.Text.Letter
import CommandScript.Text.Line
import CommandScript.Text.Printable
import CommandScript.Text.Quoted
import CommandScript.Text.Utf8
import CommandScript.Token
import CommandScript.Token.Lexer
import CommandScript.Tree
import CommandScript.Uri
import CommandScript.Uri.Address
import CommandScript.Uri.Authority
import CommandScript.World
import CommandScript.Proofs.Lexing
import CommandScript.Proofs.Numeral
import CommandScript.Proofs.Location
import CommandScript.Proofs.Grammar
import CommandScript.Proofs.Parsing.Logic
import CommandScript.Proofs.Parsing.Expression
import CommandScript.Proofs.Parsing.Statement
import CommandScript.Proofs.Parsing.Rounds
import CommandScript.Proofs.Parsing.Calls
import CommandScript.Proofs.Parsing.Completeness
import CommandScript.Proofs.Parsing.Recognition
import CommandScript.Proofs.Lines
import CommandScript.Proofs.Equality
import CommandScript.Proofs.Parsing.Stability
import CommandScript.Proofs.Parsing.Extension
import CommandScript.Proofs.Parsing.Places
import CommandScript.Proofs.Parsing.SourceLines
import CommandScript.Proofs.Parsing.OpenBlocks
import CommandScript.Proofs.Parsing.Incomplete
import CommandScript.Proofs.Parsing.ScriptEnd
import CommandScript.Proofs.Tables
import CommandScript.Proofs.Running.Evaluation
import CommandScript.Proofs.Running.Likeness
import CommandScript.Proofs.Running.Simulation
import CommandScript.Proofs.Running.Contract
import CommandScript.Proofs.Running.Reach
import CommandScript.Proofs.Running.Echo
import CommandScript.Proofs.Running.Script
import CommandScript.Proofs.Running.Specs
import CommandScript.Proofs.Running.Printing
import CommandScript.Proofs.Interactive
import CommandScript.Proofs.Shape
import CommandScript.Proofs.Running.Typing
import CommandScript.Proofs.Running.Scanning
import CommandScript.Proofs.Running.Isolation
import CommandScript.Proofs.Running.History
import CommandScript.Proofs.Running.Commands
import CommandScript.Proofs.Running.Unmentioned
import CommandScript.Proofs.Running.Origins
import CommandScript.Proofs.Running.Crossing
import CommandScript.Proofs.Running.EqualPrograms
import CommandScript.Proofs.Running.Resolution
import CommandScript.Proofs.Running.Bindings
import CommandScript.Proofs.Running.Arguments
import CommandScript.Proofs.Running.LocalLoops
import CommandScript.Proofs.Running.Termination
import CommandScript.Proofs.Classes
import CommandScript.Proofs.Running.Sequence
import CommandScript.Proofs.MaximalMunch
import CommandScript.Proofs.Blanks
import CommandScript.Proofs.WellFormed
import CommandScript.Proofs.Rendering
import CommandScript.Proofs.TokenText
import CommandScript.Proofs.Streaming
import CommandScript.Proofs.UniqueReading
import CommandScript.Proofs.Parsing.Sums
import CommandScript.Proofs.Parsing.Formulas
import CommandScript.Proofs.Parsing.Literals
import CommandScript.Proofs.Editor.Update
import CommandScript.Proofs.Editor.DocumentLines
import CommandScript.Proofs.Editor.Diagnostics
import CommandScript.Proofs.Editor.Notices
import CommandScript.Proofs.Editor.Lookup
import CommandScript.Proofs.Editor.Symbols
import CommandScript.Proofs.Editor.Agreement
import CommandScript.Proofs.Options
import CommandScript.Proofs.Running.Listing
import CommandScript.Proofs.Editor.Workspace
