import LoxLang.Table
import LoxLang.Text.Ranges
import LoxLang.Text.Blank
import LoxLang.Text.Lines
import LoxLang.Text.Letter
import LoxLang.Text.Numeral
import LoxLang.Text.Printable
import LoxLang.Text.Hex
import LoxLang.Text.Quoted
import LoxLang.Text.Utf8
import LoxLang.Decimal.Double
import LoxLang.Decimal.Shortest
import LoxLang.Decimal.Layout
import LoxLang.Token
import LoxLang.Token.Piece
import LoxLang.Token.Lexer
import LoxLang.Program
import LoxLang.Program.Fault
import LoxLang.Program.OfTokens
import LoxLang.Scope
import LoxLang.Scope.Analysis
import LoxLang.Diagnostic
import LoxLang.Diagnostic.Ink
import LoxLang.Diagnostic.Log
import LoxLang.Value
import LoxLang.Store
import LoxLang.Store.Object
import LoxLang.Machine.Fault
import LoxLang.Machine.Operators
import LoxLang.Machine
import LoxLang.Machine.Eval
import LoxLang.Interpreter
import LoxLang.Repl.Entry
import LoxLang.Repl
import LoxLang.CommandLine.Options
import LoxLang.CommandLine
import LoxLang.Main
import LoxLang.Proofs.Program.Grammar
import LoxLang.Proofs.Program.Reading
import LoxLang.Proofs.Program.Descent
import LoxLang.Proofs.Program.Occurrence
import LoxLang.Proofs.Program.Tokens
import LoxLang.Proofs.Program.Acceptance
import LoxLang.Proofs.Program.Taking
import LoxLang.Proofs.Program.Completeness
import LoxLang.Proofs.Program.Printer
import LoxLang.Proofs.Program.Declaration
import LoxLang.Proofs.Program.Nesting
import LoxLang.Proofs.Program.Renaming
import LoxLang.Proofs.Program.Exposure
import LoxLang.Proofs.Program.Recovery
import LoxLang.Proofs.Program.Continuation
import LoxLang.Proofs.Program.Node
import LoxLang.Proofs.Program.Arrangement
import LoxLang.Proofs.Token.Position
import LoxLang.Proofs.Token.Joining
import LoxLang.Proofs.Token.Reserved
import LoxLang.Proofs.Scope.Walk
import LoxLang.Proofs.Scope.Following
import LoxLang.Proofs.Scope.Names
import LoxLang.Proofs.Scope.Settled
import LoxLang.Proofs.Scope.Unique
import LoxLang.Proofs.Scope.Renaming
import LoxLang.Proofs.Scope.Receiver
import LoxLang.Proofs.Scope.Initializer
import LoxLang.Proofs.Scope.Lexical
import LoxLang.Proofs.Scope.Findings
import LoxLang.Proofs.Scope.Exactness
import LoxLang.Proofs.Machine.Soundness
import LoxLang.Proofs.Store.Binding
import LoxLang.Proofs.Store.Lineage
import LoxLang.Proofs.Store.Renaming
import LoxLang.Proofs.Machine.Running
import LoxLang.Proofs.Machine.Effects
import LoxLang.Proofs.Machine.Steps
import LoxLang.Proofs.Machine.Stepping
import LoxLang.Proofs.Machine.Receivers
import LoxLang.Proofs.Machine.Preservation
import LoxLang.Proofs.Machine.Distances
import LoxLang.Proofs.Machine.Agreement
import LoxLang.Proofs.Interpreter.Session
import LoxLang.Proofs.Interpreter.Bindings
import LoxLang.Proofs.Machine.Jump
import LoxLang.Proofs.Interpreter.Safety
import LoxLang.Proofs.Interpreter.Verdict
import LoxLang.Proofs.Interpreter.Splitting
import LoxLang.Proofs.Interpreter.ByName
import LoxLang.Proofs.Interpreter.WellFounded
import LoxLang.Proofs.Interpreter.Resolved
import LoxLang.Proofs.Interpreter.Uninitialized
import LoxLang.Proofs.Interpreter.Renaming
import LoxLang.Proofs.Interpreter.Settings
import LoxLang.Proofs.Interpreter.Receivers
import LoxLang.Proofs.Interpreter.Initializer
import LoxLang.Proofs.Scope.Repetition
import LoxLang.Proofs.Interpreter.Reanalysis
import LoxLang.Proofs.Machine.Sequence
import LoxLang.Proofs.Machine.Failing
import LoxLang.Proofs.Interpreter.Restoration
import LoxLang.Proofs.Machine.ForLoop
import LoxLang.Proofs.Token.Tiling
import LoxLang.Proofs.Token.Uniqueness
import LoxLang.Proofs.Token.Respacing
import LoxLang.Proofs.Token.LineNumbers
import LoxLang.Proofs.Token.Cutting
import LoxLang.Proofs.Repl.Balance
import LoxLang.Proofs.Repl.Stripping
import LoxLang.Proofs.Store.Writing
import LoxLang.Proofs.Diagnostic.KnownLines
import LoxLang.Proofs.Repl.Gathering
import LoxLang.Proofs.Repl.Conversation
import LoxLang.Proofs.Repl.EntryLines
import LoxLang.Proofs.Repl.Sessions
import LoxLang.Proofs.Store.Members
import LoxLang.Proofs.Interpreter.Properties
import LoxLang.Proofs.Decimal.Pattern
import LoxLang.Proofs.Store.Equality
