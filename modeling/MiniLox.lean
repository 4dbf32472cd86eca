import MiniLox.Decimal.Notation
import MiniLox.Token.Scan
import MiniLox.Tree.Basic
import MiniLox.Tree.Debug
import MiniLox.Grammar.Program
import MiniLox.Scopes.Operation
import MiniLox.Machine
import MiniLox.Report.Reporter
import MiniLox.Runner
import MiniLox.Console
import MiniLox.CommandLine.Command
import MiniLox.Main
import MiniLox.Proofs.Grammar.Layered
import MiniLox.Proofs.Grammar.Locality
import MiniLox.Proofs.Grammar.Recognition
import MiniLox.Proofs.Grammar.Runs
import MiniLox.Proofs.Grammar.Acceptance
import MiniLox.Proofs.Grammar.Segments
import MiniLox.Proofs.Grammar.Boundaries
import MiniLox.Proofs.Grammar.Masks
import MiniLox.Proofs.Grammar.Nesting
import MiniLox.Proofs.Grammar.Parentheses
import MiniLox.Proofs.Text.Lines
import MiniLox.Proofs.Text.Strip
import MiniLox.Proofs.Text.Endings
import MiniLox.Proofs.Token.Spelling
import MiniLox.Proofs.Token.Split
import MiniLox.Proofs.Token.Places
import MiniLox.Proofs.Token.Stops
import MiniLox.Proofs.Token.Joining
import MiniLox.Proofs.Token.Positions
import MiniLox.Proofs.Token.Spacing
import MiniLox.Proofs.Scopes.Define
import MiniLox.Proofs.Evaluation.Blame
import MiniLox.Proofs.Evaluation.Types
import MiniLox.Proofs.Evaluation.Contents
import MiniLox.Proofs.Evaluation.Order
import MiniLox.Proofs.Evaluation.Groups
import MiniLox.Proofs.Report.Record
import MiniLox.Proofs.Report.Pointing
import MiniLox.Proofs.Runner.Course
import MiniLox.Proofs.Runner.Independence
import MiniLox.Proofs.Runner.Caret
import MiniLox.Proofs.Scopes.Store
import MiniLox.Proofs.Scopes.History
import MiniLox.Proofs.Evaluation.Placement
import MiniLox.Proofs.Report.Wording
import MiniLox.Proofs.Runner.Outcome
import MiniLox.Proofs.Runner.Visibility
import MiniLox.Proofs.CommandLine.Scripts
import MiniLox.Proofs.CommandLine.Status
import MiniLox.Proofs.Runner.Placement
import MiniLox.Proofs.Runner.Requests
import MiniLox.Proofs.Runner.Parentheses
import MiniLox.Proofs.Runner.Files
import MiniLox.Proofs.Console.Lines
import MiniLox.Proofs.Console.Session
import MiniLox.Proofs.Decimal.Rounding
import MiniLox.Proofs.Tree.Sameness
import MiniLox.Proofs.Tree.Legible
import MiniLox.Proofs.Tree.Display
import MiniLox.Proofs.Token.Dump
import MiniLox.Proofs.Decimal.Nearest
import MiniLox.Proofs.Decimal.Shortest
import MiniLox.Proofs.Decimal.Reading
import MiniLox.Proofs.Decimal.Signs
import MiniLox.Proofs.Decimal.Texts
import MiniLox.Proofs.Decimal.Interval
import MiniLox.Proofs.Decimal.Fewest
import MiniLox.Proofs.Decimal.Whole
import MiniLox.Proofs.Decimal.Agreement
import MiniLox.Proofs.Evaluation.Numerals
import MiniLox.Proofs.CommandLine.Stretches
import MiniLox.Proofs.Grammar.Cursor
import MiniLox.Proofs.Grammar.Transitions
import MiniLox.Proofs.Grammar.Progress
