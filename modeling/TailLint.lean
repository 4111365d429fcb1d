import TailLint.Span
import TailLint.Text.Blank
import TailLint.Text.DecimalDigit
import TailLint.Text.Printable
import TailLint.Text.Quoted
import TailLint.Text.Utf8
import TailLint.Text.Newline
import TailLint.Number.Binary64
import TailLint.Number.Shortest
import TailLint.Number.Numeral
import TailLint.Json.Basic
import TailLint.Json.Reader
import TailLint.Json.Writer
import TailLint.Files
import TailLint.Breakdown
import TailLint.Notice
import TailLint.Form.Basic
import TailLint.Form.Reader
import TailLint.Tree.Basic
import TailLint.Tree.Equality
import TailLint.Tree.Walk
import TailLint.Tree.Printer
import TailLint.Tree.Loader
import TailLint.NameSet
import TailLint.Policy.Basic
import TailLint.Policy.Config
import TailLint.Pipe
import TailLint.Terminal
import TailLint.Diagnostic
import TailLint.Finding
import TailLint.Log
import TailLint.Lint
import TailLint.CommandLine.Switch
import TailLint.CommandLine.Arguments
import TailLint.CommandLine.Help
import TailLint.CommandLine.Run
import TailLint.Main
import TailLint.Proofs.WholeNumber
import TailLint.Proofs.Reading
import TailLint.Proofs.Loading
import TailLint.Proofs.Loaded
import TailLint.Proofs.Refusals
import TailLint.Proofs.Writing
import TailLint.Proofs.Place
import TailLint.Proofs.Reload
import TailLint.Proofs.Exit
import TailLint.Proofs.Reports
import TailLint.Proofs.Chain
import TailLint.Proofs.PolicyChange
import TailLint.Proofs.Naming
import TailLint.Proofs.Verdict
import TailLint.Proofs.Batch
import TailLint.Proofs.Configuration
import TailLint.Proofs.CanonicalForm
import TailLint.Proofs.Damage
import TailLint.Proofs.Ending
import TailLint.Proofs.Enumeration
import TailLint.Proofs.TailStructure
import TailLint.Proofs.Unlocated
import TailLint.Proofs.Containment
import TailLint.Proofs.Grammar
import TailLint.Proofs.Inheritance
import TailLint.Proofs.Stages
import TailLint.Proofs.Persistence
import TailLint.Proofs.BareNames
import TailLint.Proofs.Literals
import TailLint.Proofs.Comments
import TailLint.Proofs.Merging
import TailLint.Proofs.JsonLine
import TailLint.Proofs.Traversal
