import NormalOrder.Term.Basic
import NormalOrder.Term.Subterms
import NormalOrder.Term.Traverse
import NormalOrder.Term.Numeral
import NormalOrder.Text.CharClass
import NormalOrder.Text.Quoted
import NormalOrder.Text.Integer
import NormalOrder.Text.Decoding
import NormalOrder.Text.Message
import NormalOrder.Surface.Token
import NormalOrder.Surface.Scanner
import NormalOrder.Surface.Cursor
import NormalOrder.Surface.Grammar
import NormalOrder.Surface.Program
import NormalOrder.Surface.Reader
import NormalOrder.Surface.Printer
import NormalOrder.Reduction.Evaluation
import NormalOrder.Bounded.Refusal
import NormalOrder.Bounded.Traverse
import NormalOrder.Bounded.Reduction
import NormalOrder.Bounded.Comparison
import NormalOrder.Bounded.Printer
import NormalOrder.Report.Diagnostic
import NormalOrder.Report.Reporter
import NormalOrder.Session
import NormalOrder.CommandLine.Options
import NormalOrder.CommandLine.Run
import NormalOrder.Main
import NormalOrder.Proofs.Substitution
import NormalOrder.Proofs.Standardization
import NormalOrder.Proofs.Walk
import NormalOrder.Proofs.Hints
import NormalOrder.Proofs.Scanning
import NormalOrder.Proofs.FreshName
import NormalOrder.Proofs.NamedTerm
import NormalOrder.Proofs.Derivation
import NormalOrder.Proofs.Parsing
import NormalOrder.Proofs.Numeral
import NormalOrder.Proofs.Written
import NormalOrder.Proofs.Printing
import NormalOrder.Proofs.RoundTrip
import NormalOrder.Proofs.Preservation
import NormalOrder.Proofs.Pieces
import NormalOrder.Proofs.NamedProgram
import NormalOrder.Proofs.Tiling
import NormalOrder.Proofs.Definition
import NormalOrder.Proofs.RunDepth
import NormalOrder.Proofs.NumeralSize
import NormalOrder.Proofs.Transcript
import NormalOrder.Proofs.ViablePrefix
import NormalOrder.Proofs.Placement
import NormalOrder.Proofs.Manuscript
import NormalOrder.Proofs.Machine
import NormalOrder.Proofs.Calls
import NormalOrder.Proofs.Outcomes
import NormalOrder.Proofs.Evaluation
import NormalOrder.Proofs.FirstRedex
import NormalOrder.Proofs.Renaming
import NormalOrder.Proofs.Lines
import NormalOrder.Proofs.Nesting
import NormalOrder.Proofs.ErrorReport
import NormalOrder.Proofs.Redexes
import NormalOrder.Proofs.Reprinting
import NormalOrder.Proofs.Weighing
import NormalOrder.Proofs.Literals
import NormalOrder.Proofs.Striking
import NormalOrder.Proofs.Brackets
import NormalOrder.Proofs.Arithmetic
import NormalOrder.Proofs.Decimal
import NormalOrder.Proofs.NameSearch
import NormalOrder.Proofs.Shifting
import NormalOrder.Proofs.Occurrences
import NormalOrder.Proofs.Offsets
