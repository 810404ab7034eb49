import DnclTrace.Binary64.Basic
import DnclTrace.Binary64.Remainder
import DnclTrace.Binary64.Shortest
import DnclTrace.Binary64.Text
import DnclTrace.Value.Basic
import DnclTrace.Value.Arith
import DnclTrace.Value.Text
import DnclTrace.Text.Blank
import DnclTrace.Text.Digit
import DnclTrace.Text.Printable
import DnclTrace.Expr.Spelling
import DnclTrace.Expr.Token
import DnclTrace.Expr.Tree
import DnclTrace.Expr.Parser
import DnclTrace.Env
import DnclTrace.Diagnostic
import DnclTrace.Expr.Source
import DnclTrace.Expr.Eval
import DnclTrace.Pattern.Basic
import DnclTrace.Line.Scan
import DnclTrace.Line.Form
import DnclTrace.Line.Classify
import DnclTrace.Program.Lines
import DnclTrace.Program.Block
import DnclTrace.Program.Tree
import DnclTrace.Program.Outline
import DnclTrace.Report.Depth
import DnclTrace.Trace.Basic
import DnclTrace.Trace.Run
import DnclTrace.Trace.Cursor
import DnclTrace.Report.Json
import DnclTrace.Report.Listing
import DnclTrace.Report.Verbose
import DnclTrace.Cli.Options
import DnclTrace.Cli.Command
import DnclTrace.Main
import DnclTrace.Proofs.Run.Logic
import DnclTrace.Proofs.Run.Acts
import DnclTrace.Proofs.Run.Invariant
import DnclTrace.Proofs.Run.Outcome
import DnclTrace.Proofs.Run.Growth
import DnclTrace.Proofs.Run.Budget
import DnclTrace.Proofs.Tree.Block
import DnclTrace.Proofs.Tree.Cover
import DnclTrace.Proofs.Tree.Read
import DnclTrace.Proofs.Tree.Shapes
import DnclTrace.Proofs.Tree.Program
import DnclTrace.Proofs.Line.Recognize
import DnclTrace.Proofs.Tree.Laws
import DnclTrace.Proofs.Run.Chain
import DnclTrace.Proofs.Tree.Chain
import DnclTrace.Proofs.Tree.Policy
import DnclTrace.Proofs.Run.Policy
import DnclTrace.Proofs.Expr.Grammar
import DnclTrace.Proofs.Expr.Reading
import DnclTrace.Proofs.Expr.Sentences
import DnclTrace.Proofs.Run.Integral
import DnclTrace.Proofs.Run.Counted
import DnclTrace.Proofs.Run.Absorbed
import DnclTrace.Proofs.Expr.Normalize
import DnclTrace.Proofs.Expr.Scanning
import DnclTrace.Proofs.Expr.Reprint
import DnclTrace.Proofs.Expr.ReadBack
import DnclTrace.Proofs.Trace.Playback
import DnclTrace.Proofs.Line.Comment
import DnclTrace.Proofs.Tree.Outline
import DnclTrace.Proofs.Tree.Reports
import DnclTrace.Proofs.Env.Elements
import DnclTrace.Proofs.Expr.Frame
import DnclTrace.Proofs.Tree.Progress
