import Lox.Cli.Log
import Lox.Cli.Options
import Lox.Cli.Session
import Lox.Decimal.Fixed
import Lox.Decimal.Nearest
import Lox.Decimal.Read
import Lox.Decimal.Shortest
import Lox.Env
import Lox.Eval
import Lox.Expr.Basic
import Lox.Expr.Parse
import Lox.Expr.Render
import Lox.Fault.Basic
import Lox.Fault.Problem
import Lox.Main
import Lox.Native
import Lox.Number
import Lox.Proofs.Cli.Lines
import Lox.Proofs.Decimal.Nearest
import Lox.Proofs.Decimal.Shortest
import Lox.Proofs.Env.Chain
import Lox.Proofs.Env.Writes
import Lox.Proofs.Eval.Bindings
import Lox.Proofs.Eval.Depth
import Lox.Proofs.Eval.Faults
import Lox.Proofs.Eval.Hollow
import Lox.Proofs.Eval.Logical
import Lox.Proofs.Fault.Attach
import Lox.Proofs.Fault.Located
import Lox.Proofs.Number.Bits
import Lox.Proofs.Number.ReadBack
import Lox.Proofs.Number.Text
import Lox.Proofs.Parse.Abort
import Lox.Proofs.Parse.Complete
import Lox.Proofs.Parse.Cursor
import Lox.Proofs.Parse.Grammar
import Lox.Proofs.Parse.Loose
import Lox.Proofs.Parse.Recognize
import Lox.Proofs.Parse.Recovery
import Lox.Proofs.Parse.Report
import Lox.Proofs.Parse.Sites
import Lox.Proofs.Parse.Sound
import Lox.Proofs.Parse.WellFormed
import Lox.Proofs.Render.Positions
import Lox.Proofs.Report.Agreement
import Lox.Proofs.Scan.Bounds
import Lox.Proofs.Scan.Lines
import Lox.Proofs.Scan.Munch
import Lox.Proofs.Scan.Segments
import Lox.Proofs.Text.Decoding
import Lox.Report
import Lox.Text.Printable
import Lox.Text.Quote
import Lox.Text.Template
import Lox.Text.Utf8
import Lox.Token.Basic
import Lox.Token.Kind
import Lox.Token.Scan
import Lox.Value
