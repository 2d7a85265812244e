import ScriptLexer.Main
import ScriptLexer.Proofs.Segmentation
import ScriptLexer.Session
import ScriptLexer.Proofs.Grammar
import ScriptLexer.Proofs.Scan.Watch
import ScriptLexer.Proofs.Scan.Lines
import ScriptLexer.Proofs.Token.Fusion
import ScriptLexer.Proofs.Scan.Spacing
import ScriptLexer.Proofs.Scan.Blanking
import ScriptLexer.Proofs.Scan.Seam
import ScriptLexer.Proofs.Text.Pieces
import ScriptLexer.Proofs.Console.Report
import ScriptLexer.Proofs.Console.Modes
import ScriptLexer.Proofs.Console.Excerpts
import ScriptLexer.Proofs.Scan.Lookahead
import ScriptLexer.Proofs.Console.Readback
import ScriptLexer.Proofs.Scan.Returns
import ScriptLexer.Proofs.Console.Returns
import ScriptLexer.Proofs.Reader.Cursor
import ScriptLexer.Proofs.Reader.Step
import ScriptLexer.Proofs.Reader.Run
import ScriptLexer.Proofs.Session.History
import ScriptLexer.Proofs.Session.Records
import ScriptLexer.Proofs.Console.Joined
import ScriptLexer.Proofs.Console.Prompt
import ScriptLexer.Proofs.Scan.Faultless
import ScriptLexer.Proofs.Console.Outcome
import ScriptLexer.Proofs.Number.Value
import ScriptLexer.Proofs.Text.Numeral
import ScriptLexer.Proofs.Number.Precision
import ScriptLexer.Proofs.Number.Reading
import ScriptLexer.Proofs.Number.Exact
import ScriptLexer.Proofs.Token.Display
import ScriptLexer.Proofs.Number.Interval
import ScriptLexer.Proofs.Number.Shortest
import ScriptLexer.Proofs.Token.Shortest
import ScriptLexer.Proofs.Number.Nearest
import ScriptLexer.Proofs.Token.Literal
import ScriptLexer.Proofs.Number.Integer
import ScriptLexer.Proofs.Token.Integer
import ScriptLexer.Proofs.Reader.Resumption
import ScriptLexer.Proofs.Token.Equality
import ScriptLexer.Proofs.Reader.Insertion
import ScriptLexer.Proofs.Reader.Safety
