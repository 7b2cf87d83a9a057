import LexCalc.Main
import LexCalc.Text.Cursor
import LexCalc.Proofs.Natural.Value
import LexCalc.Proofs.Natural.Chain
import LexCalc.Proofs.Natural.Sum
import LexCalc.Proofs.Natural.Order
import LexCalc.Proofs.Natural.Shift
import LexCalc.Proofs.Natural.Product
import LexCalc.Proofs.Natural.Expression
import LexCalc.Proofs.Text.Numeral
import LexCalc.Proofs.Text.LineIndex
import LexCalc.Proofs.Text.Slice
import LexCalc.Proofs.Natural.Hexadecimal
import LexCalc.Proofs.Natural.BitCount
import LexCalc.Proofs.Calculation
import LexCalc.Proofs.Token.Grammar
import LexCalc.Proofs.Token.Scan
import LexCalc.Proofs.Token.Gap
import LexCalc.Proofs.Token.Run
import LexCalc.Proofs.Token.Tiling
import LexCalc.Proofs.Token.Conformance
import LexCalc.Proofs.Token.Printing
import LexCalc.Proofs.Token.Reading
import LexCalc.Proofs.Token.Respacing
import LexCalc.Proofs.Token.Modes
import LexCalc.Proofs.Listing.Records
import LexCalc.Proofs.Listing.Malformed
import LexCalc.Proofs.Token.Joining
import LexCalc.Proofs.Listing.Joining
import LexCalc.Proofs.Text.Counter
import LexCalc.Proofs.Token.Restart
import LexCalc.Proofs.Listing.Places
import LexCalc.Proofs.Natural.Coherence
import LexCalc.Proofs.Natural.Canonical
import LexCalc.Proofs.Text.Utf8
import LexCalc.Proofs.Json.Reader
import LexCalc.Proofs.Json.RoundTrip
import LexCalc.Proofs.Listing.Json
import LexCalc.Proofs.Text.Quoted
import LexCalc.Proofs.Listing.Lines
import LexCalc.Proofs.Listing.Execution
import LexCalc.Proofs.Listing.Verdict
import LexCalc.Proofs.Listing.Pool
import LexCalc.Proofs.Natural.Digits
import LexCalc.Proofs.Natural.GuardedShift
import LexCalc.Proofs.Natural.Results
import LexCalc.Proofs.Toml.Scalars
import LexCalc.Proofs.Toml.Document
import LexCalc.Proofs.Config
import LexCalc.Proofs.Natural.Operand
import LexCalc.Proofs.Token.Pieces
import LexCalc.Proofs.Token.Turns
import LexCalc.Proofs.Token.Progress
import LexCalc.Proofs.Text.Runs
import LexCalc.Proofs.Text.LineRanges
import LexCalc.Proofs.Text.LineSearch
import LexCalc.Proofs.Natural.CountReader
import LexCalc.Proofs.Token.Calls
import LexCalc.Proofs.Natural.BitLength
import LexCalc.Proofs.Natural.CheckedChain
import LexCalc.Proofs.Text.Zipper
import LexCalc.Proofs.Text.Boundary
