import Calculator.CommandLine.Report
import Calculator.Cursor.Replay
import Calculator.Main
import Calculator.Proofs.Grammar.Reading
import Calculator.Proofs.Grammar.Derivation
import Calculator.Proofs.Grammar.Misfit
import Calculator.Proofs.Numeral.Pattern
import Calculator.Proofs.Token.Scanning
import Calculator.Proofs.Token.Division
import Calculator.Proofs.Decimal.Shortest
import Calculator.Proofs.Decimal.Written
import Calculator.Proofs.ReadBack
import Calculator.Proofs.Binary64.Midpoint
import Calculator.Proofs.Binary64.Nearest
import Calculator.Proofs.Grammar.Excess
import Calculator.Proofs.Numeral.Value
import Calculator.Proofs.Numeral.Rounded
import Calculator.Proofs.Token.Fault
import Calculator.Proofs.Binary64.Exact
import Calculator.Proofs.Binary64.Rounds
import Calculator.Proofs.Expr.Numbers
import Calculator.Proofs.Exact
import Calculator.Proofs.Token.Line
import Calculator.Proofs.Token.Composition
import Calculator.Proofs.Expr.Source
import Calculator.Proofs.Failure
import Calculator.Proofs.Binary64.Text
import Calculator.Proofs.Text.Message
import Calculator.Proofs.Expr.Text
import Calculator.Proofs.CommandLine.Output
import Calculator.Proofs.Grammar.Relocation
import Calculator.Proofs.CommandLine.TokensLine
import Calculator.Proofs.CommandLine.Spelling
import Calculator.Proofs.Expr.Rounded
import Calculator.Proofs.Decimal.Grid
import Calculator.Proofs.Decimal.Fewest
import Calculator.Proofs.Grammar.Calls
import Calculator.Proofs.Grammar.Bookkeeping
import Calculator.Proofs.Cursor.History
import Calculator.Proofs.Negation
