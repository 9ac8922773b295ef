import LineCalc.Main
import LineCalc.Proofs.Expression
import LineCalc.Proofs.Expression.Splitting
import LineCalc.Proofs.Postfix.Context
import LineCalc.Proofs.Postfix.Conversion
import LineCalc.Proofs.Binary64
import LineCalc.Proofs.Postfix.Evaluation
import LineCalc.Proofs.Lexeme
import LineCalc.Proofs.Lexeme.Division
import LineCalc.Proofs.Token.Reading
import LineCalc.Proofs.Token.Division
import LineCalc.Proofs.Line
import LineCalc.Proofs.Batch.Run
import LineCalc.Proofs.Batch.Lines
import LineCalc.Proofs.Numeral
import LineCalc.Proofs.Batch.Output
import LineCalc.Proofs.Batch.Faults
import LineCalc.Proofs.CommandLine.Directory
import LineCalc.Proofs.CommandLine.Execution
import LineCalc.Proofs.Batch.Concatenation
import LineCalc.Proofs.Batch.Feedback
import LineCalc.Proofs.Batch.LineEndings
import LineCalc.Proofs.Decimal
import LineCalc.Proofs.Token.Listing
import LineCalc.Proofs.Expression.Groups
import LineCalc.Proofs.Postfix.Refusal
import LineCalc.Proofs.Expression.Listing
import LineCalc.Proofs.Postfix.Substitution
import LineCalc.Proofs.Postfix.Decoding
import LineCalc.Proofs.Postfix.Recovery
import LineCalc.Proofs.Postfix.Pending
import LineCalc.Proofs.Postfix.Exchange
import LineCalc.Proofs.CommandLine.Arguments
import LineCalc.Proofs.CommandLine.Verbosity
import LineCalc.Proofs.Token.Concatenation
import LineCalc.Proofs.Batch.Reproduction
import LineCalc.Proofs.Binary64.Value
import LineCalc.Proofs.Line.Result
import LineCalc.Proofs.Line.Integer
import LineCalc.Proofs.Line.Point
import LineCalc.Proofs.Postfix.Failure
import LineCalc.Proofs.History
