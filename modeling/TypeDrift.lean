import TypeDrift.Main
import TypeDrift.Proofs.Check.Append
import TypeDrift.Proofs.Check.Chains
import TypeDrift.Proofs.Check.Commute
import TypeDrift.Proofs.Check.Conservative
import TypeDrift.Proofs.Check.Drift
import TypeDrift.Proofs.Check.Excerpts
import TypeDrift.Proofs.Check.Knowledge
import TypeDrift.Proofs.Check.Messages
import TypeDrift.Proofs.Check.Nullable
import TypeDrift.Proofs.Check.Report
import TypeDrift.Proofs.Check.Respaced
import TypeDrift.Proofs.Check.Tags
import TypeDrift.Proofs.Command.Caret
import TypeDrift.Proofs.Command.Files
import TypeDrift.Proofs.Command.Tables
import TypeDrift.Proofs.Expr.OperatorChain
import TypeDrift.Proofs.Expr.Powers
import TypeDrift.Proofs.Guarded.Check
import TypeDrift.Proofs.Guarded.Edits
import TypeDrift.Proofs.Guarded.Stack
import TypeDrift.Proofs.Script.Breaks
import TypeDrift.Proofs.Script.CallSites
import TypeDrift.Proofs.Script.Displayed
import TypeDrift.Proofs.Script.LineEndings
import TypeDrift.Proofs.Token.Numerals
import TypeDrift.Proofs.Token.Strings
import TypeDrift.Proofs.Typing.Numerals
import TypeDrift.Proofs.Typing.Values
