import MiniScheme.Main
import MiniScheme.Proofs.Expr.RoundTrip
import MiniScheme.Proofs.Session.Apart
import MiniScheme.Proofs.Session.Chains
import MiniScheme.Proofs.Session.Fresh
import MiniScheme.Proofs.Session.Funnel
import MiniScheme.Proofs.Session.Parts
import MiniScheme.Proofs.Eval.Lifts
import MiniScheme.Proofs.Eval.Output
import MiniScheme.Proofs.Eval.Writes
import MiniScheme.Proofs.Session.Channels
import MiniScheme.Proofs.Eval.Limit
import MiniScheme.Proofs.Session.Buffer
import MiniScheme.Proofs.Eval.Steps
import MiniScheme.Proofs.Session.Bindings
import MiniScheme.Proofs.Primitive.Native
import MiniScheme.Proofs.Eval.Shapes
import MiniScheme.Proofs.Eval.Rules
import MiniScheme.Proofs.Eval.Adequacy
import MiniScheme.Proofs.Eval.Like
import MiniScheme.Proofs.Session.Unused
import MiniScheme.Proofs.Expr.Reline
import MiniScheme.Proofs.Session.Layout
import MiniScheme.Proofs.Expr.Positions
import MiniScheme.Proofs.Eval.Origins
import MiniScheme.Proofs.Session.Positions
import MiniScheme.Proofs.Expr.Cursor
import MiniScheme.Proofs.Eval.LambdaFree
import MiniScheme.Proofs.Failure.Limit
import MiniScheme.Proofs.Session.Ending
import MiniScheme.Proofs.Primitive.Doubles
import MiniScheme.Proofs.Session.Integers
import MiniScheme.Proofs.Token.Lines
import MiniScheme.Proofs.Store.Scope
import MiniScheme.Proofs.Session.Procedures
import MiniScheme.Proofs.Eval.Sequence
import MiniScheme.Proofs.Number.Exact
import MiniScheme.Proofs.Primitive.Comparison
import MiniScheme.Proofs.Session.Indistinct
import MiniScheme.Proofs.Expr.Quoted
import MiniScheme.Proofs.Number.Accuracy
import MiniScheme.Proofs.Expr.SecondRound
import MiniScheme.Proofs.Primitive.Arithmetic
import MiniScheme.Proofs.Check.Passing
import MiniScheme.Proofs.Eval.Parameters
import MiniScheme.Proofs.Check.Series
