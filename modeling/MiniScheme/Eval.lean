import MiniScheme.Form
import MiniScheme.Primitive.Apply

/-! Evaluation and application. Both take a limit on how deep they may nest, and one that reaches
it fails; printing and comparing inside a primitive use what is left of it. -/

namespace MiniScheme

def checkCount (anchor : Option Token) (name : String) (arity : Arity) (count : Nat) :
    Except EvalError Unit :=
  if arity.Admits count then .ok ()
  else if arity.more then .error ⟨anchor, .tooFewOperands name arity.least count⟩
  else .error ⟨anchor, .otherOperandCount name arity.least count⟩

/-- A fault inside a primitive is reported where the call stands. -/
def anchored (anchor : Option Token) (run : Run Value) : Run Value :=
  tryCatch run fun failure =>
    match failure with
    | .primitive fault => throw (.eval ⟨anchor, .primitive fault⟩)
    | failure => throw failure

mutual

def eval : Nat → Expr → Address → Run Value
  | 0, _, _ => throw .tooDeep
  | limit + 1, e, env =>
    match e with
    | .atom line (.symbol name) => do
      match (← get).lookup? env name with
      | some v => return v
      | none => throw (.eval ⟨some ⟨line, .atom (.symbol name)⟩, .unboundVariable⟩)
    | .atom _ (.string value _) => return .string value
    | .atom _ (.number _ value) => return .number value
    | .atom _ (.boolean value) => return .boolean value
    | .stray line message => throw (.eval ⟨some ⟨line, .rightParen⟩, .stray message⟩)
    | .unknown => throw (.eval ⟨none, .unknownExpression (Expr.kind .unknown)⟩)
    | .list line items => do
      match ← Run.ofExcept .eval (Form.ofItems line items) with
      | .empty => return .noValue
      | .define name value => do
        let v ← eval limit value env
        Run.define env name v
        return .noValue
      | .cond test yes no => do
        let v ← eval limit test env
        if v.isTruthy then eval limit yes env
        else match no with
          | some no => eval limit no env
          | none => return .noValue
      | .quote e => Run.ofExcept .eval e.quoted
      | .assign name nameLine value => do
        let v ← eval limit value env
        if ← Run.tryAssign env name v then return .noValue
        else throw (.eval ⟨some ⟨nameLine, .atom (.symbol name)⟩, .unboundVariable⟩)
      | .lambda params body => Run.newClosure "lambda" params body env
      | .call operator operands => do
        let f ← eval limit operator env
        let args ← operands.mapM fun e => eval limit e env
        apply limit (some ⟨line, .leftParen⟩) f args

def apply : Nat → Option Token → Value → List Value → Run Value
  | 0, _, _, _ => throw .tooDeep
  | limit + 1, anchor, f, args =>
    match f with
    | .primitive op _ => do
      Run.ofExcept .eval (checkCount anchor op.name op.arity args.length)
      anchored anchor (applyPrimitive limit op args)
    | .closure c => do
      Run.ofExcept .eval (checkCount anchor c.name (.exactly c.params.length) args.length)
      let frame ← Run.extend c.env c.params args
      eval limit c.body frame
    | f => throw (.eval ⟨anchor, .notCallable f.kind⟩)

def applyPrimitive : Nat → Primitive → List Value → Run Value
  | 0, _, _ => throw .tooDeep
  | limit + 1, op, args =>
    match op, args with
    | .apply, f :: args =>
      if f.isProcedure then apply limit none f args
      else throw (.primitive (.applyNotProcedure f.kind))
    | op, args => op.run limit args

end

end MiniScheme
